import Mathlib.Tactic.Linarith
import Mathlib.Tactic.Ring
import Patchbay.Sample.Exact
import Patchbay.Proofs.DropSound

/-!
# Low and high pass add up

Counted without rounding, a low pass and a high pass with the same cutoff split their input in two:
their coefficients add up to one, and so what they put out adds up to what came in, however the
cutoff moves.
-/

namespace Patchbay

/-! ## Arguments -/

theorem floatArg_any {R : Type} {raw : List (Token R)} {i : Nat} {nodeType : String}
    {found : Option R} (h : floatArg raw i nodeType = .ok found) (other : String) :
    floatArg raw i other = .ok found := by
  unfold floatArg at h ⊢
  cases ht : raw[i]? with
  | none => simpa only [ht] using h
  | some t =>
    cases t with
    | float v => simpa only [ht] using h
    | symbol name => simp [ht] at h

theorem FilterKind.readArgs_any {R : Type} [Sample R] {kind : FilterKind} {raw : List (Token R)}
    {a : FilterArgs R} (h : kind.blueprint.readArgs raw = .ok a) (other : FilterKind) :
    other.blueprint.readArgs raw = .ok a := by
  cases hfound : floatArg raw 0 kind.name with
  | error e => simp [FilterKind.blueprint, floatArgOr, hfound, Except.map] at h
  | ok found =>
    simp only [FilterKind.blueprint, floatArgOr, hfound, floatArg_any hfound other.name,
      Except.map] at h ⊢
    exact h

variable [Tuning]

/-! ## Coefficients -/

theorem Sample.confine_one_sub (w : ℚ) : confine 0 1 (1 - w) = 1 - confine 0 1 w := by
  have hconfine : ∀ x : ℚ, confine 0 1 x = if x < 0 then 0 else if 1 < x then 1 else x := by
    intro x
    simp only [confine, lt, decide_eq_true_eq]
  rw [hconfine, hconfine]
  split_ifs <;> linarith

theorem FilterKind.coefficient_hip (f rate : ℚ) :
    hip.coefficient f rate = 1 - lop.coefficient f rate :=
  Sample.confine_one_sub _

/-! ## One step of both -/

namespace FilterState

/-- A low pass and a high pass that have been driven alike. What they put out last was the last
input, and so it will be next: the coefficients add up to one. -/
structure Complement (low high : FilterState ℚ) : Prop where
  lowKind : low.kind = .lop
  highKind : high.kind = .hip
  mode : high.mode = low.mode
  initValue : high.initValue = low.initValue
  coefficient : low.mode = .message → high.coefficient = 1 - low.coefficient
  lastInput : high.lastInput = low.lastInput
  lastOutput : low.lastOutput + high.lastOutput = low.lastInput

namespace Complement

variable {low high : FilterState ℚ} (h : low.Complement high)
include h

theorem step (x c : ℚ) : (low.step x c).Complement (high.step x (1 - c)) where
  lowKind := h.lowKind
  highKind := h.highKind
  mode := h.mode
  initValue := h.initValue
  coefficient := h.coefficient
  lastInput := rfl
  lastOutput := by
    have hlast := h.lastOutput
    -- the high pass sees `x` less the last input, which is what both put out last
    simp only [FilterState.step, h.lowKind, h.highKind, FilterKind.recurrence, h.lastInput]
    rw [← hlast]
    ring

theorem retuned (v rate : ℚ) :
    ({ low with coefficient := low.kind.coefficient v rate } : FilterState ℚ).Complement
      { high with coefficient := high.kind.coefficient v rate } where
  lowKind := h.lowKind
  highKind := h.highKind
  mode := h.mode
  initValue := h.initValue
  coefficient _ := by
    rw [h.lowKind, h.highKind]
    exact FilterKind.coefficient_hip v rate
  lastInput := h.lastInput
  lastOutput := h.lastOutput

theorem configure (rate : ℚ) :
    (low.configure rate).state.Complement (high.configure rate).state := by
  have hhigh : (high.configure rate).state =
      { high with coefficient := high.kind.coefficient low.initValue rate } := by
    rw [← h.initValue]
    rfl
  rw [hhigh]
  exact h.retuned low.initValue rate

theorem message (inlet : PortId) (msg : Message ℚ) (rate : ℚ) :
    (low.message inlet msg rate).state.Complement (high.message inlet msg rate).state := by
  unfold FilterState.message
  by_cases hdrop : (inlet ≠ .shadowOf 1 || low.mode ≠ .message) = true
  · have hdrop' : (inlet ≠ .shadowOf 1 || high.mode ≠ .message) = true := by rwa [h.mode]
    rw [if_pos hdrop, if_pos hdrop']
    exact h
  · have hdrop' : ¬ (inlet ≠ .shadowOf 1 || high.mode ≠ .message) = true := by rwa [h.mode]
    rw [if_neg hdrop, if_neg hdrop']
    cases Filter.setting? msg with
    | none => exact h
    | some v => exact h.retuned v rate

/-- Both find a coefficient, or neither does. -/
theorem coefficient? (inputs : List ℚ) (rate : ℚ) :
    high.coefficient? inputs rate = (low.coefficient? inputs rate).map (1 - ·) := by
  cases hmode : low.mode with
  | signal =>
    simp only [FilterState.coefficient?, h.mode, hmode, h.lowKind, h.highKind, Option.map_map]
    exact congrArg (inputs[1]?.map ·) (funext fun v => FilterKind.coefficient_hip v rate)
  | message =>
    simp only [FilterState.coefficient?, h.mode, hmode, h.coefficient hmode, Option.map_some]

theorem tick (inputs outputs : List ℚ) (rate : ℚ) :
    (low.tick inputs outputs rate).state.Complement (high.tick inputs outputs rate).state := by
  simp only [FilterState.tick, h.coefficient? inputs rate]
  cases inputs[0]? with
  | none => exact h
  | some x =>
    cases low.coefficient? inputs rate with
    | none => exact h
    | some c => cases outputs <;> exact h.step x c

/-- Where there is an input, a coefficient and a place for the output, both outputs make up the
input. -/
theorem sum (x v old rate : ℚ) : ∃ y z, y + z = x ∧
    (low.tick [x, v] [old] rate).outputs = [y] ∧ (low.tick [x, v] [old] rate).fault = none ∧
    (high.tick [x, v] [old] rate).outputs = [z] ∧ (high.tick [x, v] [old] rate).fault = none := by
  obtain ⟨c, hc⟩ : ∃ c, low.coefficient? [x, v] rate = some c := by
    unfold FilterState.coefficient?
    cases low.mode <;> exact ⟨_, rfl⟩
  have hc' : high.coefficient? [x, v] rate = some (1 - c) := by
    rw [h.coefficient?, hc]
    rfl
  refine ⟨_, _, (h.step x c).lastOutput, ?_⟩
  simp [FilterState.tick, hc, hc', Ticked.write]

end Complement

end FilterState

/-! ## Both over their life -/

inductive StandardState.Complement : StandardState ℚ → StandardState ℚ → Prop
  | filters {low high : FilterState ℚ} (h : low.Complement high) :
    Complement (.filter low) (.filter high)

namespace StandardState.Complement

variable {low high : StandardState ℚ}

theorem heed (h : low.Complement high) (stimulus : Stimulus ℚ) :
    Complement ((standard ℚ).heed low stimulus) ((standard ℚ).heed high stimulus) := by
  obtain ⟨h⟩ := h
  cases stimulus with
  | configure rate => exact .filters (h.configure rate)
  | message inlet msg rate => exact .filters (h.message inlet msg rate)
  | tick inputs outputs rate => exact .filters (h.tick inputs outputs rate)

theorem after (stimuli : List (Stimulus ℚ)) : ∀ {low high : StandardState ℚ},
    low.Complement high →
      Complement ((standard ℚ).after low stimuli) ((standard ℚ).after high stimuli) := by
  induction stimuli with
  | nil => exact fun h => h
  | cons stimulus stimuli ih => exact fun h => ih (h.heed stimulus)

theorem respond (h : low.Complement high) (x v old rate : ℚ) : ∃ y z, y + z = x ∧
    (standard ℚ).respond low (.tick [x, v] [old] rate) = .ticked [y] none ∧
    (standard ℚ).respond high (.tick [x, v] [old] rate) = .ticked [z] none := by
  obtain ⟨h⟩ := h
  obtain ⟨y, z, hsum, hlow, hlowFine, hhigh, hhighFine⟩ := h.sum x v old rate
  exact ⟨y, z, hsum, congrArg₂ Response.ticked hlow hlowFine,
    congrArg₂ Response.ticked hhigh hhighFine⟩

end StandardState.Complement

/-! ## From the arguments on -/

theorem Filter.started_complement (a : FilterArgs ℚ) (wired : Wired) (rate : ℚ) :
    let started := fun kind => (standard ℚ).started ((declare kind a wired).map .filter) rate
    (started .lop).Complement (started .hip) := by
  intro started
  by_cases hwired : wired.hasSource 1 = true
  · have hstarted : ∀ kind, started kind = .filter ⟨kind, .signal, a.initValue, 0, 0, 0⟩ := by
      intro kind
      simp [started, Family.started, declare, Declared.map, hwired]
    rw [hstarted, hstarted]
    exact .filters ⟨rfl, rfl, rfl, rfl, fun hmode => (by cases hmode), rfl, add_zero 0⟩
  · have hstarted : ∀ kind, started kind =
        .filter ⟨kind, .message, a.initValue, kind.coefficient a.initValue rate, 0, 0⟩ := by
      intro kind
      simp [started, Family.started, declare, Declared.map, hwired, Family.heed,
        StandardState.configure, FilterState.configure, Handled.map, Handled.quiet]
    rw [hstarted, hstarted]
    exact .filters ⟨rfl, rfl, rfl, rfl, fun _ => FilterKind.coefficient_hip _ _, rfl, add_zero 0⟩

/-- A low pass and a high pass that were built from the same arguments, started, and then given the
same messages and samples put out two samples at every tick that add up to the one that came in.
Where the cutoff comes from and how it changes makes no difference. -/
theorem Standard.low_and_high_add_up {raw : List (Token ℚ)} {args : StandardArgs ℚ}
    (hread : (Standard.filter .lop).readArgs raw = .ok args) (wired : Wired) :
    ∃ low high, ((Standard.filter .lop).declare args wired).ending = .done low ∧
      (Standard.filter .hip).readArgs raw = .ok args ∧
      ((Standard.filter .hip).declare args wired).ending = .done high ∧
      ∀ (rate : ℚ) (stimuli : List (Stimulus ℚ)) (k : Nat) (x v old rate' : ℚ),
        stimuli[k]? = some (.tick [x, v] [old] rate') →
        ∃ y z, y + z = x ∧
          ((standard ℚ).responses ((standard ℚ).started low rate) stimuli)[k]? =
            some (.ticked [y] none) ∧
          ((standard ℚ).responses ((standard ℚ).started high rate) stimuli)[k]? =
            some (.ticked [z] none) := by
  obtain ⟨a, ha, rfl, -⟩ := Blueprint.read_of_inFamily hread rfl fun _ => rfl
  have hhigh : (Standard.filter .hip).readArgs raw = .ok (.filter a) := by
    simp [Standard.filter, Blueprint.inFamily, FilterKind.readArgs_any ha .hip, Except.map]
  refine ⟨(Filter.declare .lop a wired).map .filter, (Filter.declare .hip a wired).map .filter,
    rfl, hhigh, rfl, ?_⟩
  intro rate stimuli k x v old rate' hk
  have hbefore := StandardState.Complement.after (stimuli.take k)
    (Filter.started_complement a wired rate)
  obtain ⟨y, z, hsum, hlow, hhigh⟩ := hbefore.respond x v old rate'
  refine ⟨y, z, hsum, ?_, ?_⟩
  · rw [Family.getElem?_responses, hk, Option.map_some, hlow]
  · rw [Family.getElem?_responses, hk, Option.map_some, hhigh]

omit [Tuning] in
/-- One sample before, between and after a cutoff below zero and one far above the rate. -/
theorem Standard.low_and_high_add_up_swept :
    letI : Tuning := ⟨44 / 7, id, fun _ => ""⟩
    let raw : List (Token ℚ) := [.float 1000]
    let sample : ℚ → Stimulus ℚ := fun x => .tick [x, 0] [0] 48000
    let cutoff : ℚ → Stimulus ℚ := fun f => .message (.shadowOf 1) [.float f] 48000
    let stimuli := [sample 1, cutoff (-5), sample 3, cutoff 1000000, sample (-2)]
    ∃ args, (Standard.filter .lop).readArgs raw = .ok args ∧
      ∃ low high, ((Standard.filter .lop).declare args (.ofInlets [])).ending = .done low ∧
        ((Standard.filter .hip).declare args (.ofInlets [])).ending = .done high ∧
        stimuli[4]? = some (sample (-2)) ∧ ∃ y z : ℚ, y + z = -2 ∧
          ((standard ℚ).responses ((standard ℚ).started low 48000) stimuli)[4]? =
            some (.ticked [y] none) ∧
          ((standard ℚ).responses ((standard ℚ).started high 48000) stimuli)[4]? =
            some (.ticked [z] none) := by
  let : Tuning := ⟨44 / 7, id, fun _ => ""⟩
  intro raw sample cutoff stimuli
  have hread : (Standard.filter .lop).readArgs raw = .ok (.filter ⟨1000⟩) := rfl
  obtain ⟨low, high, hlow, -, hhigh, hall⟩ := low_and_high_add_up hread (.ofInlets [])
  exact ⟨_, hread, low, high, hlow, hhigh, rfl, hall 48000 stimuli 4 (-2) 0 0 48000 rfl⟩

end Patchbay
