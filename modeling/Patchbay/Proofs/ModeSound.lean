import Patchbay.Proofs.FilterSound

/-!
# Two ways to set a filter

A filter takes its user values from signal inlet 1 or from messages. Both ways lead to the same
samples if the values are the same at every tick, and each way shuts the other out.
-/

namespace Patchbay

variable {R : Type}

/-- The user values, tick by tick, of a filter that takes them from messages: the last one that was
offered, or else the one that the filter was made with, to which the callback goes back. -/
def Filter.userValues (made : R) : (v : R) → List (Stimulus R) → List R
  | _, [] => []
  | _, .configure _ :: rest => userValues made made rest
  | v, .message inlet msg _ :: rest =>
    userValues made (if inlet = .shadowOf 1 then (setting? msg).getD v else v) rest
  | v, .tick .. :: rest => v :: userValues made v rest

inductive Stimulus.SameInput : Stimulus R → Stimulus R → Prop
  | refl (stimulus : Stimulus R) : SameInput stimulus stimulus
  | tick (x v w : R) (outputs : List R) (rate : R) :
    SameInput (.tick [x, v] outputs rate) (.tick [x, w] outputs rate)

variable [Sample R]

/-! ## Values by signal -/

namespace FilterKind

def asked? (kind : FilterKind) : Stimulus R → Option R
  | .tick inputs _ rate => inputs[1]?.map fun v => kind.coefficient v rate
  | .configure _ | .message .. => none

theorem asked?_of_not_tick (kind : FilterKind) {stimulus : Stimulus R}
    (h : stimulus.isTick = false) : kind.asked? stimulus = none := by
  cases stimulus with
  | configure | message => rfl
  | tick => cases h

theorem asked_heard (kind : FilterKind) {rate : R} {stimuli : List (Stimulus R)}
    (h : ∀ stimulus ∈ stimuli, stimulus.sampleRate = rate) :
    stimuli.filterMap kind.asked? = (heard 1 stimuli).map fun v => kind.coefficient v rate := by
  rw [heard, List.map_filterMap]
  refine List.filterMap_congr fun stimulus hmem => ?_
  cases stimulus with
  | configure | message => rfl
  | tick inputs outputs rate' =>
    obtain rfl : rate' = rate := h _ hmem
    rfl

end FilterKind

namespace StandardState

theorem coefficients_signal {s : FilterState R} {stimuli : List (Stimulus R)}
    (h : ∀ stimulus ∈ stimuli, stimulus.Fits Filter.topology) (hmode : s.mode = .signal) :
    coefficients (filter s) stimuli = stimuli.filterMap s.kind.asked? := by
  have hhanded := FilterState.handed stimuli s h
  clear h
  induction hhanded with
  | nil => rfl
  | @retuned s stimulus c rest hquiet _ hheed _ ih =>
    rw [coefficients_cons, filterMap_cons, hheed, coefficient?_of_not_tick hquiet,
      s.kind.asked?_of_not_tick hquiet, ih hmode]
  | @stepped s x v c old rate rest _ _ hheed _ _ ih =>
    have hasked : coefficient? (filter s) (.tick [x, v] [old] rate) =
        s.kind.asked? (.tick [x, v] [old] rate) := by
      simp [coefficient?, FilterState.coefficient?, hmode, FilterKind.asked?]
    rw [coefficients_cons, filterMap_cons, hheed, hasked, ih hmode]
    rfl

/-! ## Values by messages -/

theorem coefficients_message {made rate : R} : ∀ (stimuli : List (Stimulus R)) (s : FilterState R)
    (v : R), (∀ stimulus ∈ stimuli, stimulus.Fits Filter.topology ∧ stimulus.sampleRate = rate) →
      s.mode = .message → s.initValue = made → s.coefficient = s.kind.coefficient v rate →
      coefficients (filter s) stimuli =
        (Filter.userValues made v stimuli).map fun v => s.kind.coefficient v rate
  | [], _, _, _, _, _, _ => rfl
  | stimulus :: stimuli, s, v, h, hmode, hmade, hc => by
    obtain ⟨⟨hfits, hrate⟩, hrest⟩ := List.forall_mem_cons.mp h
    rw [coefficients_cons]
    cases stimulus with
    | configure rate' =>
      obtain rfl : rate' = rate := hrate
      exact coefficients_message stimuli (s.configure rate').state made hrest hmode hmade
        (congrArg (s.kind.coefficient · rate') hmade)
    | message inlet msg rate' =>
      obtain rfl : rate' = rate := hrate
      have hstate : (standard R).heed (filter s) (.message inlet msg rate') =
          filter (s.message inlet msg rate').state := rfl
      rw [hstate, Filter.userValues]
      by_cases hinlet : inlet = .shadowOf 1
      · rw [if_pos hinlet]
        cases hset : Filter.setting? msg with
        | some u =>
          have hnext : (s.message inlet msg rate').state =
              { s with coefficient := s.kind.coefficient u rate' } := by
            simp [FilterState.message, hinlet, hmode, hset, Handled.quiet]
          rw [hnext]
          exact coefficients_message stimuli _ u hrest hmode hmade rfl
        | none =>
          have hnext : (s.message inlet msg rate').state = s := by
            simp [FilterState.message, hinlet, hmode, hset, Handled.notify]
          rw [hnext]
          exact coefficients_message stimuli s v hrest hmode hmade hc
      · have hnext : (s.message inlet msg rate').state = s := by
          simp [FilterState.message, hinlet, Handled.notify]
        rw [if_neg hinlet, hnext]
        exact coefficients_message stimuli s v hrest hmode hmade hc
    | tick inputs outputs rate' =>
      obtain ⟨x, w, rfl⟩ := List.length_eq_two.mp hfits.1
      obtain ⟨old, rfl⟩ := List.length_eq_one_iff.mp hfits.2
      have hcoefficient : s.coefficient? [x, w] rate' = some s.coefficient := by
        simp [FilterState.coefficient?, hmode]
      have hstate : (standard R).heed (filter s) (.tick [x, w] [old] rate') =
          filter (s.step x s.coefficient) :=
        congrArg (fun t : Ticked R (FilterState R) => filter t.state) (s.tick_eq old hcoefficient)
      have hlook : coefficient? (filter s) (.tick [x, w] [old] rate') = some s.coefficient :=
        hcoefficient
      rw [hstate, hlook, Filter.userValues, List.map_cons, ← hc]
      exact congrArg (_ :: ·)
        (coefficients_message stimuli (s.step x s.coefficient) v hrest hmode hmade hc)

end StandardState

/-! ## What has no influence -/

namespace FilterState

theorem tick_mode (s : FilterState R) (inputs outputs : List R) (rate : R) :
    (s.tick inputs outputs rate).state.mode = s.mode := by
  unfold tick
  split
  · cases outputs <;> rfl
  · rfl

theorem message_mode (s : FilterState R) (inlet : PortId) (msg : Message R) (rate : R) :
    (s.message inlet msg rate).state.mode = s.mode := by
  obtain ⟨c, -, hc⟩ := s.message_state inlet msg rate
  rw [hc]

theorem heed_mode (s : FilterState R) (stimulus : Stimulus R) :
    ∃ s' : FilterState R, (standard R).heed (.filter s) stimulus = .filter s' ∧ s'.mode = s.mode := by
  cases stimulus with
  | configure rate => exact ⟨_, rfl, rfl⟩
  | message inlet msg rate => exact ⟨_, rfl, s.message_mode inlet msg rate⟩
  | tick inputs outputs rate => exact ⟨_, rfl, s.tick_mode inputs outputs rate⟩

/-- A filter that takes its values from messages does not look at inlet 1. -/
theorem sameInput {s : FilterState R} (hmode : s.mode = .message) {left right : Stimulus R}
    (h : left.SameInput right) :
    (standard R).heed (.filter s) left = (standard R).heed (.filter s) right ∧
      (standard R).respond (.filter s) left = (standard R).respond (.filter s) right := by
  cases h with
  | refl => exact ⟨rfl, rfl⟩
  | tick x v w outputs rate =>
    have htick : s.tick [x, v] outputs rate = s.tick [x, w] outputs rate := by
      simp only [tick, coefficient?, hmode, List.getElem?_cons_zero]
    exact ⟨congrArg (fun t : Ticked R (FilterState R) => StandardState.filter t.state) htick,
      congrArg (fun t : Ticked R (FilterState R) => Response.ticked t.outputs t.fault) htick⟩

end FilterState

theorem StandardState.responses_sameInput {left right : List (Stimulus R)}
    (h : List.Forall₂ Stimulus.SameInput left right) : ∀ {s : FilterState R}, s.mode = .message →
      (standard R).responses (filter s) left = (standard R).responses (filter s) right := by
  induction h with
  | nil => exact fun _ => rfl
  | @cons stimulus _ left right hsame _ ih =>
    intro s hmode
    obtain ⟨s', hheed, hmode'⟩ := s.heed_mode stimulus
    obtain ⟨hsameHeed, hrespond⟩ := FilterState.sameInput hmode hsame
    rw [Family.responses, Family.responses, ← hsameHeed, hrespond, hheed, ih (hmode'.trans hmode)]

/-! ## Both ways side by side -/

namespace StandardState

variable {s t : FilterState R}

theorem played_signal {σ σ' : List (Stimulus R)}
    (hfits : ∀ stimulus ∈ σ ++ σ', stimulus.Fits Filter.topology)
    (hticks : σ.filter Stimulus.isTick = σ'.filter Stimulus.isTick) (hs : s.mode = .signal)
    (ht : t.mode = .signal) (hkind : s.kind = t.kind) (hinput : s.lastInput = t.lastInput)
    (houtput : s.lastOutput = t.lastOutput) :
    (standard R).played 0 (filter s) σ = (standard R).played 0 (filter t) σ' := by
  obtain ⟨hσ, hσ'⟩ := List.forall_mem_append.mp hfits
  rw [(played_filter s hσ).2, (played_filter t hσ').2, coefficients_signal hσ hs,
    coefficients_signal hσ' ht, hkind, hinput, houtput, heard, heard,
    ← filterMap_ticks σ (fun _ h => Stimulus.sample?_of_not_tick h 0),
    ← filterMap_ticks σ (fun _ h => t.kind.asked?_of_not_tick h), hticks,
    filterMap_ticks σ' (fun _ h => Stimulus.sample?_of_not_tick h 0),
    filterMap_ticks σ' (fun _ h => t.kind.asked?_of_not_tick h)]

theorem played_either {made rate : R} {σ τ : List (Stimulus R)}
    (h : ∀ stimulus ∈ σ ++ τ, stimulus.Fits Filter.topology ∧ stimulus.sampleRate = rate)
    (hinputs : heard 0 σ = heard 0 τ) (hvalues : heard 1 σ = Filter.userValues made made τ)
    (hs : s.mode = .signal) (ht : t.mode = .message) (hmade : t.initValue = made)
    (hc : t.coefficient = t.kind.coefficient made rate) (hkind : s.kind = t.kind)
    (hinput : s.lastInput = t.lastInput) (houtput : s.lastOutput = t.lastOutput) :
    (standard R).played 0 (filter s) σ = (standard R).played 0 (filter t) τ := by
  obtain ⟨hσ, hτ⟩ := List.forall_mem_append.mp h
  have hfitsσ := fun stimulus hmem => (hσ stimulus hmem).1
  have hfitsτ := fun stimulus hmem => (hτ stimulus hmem).1
  rw [(played_filter s hfitsσ).2, (played_filter t hfitsτ).2, coefficients_signal hfitsσ hs,
    FilterKind.asked_heard s.kind fun stimulus hmem => (hσ stimulus hmem).2,
    coefficients_message τ t made hτ ht hmade hc, hinputs, hvalues, hkind, hinput, houtput]

end StandardState

/-- A filter that takes its values by signal plays the same, tick by tick, as one that takes the same
values from messages, the one that was made with a value included. The samples at inlet 1 make no
difference to the latter, and neither messages nor the value that it was made with to the former. -/
theorem Standard.filter_modes_agree {kind : FilterKind} {raw raw' : List (Token R)}
    {args args' : StandardArgs R} (hread : (Standard.filter kind).readArgs raw = .ok args)
    (hread' : (Standard.filter kind).readArgs raw' = .ok args') {wired free : Wired}
    (hwired : wired.hasSource 1 = true) (hfree : free.hasSource 1 = false) :
    ∃ made byMessage bySignal bySignal', args = .filter ⟨made⟩ ∧
      ((Standard.filter kind).declare args free).ending = .done byMessage ∧
      ((Standard.filter kind).declare args wired).ending = .done bySignal ∧
      ((Standard.filter kind).declare args' wired).ending = .done bySignal' ∧
      (∀ (rate : R) (σ τ : List (Stimulus R)),
        (∀ stimulus ∈ σ ++ τ, stimulus.Fits Filter.topology ∧ stimulus.sampleRate = rate) →
        heard 0 σ = heard 0 τ → heard 1 σ = Filter.userValues made made τ →
        ∃ outputs, outputs.length = (heard 0 σ).length ∧
          (standard R).played 0 ((standard R).started bySignal' rate) σ = outputs ∧
          (standard R).played 0 ((standard R).started byMessage rate) τ = outputs) ∧
      (∀ τ τ' : List (Stimulus R), List.Forall₂ Stimulus.SameInput τ τ' →
        (standard R).responses byMessage.state τ = (standard R).responses byMessage.state τ') ∧
      (∀ σ σ' : List (Stimulus R), (∀ stimulus ∈ σ ++ σ', stimulus.Fits Filter.topology) →
        σ.filter Stimulus.isTick = σ'.filter Stimulus.isTick →
        ∃ outputs, outputs.length = (heard 0 σ).length ∧
          (standard R).played 0 bySignal.state σ = outputs ∧
          (standard R).played 0 bySignal'.state σ' = outputs) := by
  obtain ⟨⟨made⟩, -, rfl, -⟩ := Blueprint.read_of_inFamily hread rfl fun _ => rfl
  obtain ⟨⟨made'⟩, -, rfl, -⟩ := Blueprint.read_of_inFamily hread' rfl fun _ => rfl
  have hsignal : ∀ made : R, (Filter.declare kind ⟨made⟩ wired).map StandardState.filter =
      ⟨.filter ⟨kind, .signal, made, 0, 0, 0⟩, false, []⟩ := by
    intro made
    simp [Filter.declare, Declared.map, hwired]
  have hmessage : (Filter.declare kind ⟨made⟩ free).map StandardState.filter =
      ⟨.filter ⟨kind, .message, made, 0, 0, 0⟩, true, []⟩ := by
    simp [Filter.declare, Declared.map, hfree]
  refine ⟨made, _, _, _, rfl, congrArg Ending.done hmessage, congrArg Ending.done (hsignal made),
    congrArg Ending.done (hsignal made'), ?_, ?_, ?_⟩
  · intro rate σ τ h hinputs hvalues
    have hfits : ∀ stimulus ∈ σ, stimulus.Fits Filter.topology :=
      fun stimulus hmem => ((List.forall_mem_append.mp h).1 stimulus hmem).1
    refine ⟨_, StandardState.length_played _ hfits, rfl, Eq.symm ?_⟩
    exact StandardState.played_either h hinputs hvalues rfl rfl rfl rfl rfl rfl rfl
  · intro τ τ' hsame
    exact StandardState.responses_sameInput hsame rfl
  · intro σ σ' hfits hticks
    obtain ⟨hσ, -⟩ := List.forall_mem_append.mp hfits
    refine ⟨_, StandardState.length_played _ hσ, rfl, Eq.symm ?_⟩
    exact StandardState.played_signal hfits hticks rfl rfl rfl rfl rfl

/-- The first value from the making, the second from a bare number, the third from one that is set.
By signal, a message in between goes unheard. -/
theorem Standard.filter_modes_agree_highpass :
    let tell : Message Float → Stimulus Float := fun msg => .message (.shadowOf 1) msg 48000
    let sample : Float → Float → Stimulus Float := fun x v => .tick [x, v] [0] 48000
    let σ := [sample 1 100, tell [.float 7], sample 2 200, sample (-1) 300]
    let τ := [sample 1 5, tell [.float 200], sample 2 6, tell [.symbol "set", .float 300],
      sample (-1) 7]
    ∃ args args', (Standard.filter .hip).readArgs [.float (100 : Float)] = .ok args ∧
      (Standard.filter .hip).readArgs [] = .ok args' ∧
      (Wired.ofInlets [0, 1]).hasSource 1 = true ∧ (Wired.ofInlets [0]).hasSource 1 = false ∧
      heard 0 σ = [1, 2, -1] ∧ heard 0 τ = [1, 2, -1] ∧
      heard 1 σ = [100, 200, 300] ∧ Filter.userValues 100 100 τ = [100, 200, 300] ∧
      ∃ byMessage bySignal,
        ((Standard.filter .hip).declare args (.ofInlets [0])).ending = .done byMessage ∧
        ((Standard.filter .hip).declare args' (.ofInlets [0, 1])).ending = .done bySignal ∧
        ∃ outputs : List Float, outputs.length = 3 ∧
          (standard Float).played 0 ((standard Float).started bySignal 48000) σ = outputs ∧
          (standard Float).played 0 ((standard Float).started byMessage 48000) τ = outputs := by
  intro tell sample σ τ
  have hread : (Standard.filter .hip).readArgs [.float (100 : Float)] = .ok (.filter ⟨100⟩) := rfl
  have hread' : (Standard.filter .hip).readArgs [] = .ok (.filter ⟨(0 : Float)⟩) := rfl
  have hwired : (Wired.ofInlets [0, 1]).hasSource 1 = true := by decide
  have hfree : (Wired.ofInlets [0]).hasSource 1 = false := by decide
  obtain ⟨made, byMessage, _, bySignal, hmade, hmessage, -, hsignal, hall, -, -⟩ :=
    filter_modes_agree hread hread' hwired hfree
  cases hmade
  have hfits : ∀ stimulus ∈ σ ++ τ,
      stimulus.Fits Filter.topology ∧ stimulus.sampleRate = 48000 := by
    simp [σ, τ, tell, sample, Stimulus.Fits, Stimulus.sampleRate]
  have hσ : heard 0 σ = [1, 2, -1] := rfl
  have hτ : heard 0 τ = [1, 2, -1] := rfl
  have hasked : heard 1 σ = [100, 200, 300] := rfl
  have htold : Filter.userValues 100 100 τ = [100, 200, 300] := rfl
  exact ⟨_, _, hread, hread', hwired, hfree, hσ, hτ, hasked, htold, byMessage, bySignal, hmessage,
    hsignal, hall 48000 σ τ hfits (hσ.trans hτ.symm) (hasked.trans htold.symm)⟩

end Patchbay
