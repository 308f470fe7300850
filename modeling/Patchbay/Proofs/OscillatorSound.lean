import Mathlib.Data.List.DropRight
import Mathlib.Tactic.Ring
import Patchbay.Sample.Exact
import Patchbay.Proofs.StandardStates
import Patchbay.Proofs.Streams

/-!
# The phase of an oscillator

Counted without rounding, the phase is where it was set last, and what the ticks since then have
added: signal and control frequency over the sample rate. It is the same whichever way the frequency
comes.
-/

namespace Patchbay

/-! ## What moves the phase -/

section
variable {R : Type}

def Stimulus.number? (inlet : PortId) : Stimulus R → Option R
  | .message port msg _ => if port = inlet then msg.singleFloat? else none
  | .configure _ | .tick .. => none

def lastNumber (inlet : PortId) (before : R) (history : List (Stimulus R)) : R :=
  (history.filterMap (Stimulus.number? inlet)).getLast?.getD before

theorem lastNumber_append_singleton (inlet : PortId) (before : R) (history : List (Stimulus R))
    (stimulus : Stimulus R) : lastNumber inlet before (history ++ [stimulus]) =
      (stimulus.number? inlet).getD (lastNumber inlet before history) := by
  unfold lastNumber
  rw [List.filterMap_append]
  cases h : stimulus.number? inlet with
  | none => simp [h]
  | some v => simp [h]

end

namespace Oscillator

def inForce (start : ℚ) (history : List (Stimulus ℚ)) : ℚ := lastNumber (.shadowOf 0) start history

inductive Move
  | set (phase : ℚ)
  | advance (way : ℚ)

namespace Move

def phase? : Move → Option ℚ
  | set phase => some phase
  | advance _ => none

def way? : Move → Option ℚ
  | set _ => none
  | advance way => some way

def apply (phase : ℚ) : Move → ℚ
  | set phase => phase
  | advance way => phase + way

end Move

def move? (frequency : ℚ) : Stimulus ℚ → Option Move
  | .tick inputs _ rate => inputs[0]?.map fun x => .advance ((x + frequency) / rate)
  | .message inlet msg rate => (Stimulus.number? (.regular 1) (.message inlet msg rate)).map .set
  | .configure _ => none

/-- What moves the phase, where every tick finds the control frequency in force. -/
def moves (start : ℚ) : (history : List (Stimulus ℚ)) → List (Stimulus ℚ) → List Move
  | _, [] => []
  | history, stimulus :: rest =>
    (move? (inForce start history) stimulus).toList ++ moves start (history ++ [stimulus]) rest

/-- The phase that was set last, or else zero, and all ways since then. -/
def phaseAfter (moves : List Move) : ℚ :=
  (moves.filterMap Move.phase?).getLast?.getD 0 +
    ((moves.rtakeWhile fun m => m.phase?.isNone).filterMap Move.way?).sum

theorem phaseAfter_append_singleton (moves : List Move) (m : Move) :
    phaseAfter (moves ++ [m]) = m.apply (phaseAfter moves) := by
  unfold phaseAfter
  cases m with
  | set phase =>
    rw [List.rtakeWhile_concat_neg _ _ _ (by simp [Move.phase?])]
    simp [Move.phase?, Move.apply]
  | advance way =>
    rw [List.rtakeWhile_concat_pos _ _ _ rfl]
    simp [Move.phase?, Move.way?, Move.apply, add_assoc]

theorem moves_append_singleton (start : ℚ) (stimulus : Stimulus ℚ) :
    ∀ rest history : List (Stimulus ℚ), moves start history (rest ++ [stimulus]) =
      moves start history rest ++ (move? (inForce start (history ++ rest)) stimulus).toList
  | [], history => by simp [moves]
  | first :: rest, history => by
    simp [moves, moves_append_singleton start stimulus rest]

end Oscillator

@[simp] theorem Oscillator.inputWidth_topology : Oscillator.topology.inputWidth = 1 := rfl

@[simp] theorem Oscillator.outputWidth_topology : Oscillator.topology.outputWidth = 1 := rfl

variable [Tuning]

/-! ## One step and many -/

namespace OscillatorState

variable (s : OscillatorState ℚ)

/-- A stimulus moves the phase, or gives another control frequency, or neither. -/
theorem heed_eq {stimulus : Stimulus ℚ} (h : stimulus.Fits Oscillator.topology) :
    (standard ℚ).heed (.oscillator s) stimulus =
      .oscillator ⟨s.kind, ((Oscillator.move? s.frequency stimulus).elim s.phase (·.apply s.phase)),
        (stimulus.number? (.shadowOf 0)).getD s.frequency⟩ := by
  cases stimulus with
  | configure rate => rfl
  | message inlet msg rate =>
    have hheed : (standard ℚ).heed (.oscillator s) (.message inlet msg rate) =
        .oscillator (s.message inlet msg).state := rfl
    rw [hheed]
    cases hv : msg.singleFloat? with
    | none => simp [message, hv, Stimulus.number?, Oscillator.move?, Handled.notify]
    | some v =>
      by_cases hfrequency : inlet = .shadowOf 0
      · have hphase : inlet ≠ .regular 1 := by
          rw [hfrequency]
          decide
        simp [message, hv, hfrequency, hfrequency ▸ hphase, Stimulus.number?, Oscillator.move?,
          Handled.quiet]
      · by_cases hphase : inlet = .regular 1
        · simp [message, hv, hphase, hphase ▸ hfrequency, Stimulus.number?, Oscillator.move?,
            Oscillator.Move.apply, Handled.quiet]
        · simp [message, hv, hfrequency, hphase, Stimulus.number?, Oscillator.move?,
            Handled.notify]
  | tick inputs outputs rate =>
    obtain ⟨x, rfl⟩ := List.length_eq_one_iff.mp h.1
    obtain ⟨old, rfl⟩ := List.length_eq_one_iff.mp h.2
    have hphase : s.phase + x / rate + s.frequency / rate = s.phase + (x + s.frequency) / rate := by
      ring
    have hheed : (standard ℚ).heed (.oscillator s) (.tick [x] [old] rate) =
        .oscillator ⟨s.kind, s.phase + x / rate + s.frequency / rate, s.frequency⟩ := rfl
    rw [hheed, hphase]
    rfl

theorem respond_tick (x old rate : ℚ) : (standard ℚ).respond (.oscillator s) (.tick [x] [old] rate) =
    .ticked [s.kind.shape s.phase] none := rfl

end OscillatorState

namespace StandardState

/-- Where a history leads an oscillator. -/
theorem after_oscillator (kind : OscillatorKind) (start : ℚ) (history : List (Stimulus ℚ)) :
    (∀ stimulus ∈ history, stimulus.Fits Oscillator.topology) →
      (standard ℚ).after (.oscillator ⟨kind, 0, start⟩) history =
        .oscillator ⟨kind, Oscillator.phaseAfter (Oscillator.moves start [] history),
          Oscillator.inForce start history⟩ := by
  induction history using List.reverseRecOn with
  | nil => simp [Family.after, Oscillator.moves, Oscillator.phaseAfter, Oscillator.inForce, lastNumber]
  | append_singleton history stimulus ih =>
    intro h
    obtain ⟨hhistory, hlast⟩ := List.forall_mem_append.mp h
    have hstep : ∀ s, (standard ℚ).after s (history ++ [stimulus]) =
        (standard ℚ).heed ((standard ℚ).after s history) stimulus :=
      fun s => List.foldl_concat _ s stimulus history
    rw [hstep, ih hhistory, OscillatorState.heed_eq _ (hlast stimulus (by simp)),
      Oscillator.moves_append_singleton, List.nil_append, Oscillator.inForce,
      Oscillator.inForce, lastNumber_append_singleton]
    cases Oscillator.move? (lastNumber (.shadowOf 0) start history) stimulus with
    | none => simp
    | some m => simp [Oscillator.phaseAfter_append_singleton]

end StandardState

/-! ## Three ways to bring a frequency -/

namespace Oscillator

/-- Ticks of an oscillator, each with the frequency that it is to get and with a phase to be set
before it, if any. `supply` says which message is to bring the frequency, if any, and which sample. -/
def supplied (supply : ℚ → Option ℚ × ℚ) (rate : ℚ) (plan : List (Option ℚ × ℚ)) :
    List (Stimulus ℚ) :=
  plan.flatMap fun step =>
    step.1.toList.map (fun p => .message (.regular 1) [.float p] rate) ++
      (supply step.2).1.toList.map (fun f => .message (.shadowOf 0) [.float f] rate) ++
        [.tick [(supply step.2).2] [0] rate]

def sweep (kind : OscillatorKind) (rate : ℚ) : (phase : ℚ) → List (Option ℚ × ℚ) → List ℚ
  | _, [] => []
  | phase, (p, f) :: rest =>
    kind.shape (p.getD phase) :: sweep kind rate (p.getD phase + f / rate) rest

theorem length_sweep (kind : OscillatorKind) (rate : ℚ) : ∀ (plan : List (Option ℚ × ℚ))
    (phase : ℚ), (sweep kind rate phase plan).length = plan.length
  | [], _ => rfl
  | _ :: rest, _ => congrArg Nat.succ (length_sweep kind rate rest _)

/-- However a frequency is supplied, if signal and control frequency make it up at every tick. -/
theorem played_supplied {supply : ℚ → Option ℚ × ℚ} {I : ℚ → Prop} (rate : ℚ) :
    ∀ (plan : List (Option ℚ × ℚ)) (s : OscillatorState ℚ),
      (∀ step ∈ plan, ∀ g, I g → (supply step.2).2 + (supply step.2).1.getD g = step.2 ∧
        I ((supply step.2).1.getD g)) → I s.frequency →
      (standard ℚ).played 0 (.oscillator s) (supplied supply rate plan) =
        sweep s.kind rate s.phase plan
  | [], _, _, _ => rfl
  | (p, f) :: rest, s, h, hs => by
    obtain ⟨hstep, hrest⟩ := List.forall_mem_cons.mp h
    obtain ⟨hsum, hnext⟩ := hstep s.frequency hs
    have hphase : p.getD s.phase + (supply f).2 / rate + (supply f).1.getD s.frequency / rate =
        p.getD s.phase + f / rate := by
      rw [add_assoc, ← add_div, hsum]
    have hfirst : (standard ℚ).played 0 (.oscillator s) (supplied supply rate ((p, f) :: rest)) =
        s.kind.shape (p.getD s.phase) :: (standard ℚ).played 0 (.oscillator ⟨s.kind,
          p.getD s.phase + (supply f).2 / rate + (supply f).1.getD s.frequency / rate,
          (supply f).1.getD s.frequency⟩) (supplied supply rate rest) := by
      rw [supplied, List.flatMap_cons]
      cases p <;> cases (supply f).1 <;> rfl
    rw [hfirst, hphase, played_supplied rate rest _ hrest hnext]
    rfl

end Oscillator

/-- At every tick an oscillator puts out the shape of the phase that was set last, or else of zero,
and of what the ticks since then have added: signal and control frequency over the sample rate. The
same frequencies, with phases set in between, make it put out the same, whether they come as signal,
as messages, or, if they are all the same, from the making. -/
theorem Standard.oscillator_phase_law {kind : OscillatorKind} {raw : List (Token ℚ)}
    {args : StandardArgs ℚ} (hread : (Standard.oscillator kind).readArgs raw = .ok args) :
    ∃ (frequency : ℚ) (made : Wired → Declared (StandardState ℚ)),
      args = .oscillator ⟨frequency⟩ ∧
      (∀ wired, ((Standard.oscillator kind).declare args wired).ending = .done (made wired)) ∧
      (∀ (wired : Wired) (stimuli : List (Stimulus ℚ)),
        (∀ stimulus ∈ stimuli, stimulus.Fits Oscillator.topology) →
        let start := if wired.hasSource 0 then 0 else frequency
        ∀ (k : Nat) (x old rate : ℚ), stimuli[k]? = some (.tick [x] [old] rate) →
          ((standard ℚ).responses (made wired).state stimuli)[k]? = some (.ticked
            [kind.shape (Oscillator.phaseAfter (Oscillator.moves start [] (stimuli.take k)))]
              none)) ∧
      (∀ wired free other : Wired, wired.hasSource 0 = true → free.hasSource 0 = false →
        ∀ (rate : ℚ) (plan : List (Option ℚ × ℚ)), ∃ outputs : List ℚ,
          outputs.length = plan.length ∧
          (standard ℚ).played 0 (made wired).state
            (Oscillator.supplied (fun f => (none, f)) rate plan) = outputs ∧
          (standard ℚ).played 0 (made other).state
            (Oscillator.supplied (fun f => (some f, 0)) rate plan) = outputs ∧
          ((∀ step ∈ plan, step.2 = frequency) → (standard ℚ).played 0 (made free).state
            (Oscillator.supplied (fun _ => (none, 0)) rate plan) = outputs)) := by
  obtain ⟨⟨frequency⟩, -, rfl, -⟩ := Blueprint.read_of_inFamily hread rfl fun _ => rfl
  refine ⟨frequency, fun wired => (Oscillator.declare kind ⟨frequency⟩ wired).map .oscillator, rfl,
    fun _ => rfl, ?_, ?_⟩
  · intro wired stimuli hfits start k x old rate hk
    have hbefore : ∀ stimulus ∈ stimuli.take k, stimulus.Fits Oscillator.topology :=
      fun stimulus hmem => hfits stimulus (List.mem_of_mem_take hmem)
    have hafter := StandardState.after_oscillator kind start (stimuli.take k) hbefore
    rw [Family.getElem?_responses, hk, Option.map_some]
    exact congrArg some ((congrArg ((standard ℚ).respond · (.tick [x] [old] rate)) hafter).trans
      (OscillatorState.respond_tick _ x old rate))
  · intro wired free other hwired hfree rate plan
    refine ⟨Oscillator.sweep kind rate 0 plan, Oscillator.length_sweep kind rate plan 0, ?_, ?_, ?_⟩
    · refine Oscillator.played_supplied (I := (· = 0)) rate plan
        (Oscillator.declare kind ⟨frequency⟩ wired).state (fun step _ g hg => ⟨?_, hg⟩) ?_
      · simp [hg]
      · simp [Oscillator.declare, hwired]
    · exact Oscillator.played_supplied (I := fun _ => True) rate plan
        (Oscillator.declare kind ⟨frequency⟩ other).state
        (fun step _ g _ => ⟨zero_add step.2, trivial⟩) trivial
    · intro hplan
      refine Oscillator.played_supplied (I := (· = frequency)) rate plan
        (Oscillator.declare kind ⟨frequency⟩ free).state (fun step hstep g hg => ⟨?_, hg⟩) ?_
      · simp [hg, hplan step hstep]
      · simp [Oscillator.declare, hfree]

omit [Tuning] in
/-- A message for the frequency, one for the phase, and another frequency after the next tick. -/
theorem Standard.oscillator_phase_law_ramp :
    letI : Tuning := ⟨44 / 7, id, fun _ => ""⟩
    let sample : ℚ → Stimulus ℚ := fun x => .tick [x] [0] 100
    let stimuli := [sample 1, .message (.shadowOf 0) [.float 20] 100, sample 5,
      .message (.regular 1) [.float 3] 100, sample (-10), .message (.shadowOf 0) [.float 30] 100,
      sample 2, sample 0]
    ∃ args, (Standard.oscillator .ramp).readArgs [.float (10 : ℚ)] = .ok args ∧
      ∃ d, ((Standard.oscillator .ramp).declare args (.ofInlets [])).ending = .done d ∧
        stimuli[7]? = some (sample 0) ∧
        ((standard ℚ).responses d.state stimuli)[7]? =
          some (.ticked [3 + ((-10 + 20) / 100 + (2 + 30) / 100)] none) := by
  let : Tuning := ⟨44 / 7, id, fun _ => ""⟩
  intro sample stimuli
  have hread : (Standard.oscillator .ramp).readArgs [.float (10 : ℚ)] =
      .ok (.oscillator ⟨10⟩) := rfl
  obtain ⟨frequency, made, hmade, hdeclared, hlaw, -⟩ := oscillator_phase_law hread
  cases hmade
  have hfits : ∀ stimulus ∈ stimuli, stimulus.Fits Oscillator.topology := by
    simp [stimuli, sample, Stimulus.Fits]
  have hphase : Oscillator.phaseAfter (Oscillator.moves 10 [] (stimuli.take 7)) =
      3 + ((-10 + 20) / 100 + (2 + 30) / 100) := by
    decide +kernel
  refine ⟨_, hread, made (.ofInlets []), hdeclared _, rfl, ?_⟩
  rw [← hphase]
  exact hlaw (.ofInlets []) stimuli hfits 7 0 0 100 rfl

end Patchbay
