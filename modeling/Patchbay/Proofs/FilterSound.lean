import Patchbay.Proofs.StandardStates
import Patchbay.Proofs.Streams

/-!
# A filter is its recurrence

What a filter puts out is a function of the samples at inlet 0 and of the coefficients in force, tick
by tick: whatever else it is handed only decides about the coefficients.
-/

namespace Patchbay

variable {R : Type}

@[simp] theorem Filter.inputWidth_topology : Filter.topology.inputWidth = 2 := rfl

@[simp] theorem Filter.outputWidth_topology : Filter.topology.outputWidth = 1 := rfl

variable [Sample R]

/-- What the recurrence puts out for inputs and their coefficients, after input `x₁` and output
`y₁`. -/
def FilterKind.play (kind : FilterKind) : (x₁ y₁ : R) → List (R × R) → List R
  | _, _, [] => []
  | x₁, y₁, (x, c) :: rest =>
    kind.recurrence x c x₁ y₁ :: kind.play x (kind.recurrence x c x₁ y₁) rest

theorem FilterKind.length_play (kind : FilterKind) : ∀ (pairs : List (R × R)) (x₁ y₁ : R),
    (kind.play x₁ y₁ pairs).length = pairs.length
  | [], _, _ => rfl
  | (x, _) :: rest, _, _ => congrArg Nat.succ (kind.length_play rest x _)

namespace StandardState

def coefficient? : StandardState R → Stimulus R → Option R
  | filter s, .tick inputs _ rate => s.coefficient? inputs rate
  | _, _ => none

def coefficients (s : StandardState R) (stimuli : List (Stimulus R)) : List R :=
  (standard R).watch coefficient? s stimuli

end StandardState

namespace FilterState

variable (s : FilterState R)

def MayTake (c : R) : Prop := c = s.coefficient ∨ ∃ v rate, c = s.kind.coefficient v rate

/-- A message at most gives a filter another coefficient. -/
theorem message_state (inlet : PortId) (msg : Message R) (rate : R) :
    ∃ c, s.MayTake c ∧ (s.message inlet msg rate).state = { s with coefficient := c } := by
  unfold message
  split
  · exact ⟨s.coefficient, Or.inl rfl, rfl⟩
  · split
    · exact ⟨_, Or.inr ⟨_, rate, rfl⟩, rfl⟩
    · exact ⟨s.coefficient, Or.inl rfl, rfl⟩

theorem exists_coefficient (x v rate : R) :
    ∃ c, s.MayTake c ∧ s.coefficient? [x, v] rate = some c := by
  unfold coefficient?
  cases s.mode with
  | signal => exact ⟨_, Or.inr ⟨v, rate, rfl⟩, rfl⟩
  | message => exact ⟨_, Or.inl rfl, rfl⟩

theorem tick_eq {x v c : R} (old : R) {rate : R} (hc : s.coefficient? [x, v] rate = some c) :
    s.tick [x, v] [old] rate = ⟨s.step x c, [(s.step x c).lastOutput], none⟩ := by
  simp [tick, hc, Ticked.write]

/-- What a filter does with what it is handed: a tick is a step of the recurrence, and anything else
at most gives it another coefficient. -/
inductive Handed : FilterState R → List (Stimulus R) → Prop
  | nil (s : FilterState R) : Handed s []
  | retuned {s : FilterState R} {stimulus : Stimulus R} {c : R} {rest : List (Stimulus R)} :
    stimulus.isTick = false → s.MayTake c →
    (standard R).heed (.filter s) stimulus = .filter { s with coefficient := c } →
    Handed { s with coefficient := c } rest → Handed s (stimulus :: rest)
  | stepped {s : FilterState R} {x v c old rate : R} {rest : List (Stimulus R)} :
    s.MayTake c → s.coefficient? [x, v] rate = some c →
    (standard R).heed (.filter s) (.tick [x, v] [old] rate) = .filter (s.step x c) →
    (standard R).respond (.filter s) (.tick [x, v] [old] rate) =
      .ticked [(s.step x c).lastOutput] none →
    Handed (s.step x c) rest → Handed s (.tick [x, v] [old] rate :: rest)

theorem handed : ∀ (stimuli : List (Stimulus R)) (s : FilterState R),
    (∀ stimulus ∈ stimuli, stimulus.Fits Filter.topology) → Handed s stimuli
  | [], s, _ => .nil s
  | stimulus :: rest, s, h => by
    obtain ⟨hfits, hrest⟩ := List.forall_mem_cons.mp h
    cases stimulus with
    | configure rate =>
      exact .retuned rfl (Or.inr ⟨s.initValue, rate, rfl⟩) rfl (handed rest _ hrest)
    | message inlet msg rate =>
      obtain ⟨c, htake, hc⟩ := s.message_state inlet msg rate
      exact .retuned rfl htake (congrArg StandardState.filter hc) (handed rest _ hrest)
    | tick inputs outputs rate =>
      obtain ⟨x, v, rfl⟩ := List.length_eq_two.mp hfits.1
      obtain ⟨old, rfl⟩ := List.length_eq_one_iff.mp hfits.2
      obtain ⟨c, htake, hc⟩ := s.exists_coefficient x v rate
      have htick := s.tick_eq old hc
      exact .stepped htake hc
        (congrArg (fun t : Ticked R (FilterState R) => StandardState.filter t.state) htick)
        (congrArg (fun t : Ticked R (FilterState R) => Response.ticked t.outputs t.fault) htick)
        (handed rest _ hrest)

/-- Callbacks and messages at most give a filter another coefficient. -/
theorem after_calm {life : List (Stimulus R)} (s : FilterState R)
    (hcalm : ∀ stimulus ∈ life, stimulus.isTick = false) :
    ∃ c, (standard R).after (.filter s) life = .filter { s with coefficient := c } := by
  have hhanded := handed life s fun stimulus hmem => Stimulus.fits_of_not_tick (hcalm stimulus hmem) _
  induction hhanded with
  | nil s => exact ⟨s.coefficient, rfl⟩
  | @retuned s stimulus c rest _ _ hheed _ ih =>
    obtain ⟨c', hc'⟩ := ih (List.forall_mem_cons.mp hcalm).2
    refine ⟨c', ?_⟩
    rw [Family.after, List.foldl_cons, hheed]
    exact hc'
  | stepped => cases (List.forall_mem_cons.mp hcalm).1

end FilterState

namespace StandardState

theorem coefficients_cons (s : StandardState R) (stimulus : Stimulus R)
    (stimuli : List (Stimulus R)) : s.coefficients (stimulus :: stimuli) =
      (s.coefficient? stimulus).toList ++
        coefficients ((standard R).heed s stimulus) stimuli := rfl

theorem coefficient?_of_not_tick {stimulus : Stimulus R} (h : stimulus.isTick = false)
    (s : StandardState R) : s.coefficient? stimulus = none := by
  cases stimulus with
  | configure | message => cases s <;> rfl
  | tick => cases h

variable (s : FilterState R) {stimuli : List (Stimulus R)}
  (h : ∀ stimulus ∈ stimuli, stimulus.Fits Filter.topology)
include h

/-- A filter puts out what its recurrence says, and has a coefficient at every tick. -/
theorem played_filter : (coefficients (filter s) stimuli).length = (heard 0 stimuli).length ∧
    (standard R).played 0 (filter s) stimuli = s.kind.play s.lastInput s.lastOutput
      ((heard 0 stimuli).zip (coefficients (filter s) stimuli)) := by
  have hhanded := FilterState.handed stimuli s h
  clear h
  induction hhanded with
  | nil => exact ⟨rfl, rfl⟩
  | @retuned s stimulus c rest hquiet _ hheed _ ih =>
    rw [coefficients_cons, heard_cons, Family.played_cons, hheed, coefficient?_of_not_tick hquiet,
      Stimulus.sample?_of_not_tick hquiet, Family.respond_of_not_tick hquiet]
    exact ih
  | @stepped s x v c old rate rest _ hc hheed hresponse _ ih =>
    obtain ⟨hlength, hplayed⟩ := ih
    have hcoefficient : coefficient? (filter s) (.tick [x, v] [old] rate) = some c := hc
    rw [coefficients_cons, heard_cons, Family.played_cons, hheed, hresponse, hcoefficient, hplayed]
    exact ⟨congrArg Nat.succ hlength, rfl⟩

theorem length_played :
    ((standard R).played 0 (filter s) stimuli).length = (heard 0 stimuli).length := by
  obtain ⟨hlength, hplayed⟩ := played_filter s h
  rw [hplayed, FilterKind.length_play, List.length_zip, hlength, Nat.min_self]

/-- What is true of the coefficients for all user values, and of the first, is always true. -/
theorem coefficients_forall {P : R → Prop} (hkind : ∀ v rate, P (s.kind.coefficient v rate))
    (hc : P s.coefficient) : ∀ c ∈ coefficients (filter s) stimuli, P c := by
  have hhanded := FilterState.handed stimuli s h
  clear h
  have htaken : ∀ {s : FilterState R} {c : R}, (∀ v rate, P (s.kind.coefficient v rate)) →
      P s.coefficient → s.MayTake c → P c := by
    rintro s c hkind hc (rfl | ⟨v, rate, rfl⟩)
    · exact hc
    · exact hkind v rate
  induction hhanded with
  | nil => exact List.forall_mem_nil _
  | @retuned s stimulus c rest hquiet htake hheed _ ih =>
    rw [coefficients_cons, hheed, coefficient?_of_not_tick hquiet]
    exact ih hkind (htaken hkind hc htake)
  | @stepped s x v c old rate rest htake hc' hheed _ _ ih =>
    have hcoefficient : coefficient? (filter s) (.tick [x, v] [old] rate) = some c := hc'
    rw [coefficients_cons, hheed, hcoefficient]
    exact List.forall_mem_cons.mpr ⟨htaken hkind hc htake, ih hkind hc⟩

end StandardState

end Patchbay
