import Patchbay.Proofs.DropSound
import Patchbay.Proofs.WireSound

/-!
# Streams of samples

What arrives at the inlets of an instance tick by tick, what it puts out, and what else there is to
be seen of it on the way. Callbacks and messages between the ticks leave no samples of their own.
-/

namespace Patchbay

variable {R : Type}

namespace Stimulus

def isTick : Stimulus R → Bool
  | tick .. => true
  | configure _ | message .. => false

def sampleRate : Stimulus R → R
  | configure rate | message _ _ rate | tick _ _ rate => rate

def sample? (inlet : Nat) : Stimulus R → Option R
  | tick inputs _ _ => inputs[inlet]?
  | configure _ | message .. => none

def Fits (t : Topology) : Stimulus R → Prop
  | tick inputs outputs _ => inputs.length = t.inputWidth ∧ outputs.length = t.outputWidth
  | configure _ | message .. => True

theorem sample?_of_not_tick {stimulus : Stimulus R} (h : stimulus.isTick = false) (inlet : Nat) :
    stimulus.sample? inlet = none := by
  cases stimulus with
  | configure | message => rfl
  | tick => cases h

theorem fits_of_not_tick {stimulus : Stimulus R} (h : stimulus.isTick = false) (t : Topology) :
    stimulus.Fits t := by
  cases stimulus with
  | configure | message => trivial
  | tick => cases h

end Stimulus

def Response.sample? (outlet : Nat) : Response R → Option R
  | ticked outputs none => outputs[outlet]?
  | ticked _ (some _) | handled .. => none

def heard (inlet : Nat) (stimuli : List (Stimulus R)) : List R :=
  stimuli.filterMap (Stimulus.sample? inlet)

/-- What ticks alone have to do with is the same without all else. -/
theorem filterMap_ticks {α : Type} (stimuli : List (Stimulus R)) {f : Stimulus R → Option α}
    (hf : ∀ stimulus : Stimulus R, stimulus.isTick = false → f stimulus = none) :
    (stimuli.filter Stimulus.isTick).filterMap f = stimuli.filterMap f := by
  rw [List.filterMap_filter]
  refine List.filterMap_congr fun stimulus _ => ?_
  by_cases htick : stimulus.isTick = true
  · rw [if_pos htick]
  · rw [if_neg htick, hf stimulus (by simpa using htick)]

theorem heard_cons (inlet : Nat) (stimulus : Stimulus R) (stimuli : List (Stimulus R)) :
    heard inlet (stimulus :: stimuli) = (stimulus.sample? inlet).toList ++ heard inlet stimuli :=
  filterMap_cons ..

namespace Family

variable (F : Family R)

def played (outlet : Nat) (s : F.State) (stimuli : List (Stimulus R)) : List R :=
  (F.responses s stimuli).filterMap (Response.sample? outlet)

/-- What is seen of an instance by whoever looks at it before each stimulus. -/
def watch {α : Type} (look : F.State → Stimulus R → Option α) : F.State → List (Stimulus R) → List α
  | _, [] => []
  | s, stimulus :: stimuli =>
    (look s stimulus).toList ++ watch look (F.heed s stimulus) stimuli

variable {F}

theorem played_cons (outlet : Nat) (s : F.State) (stimulus : Stimulus R)
    (stimuli : List (Stimulus R)) : F.played outlet s (stimulus :: stimuli) =
      ((F.respond s stimulus).sample? outlet).toList ++
        F.played outlet (F.heed s stimulus) stimuli :=
  filterMap_cons ..

theorem respond_of_not_tick {stimulus : Stimulus R} (h : stimulus.isTick = false) (s : F.State)
    (outlet : Nat) : (F.respond s stimulus).sample? outlet = none := by
  cases stimulus with
  | configure | message => rfl
  | tick => cases h

end Family

end Patchbay
