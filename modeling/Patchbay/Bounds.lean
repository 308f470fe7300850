import Patchbay.Sample

/-! # Numeric ranges -/

namespace Patchbay

structure Bounds (R : Type) where
  min : R
  max : R
  deriving DecidableEq

namespace Bounds

variable {R : Type} [Sample R]

def between (a b : R) : Bounds R := if Sample.le a b then ⟨a, b⟩ else ⟨b, a⟩

def clamp (b : Bounds R) (v : R) : R := Sample.smaller (Sample.larger v b.min) b.max

def contains (b : Bounds R) (v : R) : Bool := Sample.le b.min v && Sample.le v b.max

end Bounds

end Patchbay
