/-!
# Samples

The numbers that signals, arguments and messages are made of. Every node and host is written once
over `Sample`, so that one definition runs on floating point and can be read over exact fractions.
-/

namespace Patchbay

/-- Numbers that can serve as samples. Comparisons answer `false` on anything that is no number;
such a value is recognised by not being equal to itself. -/
class Sample (R : Type) extends Add R, Sub R, Mul R, Div R, Zero R, One R, NatCast R,
    BEq R where
  lt : R → R → Bool
  le : R → R → Bool
  isFinite : R → Bool
  turn : R
  cos : R → R
  text : R → String

namespace Sample

variable {R : Type} [Sample R]

def isNumber (x : R) : Bool := x == x

/-- The larger of two samples; of a number and something else, the number. -/
def larger (a b : R) : R :=
  if !isNumber a then b else if !isNumber b then a else if lt a b then b else a

def smaller (a b : R) : R :=
  if !isNumber a then b else if !isNumber b then a else if lt b a then b else a

def confine (lo hi x : R) : R :=
  if lt x lo then lo else if lt hi x then hi else x

end Sample

end Patchbay
