/-!
# Shortest decimals

The decimal with the fewest digits that still rounds to a given binary number. A finite positive
number is a `Window`: its value and the two ends of the interval of reals that round to it. On the
grid of multiples of a power of ten, the only candidates are the two neighbours of the value;
`Window.shortest` takes the coarsest grid on which one of them lies in the window.
-/

namespace Patchbay

structure Decimal where
  digits : Nat
  exponent : Int
  deriving DecidableEq

inductive Tie
  | up
  | even
  deriving DecidableEq

/-- A value and the interval around it, all three in units of `2 ^ scale`; the ends belong to it
when `closed`. -/
structure Window where
  low : Nat
  value : Nat
  high : Nat
  closed : Bool
  scale : Int
  deriving DecidableEq

namespace Window

/-- The window of the number `m * 2 ^ q`. Its lower half is narrower where the spacing of numbers
doubles. -/
def ofBinary (m : Nat) (q : Int) (narrow : Bool) : Window where
  low := if narrow then 4 * m - 1 else 4 * m - 2
  value := 4 * m
  high := 4 * m + 2
  closed := m % 2 == 0
  scale := q - 2

def ofBits (bits : UInt64) : Window :=
  let n := bits.toNat % Nat.pow 2 63
  let mantissa := n % Nat.pow 2 52
  let exponent : Nat := n / Nat.pow 2 52
  if exponent = 0 then ofBinary mantissa (-1074) false
  else ofBinary (mantissa + Nat.pow 2 52) ((exponent : Int) - 1075) (mantissa == 0 && exponent != 1)

/-- The multiple of `10 ^ i` to write for the window, if one lies in it. -/
def onGrid (w : Window) (tie : Tie) (i : Int) : Option Nat :=
  let x := Nat.pow 2 w.scale.toNat * Nat.pow 10 (-i).toNat
  let y := Nat.pow 2 (-w.scale).toNat * Nat.pow 10 i.toNat
  let s := w.value * x / y
  let fits (c : Nat) : Bool :=
    if w.closed then w.low * x ≤ c * y && c * y ≤ w.high * x
    else w.low * x < c * y && c * y < w.high * x
  match fits s, fits (s + 1) with
  | false, false => none
  | true, false => some s
  | false, true => some (s + 1)
  | true, true =>
    let below := w.value * x - s * y
    let above := (s + 1) * y - w.value * x
    if below < above then some s
    else if above < below then some (s + 1)
    else match tie with
      | .up => some (s + 1)
      | .even => some (if s % 2 = 0 then s else s + 1)

def search (w : Window) (tie : Tie) : Nat → Int → Decimal
  | 0, i => ⟨0, i⟩
  | n + 1, i =>
    match w.onGrid tie i with
    | some d => ⟨d, i⟩
    | none => w.search tie n (i - 1)

/-- The search starts on a grid coarser than the value; eighteen digits are always enough. -/
def shortest (w : Window) (tie : Tie) : Decimal :=
  w.search tie 24 ((w.scale + (Nat.log2 w.value + 1 : Nat)) * 30103 / 100000 + 2)

end Window

end Patchbay
