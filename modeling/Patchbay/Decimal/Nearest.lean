import Patchbay.Decimal.Numeral

/-!
# Nearest floating-point numbers

A fraction is brought to the binary number nearest to it, a half to the even one: its last place is
chosen so that 53 binary digits stand in front, and there it is rounded once. Numerals are read this
way, and those that come beyond the largest finite number are refused.
-/

namespace Patchbay

/-- The whole number nearest to `n / d`, a half to the even one. -/
def roundDiv (n d : Nat) : Nat :=
  let below := n / d
  if 2 * (n % d) < d then below
  else if d < 2 * (n % d) then below + 1
  else below + below % 2

/-- The exponent of the last binary digit that is kept of `n / d`, which is not zero: 53 are kept,
but none below `2 ^ -1074`. -/
def lastPlace (n d : Nat) : Int :=
  let size : Int := (Nat.log2 n : Int) - Nat.log2 d
  let kept := if n * Nat.pow 2 (-size).toNat < d * Nat.pow 2 size.toNat then size - 53 else size - 52
  if kept < -1074 then -1074 else kept

/-- The bits of the number nearest to `n / d`, which is not zero. A carry runs over into the
exponent, and what is too large comes to the bits of infinity or more. -/
def nearestBits (n d : Nat) : Nat :=
  let place := lastPlace n d
  (place + 1074).toNat * Nat.pow 2 52 +
    roundDiv (n * Nat.pow 2 (-place).toNat) (d * Nat.pow 2 place.toNat)

def infinityBits : Nat := 0x7ff * Nat.pow 2 52

/-- The number nearest to a decimal, unless that is infinity. Decimals that are clearly too small or
too large are told by the place of their first digit. -/
def Decimal.toFloat? (d : Decimal) : Option Float :=
  let point := d.exponent + (Numeral.digitsOf d.digits).length
  if d.digits = 0 || point < -400 then some 0
  else if 400 < point then none
  else
    let bits :=
          nearestBits (d.digits * Nat.pow 10 d.exponent.toNat) (Nat.pow 10 (-d.exponent).toNat)
    if bits < infinityBits then some (Float.ofBits (UInt64.ofNat bits)) else none

def digitValue (c : Char) : Nat := c.toNat - '0'.toNat

def natOfDigits (ds : List Char) : Nat := ds.foldl (fun n c => 10 * n + digitValue c) 0

namespace Numeral

def decimal (n : Numeral) : Decimal where
  digits := natOfDigits (n.whole ++ n.fraction)
  exponent := n.exponent.getD 0 - n.fraction.length

def toFloat? (n : Numeral) : Option Float :=
  n.decimal.toFloat?.map fun x => if n.negative then -x else x

def toNat? (n : Numeral) : Option Nat :=
  if n.negative || !n.fraction.isEmpty || n.exponent.isSome then none
  else some (natOfDigits n.whole)

end Numeral

end Patchbay
