import Patchbay.Decimal.Shortest

/-!
# Numerals

A decimal as it is written: sign, digits before and after the point, exponent. A `Layout` says which
decimals are written with all their digits and which with an exponent.
-/

namespace Patchbay

structure Numeral where
  negative : Bool
  whole : List Char
  fraction : List Char
  exponent : Option Int
  deriving DecidableEq

/-- How a decimal becomes a numeral. `positional p` says whether a decimal whose point stands `p`
places after its first digit's left edge is written out; `pointZero` whether a whole number still
shows `.0`; `plus` whether an exponent that is not negative has a sign. -/
structure Layout where
  positional : Int → Bool
  pointZero : Bool
  plus : Bool
  tie : Tie

namespace Layout

def plain : Layout := ⟨fun _ => true, false, false, .up⟩

/-- All digits from a ten-thousandth up to ten to the sixteenth, else an exponent. -/
def listing : Layout := ⟨fun p => -3 ≤ p && p ≤ 16, true, false, .up⟩

/-- As in `listing`, but hundred-thousandths are still written out, and exponents are signed. -/
def json : Layout := ⟨fun p => -4 ≤ p && p ≤ 16, true, true, .even⟩

end Layout

namespace Numeral

def digitsOf (n : Nat) : List Char := Nat.toDigits 10 n

def signed (plus : Bool) : Int → List Char
  | .ofNat n => if plus then '+' :: digitsOf n else digitsOf n
  | .negSucc n => '-' :: digitsOf (n + 1)

def ofNat (n : Nat) : Numeral := ⟨false, digitsOf n, [], none⟩

def ofDecimal (layout : Layout) (negative : Bool) (d : Decimal) : Numeral :=
  let ds := digitsOf d.digits
  let zeroes (n : Nat) : List Char := List.replicate n '0'
  let tail : List Char := if layout.pointZero then ['0'] else []
  let point := d.exponent + ds.length
  if layout.positional point then
    if point ≤ 0 then ⟨negative, ['0'], zeroes (-point).toNat ++ ds, none⟩
    else if d.exponent < 0 then ⟨negative, ds.take point.toNat, ds.drop point.toNat, none⟩
    else ⟨negative, ds ++ zeroes d.exponent.toNat, tail, none⟩
  else ⟨negative, ds.take 1, ds.drop 1, some (point - 1)⟩

def ofFloat (layout : Layout) (x : Float) : Numeral :=
  let negative := x.toBits.toNat / Nat.pow 2 63 == 1
  if x == 0 then ⟨negative, ['0'], if layout.pointZero then ['0'] else [], none⟩
  else ofDecimal layout negative ((Window.ofBits x.toBits).shortest layout.tie)

def chars (n : Numeral) (plus : Bool) : List Char :=
  (if n.negative then ['-'] else []) ++ n.whole ++
  (match n.fraction with
    | [] => []
    | ds => '.' :: ds) ++
  (match n.exponent with
    | none => []
    | some e => 'e' :: signed plus e)

end Numeral

def Layout.text (layout : Layout) (x : Float) : String :=
  if x.isNaN then "NaN"
  else if x.isInf then (if x < 0 then "-inf" else "inf")
  else String.ofList ((Numeral.ofFloat layout x).chars layout.plus)

end Patchbay
