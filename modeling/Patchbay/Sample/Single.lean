import Patchbay.Decimal.Nearest
import Patchbay.Sample.Binary64

/-!
# Whole numbers and single precision

What is to be made of a double where only a whole number or a number of 32 bits will do. Either is
rounded once, from the exact value.
-/

namespace Patchbay

def singleInfinity : Nat := 0xff * Nat.pow 2 23

namespace Window

/-- The whole number nearest to the value, a half to the larger one. -/
def whole (w : Window) : Nat :=
  let n := w.value * Nat.pow 2 w.scale.toNat
  let d := Nat.pow 2 (-w.scale).toNat
  (2 * n + d) / (2 * d)

/-- The exponent of the last binary digit that a single keeps of the value: 24 are kept, but none
below `2 ^ -149`. -/
def singlePlace (w : Window) : Int := max ((Nat.log2 w.value : Int) + w.scale - 23) (-149)

/-- The bits of the single nearest to the value, a half to the even one. A carry runs over into the
exponent, and what is too large is infinite. -/
def singleBits (w : Window) : Nat :=
  let place := w.singlePlace
  let last := roundDiv (w.value * Nat.pow 2 (w.scale - place).toNat)
    (Nat.pow 2 (place - w.scale).toNat)
  min ((place + 149).toNat * Nat.pow 2 23 + last) singleInfinity

end Window

/-- The sign is kept, and what is no number stays none. -/
def single (x : Float) : Float32 :=
  if Sample.isNumber x then
    let sign := x.toBits.toNat / Nat.pow 2 63
    .ofBits (.ofNat (sign * Nat.pow 2 31 + (Window.ofBits x.toBits).singleBits))
  else .ofBits 0x7fc00000

end Patchbay
