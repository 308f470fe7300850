import Patchbay.Sample
import Patchbay.Decimal.Numeral

/-! # Double-precision samples -/

namespace Patchbay

instance : Sample Float where
  natCast := Float.ofNat
  lt a b := decide (a < b)
  le a b := decide (a ≤ b)
  isFinite x := x.isFinite
  turn := 6.283185307179586
  cos := Float.cos
  text := Layout.plain.text

end Patchbay
