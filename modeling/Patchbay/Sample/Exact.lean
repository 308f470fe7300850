import Mathlib.Algebra.Order.Field.Rat
import Patchbay.Sample

/-!
# Exact samples

Fractions as samples: sums, products and comparisons without rounding. They leave open how long a
full turn is, what its cosine is and how a number is written.
-/

namespace Patchbay

class Tuning where
  turn : ℚ
  cos : ℚ → ℚ
  text : ℚ → String

instance [Tuning] : Sample ℚ where
  natCast n := n
  lt a b := decide (a < b)
  le a b := decide (a ≤ b)
  isFinite _ := true
  turn := Tuning.turn
  cos := Tuning.cos
  text := Tuning.text

end Patchbay
