import Patchbay.Bounds
import Patchbay.Sample.Binary64

/-!
# Comparing samples

What the comparisons of samples have to satisfy for a clamped value to lie within its bounds,
whatever it was before. Doubles satisfy it: among those that are numbers any two are comparable.
-/

namespace Patchbay

/-- Numbers are in order, whatever is no number is below and above nothing, and small whole numbers
are finite. -/
class LawfulSample (R : Type) [Sample R] : Prop where
  isNumber_of_isFinite : ∀ {x : R}, Sample.isFinite x = true → Sample.isNumber x = true
  le_refl : ∀ {x : R}, Sample.isNumber x = true → Sample.le x x = true
  le_of_lt : ∀ {x y : R}, Sample.lt x y = true → Sample.le x y = true
  le_of_not_lt : ∀ {x y : R}, Sample.isNumber x = true → Sample.isNumber y = true →
    Sample.lt x y = false → Sample.le y x = true
  numbers_of_le : ∀ {x y : R}, Sample.le x y = true →
    Sample.isNumber x = true ∧ Sample.isNumber y = true
  isFinite_zero : Sample.isFinite (0 : R) = true
  isFinite_natCast : ∀ {n : Nat}, n < 128 → Sample.isFinite (n : R) = true

class LinearSample (R : Type) [Sample R] : Prop extends LawfulSample R where
  lt_of_lt_of_le : ∀ {x y z : R}, Sample.lt x y = true → Sample.le y z = true →
    Sample.lt x z = true
  not_lt_of_le : ∀ {x y : R}, Sample.le x y = true → Sample.lt y x = false

namespace Bounds

variable {R : Type} [Sample R]

def Ordered (b : Bounds R) : Prop := Sample.le b.min b.max = true

variable [LawfulSample R]

open LawfulSample

theorem between_ordered {a b : R} (ha : Sample.isFinite a = true) (hb : Sample.isFinite b = true) :
    (between a b).Ordered := by
  unfold between Ordered
  split
  · assumption
  · rename_i h
    have hlt : Sample.lt a b = false := Bool.eq_false_iff.mpr fun hlt => h (le_of_lt hlt)
    exact le_of_not_lt (isNumber_of_isFinite ha) (isNumber_of_isFinite hb) hlt

theorem smaller_contains {b : Bounds R} {v : R} (h : b.Ordered) (hv : Sample.le b.min v = true) :
    b.contains (Sample.smaller v b.max) = true := by
  obtain ⟨_, hmax⟩ := numbers_of_le h
  obtain ⟨_, hnum⟩ := numbers_of_le hv
  unfold contains Sample.smaller
  simp only [hnum, hmax, Bool.not_true, Bool.false_eq_true, if_false, Bool.and_eq_true]
  split
  · exact ⟨h, le_refl hmax⟩
  · rename_i hlt
    exact ⟨hv, le_of_not_lt hmax hnum (by simpa using hlt)⟩

/-- A clamped value lies within the bounds, also where it was no number before. -/
theorem contains_clamp {b : Bounds R} (h : b.Ordered) (v : R) : b.contains (b.clamp v) = true := by
  obtain ⟨hmin, _⟩ := numbers_of_le h
  refine smaller_contains h ?_
  unfold Sample.larger
  split
  · exact le_refl hmin
  · rename_i hv
    have hnum : Sample.isNumber v = true := by simpa using hv
    simp only [hmin, Bool.not_true, Bool.false_eq_true, if_false]
    split
    · exact le_refl hmin
    · rename_i hlt
      exact le_of_not_lt hnum hmin (by simpa using hlt)

end Bounds

/-! ## Doubles -/

open Float.Model (UnpackedFloat)

theorem magnitude_self (m : Nat) (e : Int) : (compare e e).then (compare m m) = .eq := by
  have hm : compare m m = .eq := Std.ReflCmp.compare_self
  have he : compare e e = .eq := Std.ReflCmp.compare_self
  rw [hm, he]
  rfl

theorem compare_self {x : UnpackedFloat} (h : x.isNaN = false) : x.compare x = some .eq := by
  cases x with
  | notANumber => cases h
  | infinity s => cases s <;> rfl
  | zero s => rfl
  | finite s m e hm =>
    cases s
    · exact congrArg some (congrArg Ordering.swap (magnitude_self m e))
    · exact congrArg some (magnitude_self m e)

theorem magnitude_swap (m n : Nat) (e f : Int) :
    (compare f e).then (compare n m) = ((compare e f).then (compare m n)).swap := by
  rw [Ordering.swap_then, ← Std.OrientedCmp.eq_swap, ← Std.OrientedCmp.eq_swap]

theorem compare_swap (x y : UnpackedFloat) : y.compare x = (x.compare y).map Ordering.swap := by
  -- only two finite values of one sign compare by magnitude; all else is a table of signs
  rcases x with (_ | _) | _ | _ | ⟨_ | _, m, e, _⟩ <;>
    rcases y with (_ | _) | _ | _ | ⟨_ | _, n, f, _⟩ <;>
    first
    | rfl
    | exact congrArg some (magnitude_swap m n e f)
    | exact congrArg some (congrArg Ordering.swap (magnitude_swap m n e f))

theorem numbers_of_compare {x y : UnpackedFloat} {o : Ordering} (h : x.compare y = some o) :
    x.isNaN = false ∧ y.isNaN = false := by
  cases x with
  | notANumber => cases h
  | _ =>
    cases y with
    | notANumber => cases h
    | _ => exact ⟨rfl, rfl⟩

theorem compare_isSome {x y : UnpackedFloat} (hx : x.isNaN = false) (hy : y.isNaN = false) :
    ∃ o, x.compare y = some o := by
  rcases x with (_ | _) | _ | _ | ⟨_ | _, m, e, _⟩ <;>
    rcases y with (_ | _) | _ | _ | ⟨_ | _, n, f, _⟩ <;>
    first
    | exact ⟨_, rfl⟩
    | exact absurd hx (by decide)
    | exact absurd hy (by decide)

/-- Only what is no number differs from itself. -/
theorem isNumber_iff {x : Float} : Sample.isNumber x = true ↔ x.toModel.unpack.isNaN = false := by
  show (x.toModel.unpack.compare x.toModel.unpack == some .eq) = true ↔ _
  constructor
  · exact fun h => (numbers_of_compare (beq_iff_eq.mp h)).1
  · exact fun h => beq_iff_eq.mpr (compare_self h)

theorem le_iff {x y : Float} : Sample.le x y = true ↔
    ∃ o, x.toModel.unpack.compare y.toModel.unpack = some o ∧ o.isLE = true := by
  rw [show Sample.le x y = decide (x.le y = true) from rfl, decide_eq_true_eq,
    show x.le y = decide ((x.toModel.unpack.compare y.toModel.unpack).any (·.isLE) = true) from rfl,
    decide_eq_true_eq, Option.any_eq_true]

theorem lt_iff {x y : Float} : Sample.lt x y = true ↔
    x.toModel.unpack.compare y.toModel.unpack = some .lt := by
  rw [show Sample.lt x y = decide (x.lt y = true) from rfl, decide_eq_true_eq,
    show x.lt y = decide ((x.toModel.unpack.compare y.toModel.unpack == some .lt) = true) from rfl,
    decide_eq_true_eq, beq_iff_eq]

instance : LawfulSample Float where
  isNumber_of_isFinite {x} h := by
    rw [isNumber_iff]
    have hfinite : x.toModel.unpack.isFinite = true := h
    cases hx : x.toModel.unpack with
    | notANumber => rw [hx] at hfinite; cases hfinite
    | _ => rfl
  le_refl h := le_iff.mpr ⟨.eq, compare_self (isNumber_iff.mp h), rfl⟩
  le_of_lt h := le_iff.mpr ⟨.lt, lt_iff.mp h, rfl⟩
  le_of_not_lt {x y} hx hy h := by
    obtain ⟨o, ho⟩ := compare_isSome (isNumber_iff.mp hx) (isNumber_iff.mp hy)
    have hne : o ≠ .lt := fun hlt => Bool.false_ne_true (h.symm.trans (lt_iff.mpr (hlt ▸ ho)))
    refine le_iff.mpr ⟨o.swap, by rw [compare_swap, ho]; rfl, ?_⟩
    cases o with
    | lt => exact absurd rfl hne
    | eq => rfl
    | gt => rfl
  numbers_of_le h := by
    obtain ⟨o, ho, _⟩ := le_iff.mp h
    rw [isNumber_iff, isNumber_iff]
    exact numbers_of_compare ho
  isFinite_zero := rfl
  isFinite_natCast {n} hn := by
    have hall : ∀ n : Fin 128, Sample.isFinite ((n.val : Nat) : Float) = true := by
      decide +kernel
    exact hall ⟨n, hn⟩

/-! ### Doubles in line -/

structure Place where
  rank : Int
  exponent : Int
  mantissa : Int

instance : Ord Place :=
  ⟨compareLex (compareOn Place.rank)
    (compareLex (compareOn Place.exponent) (compareOn Place.mantissa))⟩

instance : Std.TransOrd Place :=
  inferInstanceAs (Std.TransCmp (compareLex (compareOn Place.rank)
    (compareLex (compareOn Place.exponent) (compareOn Place.mantissa))))

def Place.of : UnpackedFloat → Place
  | .infinity .negative => ⟨-2, 0, 0⟩
  | .finite .negative m e _ => ⟨-1, -e, -m⟩
  | .zero _ | .notANumber => ⟨0, 0, 0⟩
  | .finite .positive m e _ => ⟨1, e, m⟩
  | .infinity .positive => ⟨2, 0, 0⟩

theorem compare_neg (a b : Int) : compare (-a) (-b) = (compare a b).swap := by
  rcases Int.lt_trichotomy a b with h | rfl | h
  · rw [Int.compare_eq_lt.mpr h, Int.compare_eq_gt.mpr (by omega)]
    rfl
  · rw [Int.compare_eq_eq.mpr rfl, Int.compare_eq_eq.mpr rfl]
    rfl
  · rw [Int.compare_eq_gt.mpr h, Int.compare_eq_lt.mpr (by omega)]
    rfl

theorem compare_natCast (m n : Nat) : compare (m : Int) n = compare m n := by
  rcases Nat.lt_trichotomy m n with h | rfl | h
  · rw [Nat.compare_eq_lt.mpr h, Int.compare_eq_lt.mpr (by omega)]
  · rw [Nat.compare_eq_eq.mpr rfl, Int.compare_eq_eq.mpr rfl]
  · rw [Nat.compare_eq_gt.mpr h, Int.compare_eq_gt.mpr (by omega)]

theorem compare_places {x y : UnpackedFloat} (hx : x.isNaN = false) (hy : y.isNaN = false) :
    x.compare y = some (compare (Place.of x) (Place.of y)) := by
  have hpositive : ∀ (m n : Nat) (e f : Int), compare (⟨1, e, m⟩ : Place) ⟨1, f, n⟩ =
      (compare e f).then (compare m n) := by
    intro m n e f
    rw [← compare_natCast]
    rfl
  have hnegative : ∀ (m n : Nat) (e f : Int), compare (⟨-1, -e, -m⟩ : Place) ⟨-1, -f, -n⟩ =
      ((compare e f).then (compare m n)).swap := by
    intro m n e f
    rw [Ordering.swap_then, ← compare_natCast, ← compare_neg, ← compare_neg]
    rfl
  rcases x with (_ | _) | _ | _ | ⟨_ | _, m, e, _⟩ <;>
    rcases y with (_ | _) | _ | _ | ⟨_ | _, n, f, _⟩ <;>
    first
    | rfl
    | exact absurd hx (by decide)
    | exact absurd hy (by decide)
    | exact congrArg some (hpositive m n e f).symm
    | exact congrArg some (hnegative m n e f).symm

theorem places_of_le {x y : Float} (h : Sample.le x y = true) :
    (compare (Place.of x.toModel.unpack) (Place.of y.toModel.unpack)).isLE = true := by
  obtain ⟨o, ho, hle⟩ := le_iff.mp h
  obtain ⟨hx, hy⟩ := numbers_of_compare ho
  rw [compare_places hx hy, Option.some.injEq] at ho
  rwa [ho]

theorem places_of_lt {x y : Float} (h : Sample.lt x y = true) :
    compare (Place.of x.toModel.unpack) (Place.of y.toModel.unpack) = .lt := by
  have ho := lt_iff.mp h
  obtain ⟨hx, hy⟩ := numbers_of_compare ho
  rwa [compare_places hx hy, Option.some.injEq] at ho

instance : LinearSample Float where
  lt_of_lt_of_le {x y z} hxy hyz := by
    obtain ⟨_, hyz', _⟩ := le_iff.mp hyz
    rw [lt_iff, compare_places (numbers_of_compare (lt_iff.mp hxy)).1 (numbers_of_compare hyz').2,
      Std.TransCmp.lt_of_lt_of_isLE (places_of_lt hxy) (places_of_le hyz)]
  not_lt_of_le {x y} h := by
    refine Bool.eq_false_iff.mpr fun hlt => ?_
    have hgt := Std.OrientedCmp.gt_of_lt (places_of_lt hlt)
    have hle := places_of_le h
    rw [hgt] at hle
    cases hle

end Patchbay
