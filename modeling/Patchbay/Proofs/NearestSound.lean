import Mathlib.Algebra.Order.Field.Power
import Mathlib.Algebra.Order.Field.Rat
import Mathlib.Tactic
import Patchbay.Decimal.Nearest

/-!
# Rounding to the nearest number

The window of a number `m * 2 ^ q` holds the fractions that are nearer to it than to any other
number; at its ends the even one of two neighbours wins. Everything in the window is rounded to the
number, also where it lies just below a power of two, with finer numbers beneath.
-/

namespace Patchbay

/-! ## Powers with negative exponents -/

theorem cast_natPow (b k : Nat) : ((Nat.pow b k : Nat) : ℚ) = (b : ℚ) ^ k := Nat.cast_pow b k

theorem zpow_eq_div (b : ℚ) (i : ℤ) : b ^ i = b ^ i.toNat / b ^ (-i).toNat := by
  obtain ⟨n, rfl | rfl⟩ := i.eq_nat_or_neg
  · simp
  · simp [div_eq_mul_inv]

theorem two_zpow_le_ten_zpow (k : Nat) : (2 : ℚ) ^ (3 * k : ℤ) ≤ 10 ^ (k : ℤ) := by
  rw [zpow_mul, zpow_natCast, zpow_natCast]
  gcongr
  norm_num

/-! ## Rounding a quotient -/

/-- The whole number `m` lies within a half of `v`, and nearer if it is odd. -/
structure RoundsTo (v : ℚ) (m : Nat) : Prop where
  low : (m : ℚ) - 1 / 2 ≤ v
  high : v ≤ m + 1 / 2
  odd : m % 2 = 1 → (m : ℚ) - 1 / 2 < v ∧ v < m + 1 / 2

theorem roundDiv_eq {n d m : Nat} (hd : 0 < d) (h : RoundsTo (n / d) m) : roundDiv n d = m := by
  obtain ⟨hlow, hhigh, hodd⟩ := h
  have hd' : (0 : ℚ) < d := by exact_mod_cast hd
  have hlow' : 2 * (m * d) ≤ 2 * n + d := by
    rw [le_div_iff₀ hd'] at hlow
    have h : (2 * (m * d) : ℚ) ≤ 2 * n + d := by linarith
    exact_mod_cast h
  have hhigh' : 2 * n ≤ 2 * (m * d) + d := by
    rw [div_le_iff₀ hd'] at hhigh
    have h : (2 * n : ℚ) ≤ 2 * (m * d) + d := by linarith
    exact_mod_cast h
  have hodd' : m % 2 = 1 → 2 * (m * d) < 2 * n + d ∧ 2 * n < 2 * (m * d) + d := by
    intro hm
    obtain ⟨hl, hh⟩ := hodd hm
    rw [lt_div_iff₀ hd'] at hl
    rw [div_lt_iff₀ hd'] at hh
    have h : (2 * (m * d) : ℚ) < 2 * n + d := by linarith
    have h' : (2 * n : ℚ) < 2 * (m * d) + d := by linarith
    exact ⟨by exact_mod_cast h, by exact_mod_cast h'⟩
  have hn := Nat.div_add_mod' n d
  have hr := Nat.mod_lt n hd
  have hbelow : n / d ≤ m := by
    by_contra hlt
    have hmul : (m + 1) * d ≤ n / d * d := Nat.mul_le_mul_right d (by omega)
    have hsucc : (m + 1) * d = m * d + d := Nat.succ_mul _ _
    omega
  have habove : m ≤ n / d + 1 := by
    by_contra hlt
    have hmul : (n / d + 2) * d ≤ m * d := Nat.mul_le_mul_right d (by omega)
    rw [Nat.add_mul] at hmul
    omega
  unfold roundDiv
  dsimp only
  by_cases hm : m = n / d
  · subst hm
    split
    · rfl
    · split <;> omega
  · obtain rfl : m = n / d + 1 := by omega
    have hsucc : (n / d + 1) * d = n / d * d + d := Nat.succ_mul _ _
    split
    · omega
    · split
      · rfl
      · omega

/-! ## The last place -/

structure LastPlace (v : ℚ) (p : ℤ) : Prop where
  lt : v < 2 ^ (p + 53)
  le : -1074 ≤ p
  full : p = -1074 ∨ (2 : ℚ) ^ (p + 52) ≤ v

theorem lt_of_zpow_lt {i j : ℤ} (h : (2 : ℚ) ^ i < 2 ^ j) : i < j :=
  (zpow_lt_zpow_iff_right₀ (by norm_num)).mp h

theorem LastPlace.unique {v : ℚ} {p p' : ℤ} (h : LastPlace v p) (h' : LastPlace v p') : p = p' := by
  have hle : ∀ {p p' : ℤ}, LastPlace v p → LastPlace v p' → p ≤ p' := by
    intro p p' h h'
    rcases h.full with hp | hp
    · have := h'.le
      omega
    · have := lt_of_zpow_lt (hp.trans_lt h'.lt)
      omega
  exact le_antisymm (hle h h') (hle h' h)

theorem LastPlace.of_kept {v : ℚ} {kept : ℤ} (hlt : v < 2 ^ (kept + 53))
    (hle : (2 : ℚ) ^ (kept + 52) ≤ v) : LastPlace v (if kept < -1074 then -1074 else kept) := by
  by_cases h : kept < -1074
  · rw [if_pos h]
    have hpow : (2 : ℚ) ^ (kept + 53) ≤ 2 ^ ((-1074 : ℤ) + 53) :=
      zpow_le_zpow_right₀ (by norm_num) (by omega)
    exact ⟨hlt.trans_le hpow, le_refl _, Or.inl rfl⟩
  · rw [if_neg h]
    exact ⟨hlt, not_lt.mp h, Or.inr hle⟩

theorem lastPlace_spec {n d : Nat} (hn : n ≠ 0) (hd : d ≠ 0) :
    LastPlace (n / d) (lastPlace n d) := by
  have hd' : (0 : ℚ) < d := by exact_mod_cast Nat.pos_of_ne_zero hd
  obtain ⟨hn₁, hn₂⟩ : (2 : ℚ) ^ (Nat.log2 n : ℤ) ≤ n ∧ (n : ℚ) < 2 ^ ((Nat.log2 n : ℤ) + 1) := by
    refine ⟨by exact_mod_cast Nat.log2_self_le hn, ?_⟩
    exact_mod_cast Nat.lt_log2_self
  obtain ⟨hd₁, hd₂⟩ : (2 : ℚ) ^ (Nat.log2 d : ℤ) ≤ d ∧ (d : ℚ) < 2 ^ ((Nat.log2 d : ℤ) + 1) := by
    refine ⟨by exact_mod_cast Nat.log2_self_le hd, ?_⟩
    exact_mod_cast Nat.lt_log2_self
  unfold lastPlace
  generalize (Nat.log2 n : ℤ) = i at *
  generalize (Nat.log2 d : ℤ) = j at *
  have hlow : (2 : ℚ) ^ (i - j - 1) < n / d := by
    rw [lt_div_iff₀ hd']
    calc (2 : ℚ) ^ (i - j - 1) * d < 2 ^ (i - j - 1) * 2 ^ (j + 1) := by gcongr
      _ = 2 ^ i := by rw [← zpow_add₀ (by norm_num)]; congr 1; ring
      _ ≤ n := hn₁
  have hhigh : (n / d : ℚ) < 2 ^ (i - j + 1) := by
    rw [div_lt_iff₀ hd']
    calc (n : ℚ) < 2 ^ (i + 1) := hn₂
      _ = 2 ^ (i - j + 1) * 2 ^ j := by rw [← zpow_add₀ (by norm_num)]; congr 1; ring
      _ ≤ 2 ^ (i - j + 1) * d := by gcongr
  have hsize : n * Nat.pow 2 (-(i - j)).toNat < d * Nat.pow 2 (i - j).toNat ↔
      (n / d : ℚ) < 2 ^ (i - j) := by
    rw [zpow_eq_div, div_lt_div_iff₀ hd' (by positivity), mul_comm (2 ^ _) (d : ℚ)]
    exact_mod_cast Iff.rfl
  dsimp only
  by_cases hbelow : (n / d : ℚ) < 2 ^ (i - j)
  · rw [if_pos (hsize.mpr hbelow)]
    refine .of_kept ?_ ?_
    · rwa [show i - j - 53 + 53 = i - j by ring]
    · rw [show i - j - 53 + 52 = i - j - 1 by ring]
      exact hlow.le
  · rw [if_neg fun h => hbelow (hsize.mp h)]
    refine .of_kept ?_ ?_
    · rwa [show i - j - 52 + 53 = i - j + 1 by ring]
    · rw [show i - j - 52 + 52 = i - j by ring]
      exact not_lt.mp hbelow

theorem nearestBits_eq {n d c : Nat} {p : ℤ} (hd : 0 < d) (hc : 0 < c) (hp : LastPlace (n / d) p)
    (h : RoundsTo (n / d / 2 ^ p) c) : nearestBits n d = (p + 1074).toNat * 2 ^ 52 + c := by
  have hn : n ≠ 0 := by
    rintro rfl
    have hc' : (1 : ℚ) ≤ c := by exact_mod_cast hc
    have hlow := h.low
    norm_num at hlow
    linarith
  have hquotient : (n / d / 2 ^ p : ℚ) =
      (n * Nat.pow 2 (-p).toNat : Nat) / (d * Nat.pow 2 p.toNat : Nat) := by
    rw [zpow_eq_div, Nat.cast_mul, Nat.cast_mul, cast_natPow, cast_natPow, Nat.cast_ofNat,
      div_div_div_eq]
  rw [hquotient] at h
  unfold nearestBits
  dsimp only
  have hd' : 0 < d * Nat.pow 2 p.toNat := Nat.mul_pos hd (Nat.two_pow_pos _)
  rw [(lastPlace_spec hn hd.ne').unique hp, roundDiv_eq hd' h]
  rfl

/-- Just below a power of two the numbers are finer, and a quotient near to it rounds up to it. -/
theorem nearestBits_carry {n d : Nat} {q : ℤ} (hd : 0 < d) (hq : -1074 < q)
    (hlow : (2 : ℚ) ^ 52 - 1 / 4 ≤ n / d / 2 ^ q) (hhigh : (n / d / 2 ^ q : ℚ) < 2 ^ 52) :
    nearestBits n d = (q + 1074).toNat * 2 ^ 52 + 2 ^ 52 := by
  have hpos : (0 : ℚ) < 2 ^ q := by positivity
  have hunits : (n / d : ℚ) = n / d / 2 ^ q * 2 ^ q := (div_mul_cancel₀ _ hpos.ne').symm
  have hhalf : (2 : ℚ) ^ q = 2 * 2 ^ (q - 1) := by
    rw [zpow_sub₀ (by norm_num)]
    ring
  have hdouble : (n / d / 2 ^ (q - 1) : ℚ) = 2 * (n / d / 2 ^ q) := by
    rw [hhalf]
    field_simp
  have hplace : LastPlace (n / d) (q - 1) := by
    refine ⟨?_, by omega, Or.inr ?_⟩
    · rw [show q - 1 + 53 = q + 52 by ring, zpow_add₀ (by norm_num), hunits, mul_comm]
      gcongr
      exact_mod_cast hhigh
    · rw [show q - 1 + 52 = q + 51 by ring, zpow_add₀ (by norm_num), hunits, mul_comm]
      gcongr
      norm_num at hlow ⊢
      linarith
  have htop : RoundsTo (n / d / 2 ^ (q - 1)) (2 ^ 53) := by
    rw [hdouble]
    refine ⟨?_, ?_, fun hodd => by norm_num at hodd⟩
    · push_cast
      norm_num at hlow ⊢
      linarith
    · push_cast
      norm_num at hhigh ⊢
      linarith
  rw [nearestBits_eq hd (by norm_num) hplace htop]
  have hsucc : (q + 1074).toNat = (q - 1 + 1074).toNat + 1 := by omega
  rw [hsucc]
  ring

/-! ## Windows -/

structure Stored (m : Nat) (q : ℤ) : Prop where
  pos : 0 < m
  lt : m < 2 ^ 53
  le : -1074 ≤ q
  full : 2 ^ 52 ≤ m ∨ q = -1074

namespace Window

def Holds (w : Window) (v : ℚ) : Prop :=
  if w.closed then (w.low : ℚ) * 2 ^ w.scale ≤ v ∧ v ≤ w.high * 2 ^ w.scale
  else (w.low : ℚ) * 2 ^ w.scale < v ∧ v < w.high * 2 ^ w.scale

def ofStored (m : Nat) (q : ℤ) : Window := ofBinary m q (m == 2 ^ 52 && q != -1074)

variable {m : Nat} {q : ℤ} {v : ℚ}

/-- In units of the last place, what lies in the window rounds to `m`, and is nearer where the
window is narrow. -/
theorem Holds.roundsTo (hs : Stored m q) (h : (ofStored m q).Holds v) : RoundsTo (v / 2 ^ q) m ∧
    (m = 2 ^ 52 → q ≠ -1074 → (m : ℚ) - 1 / 4 ≤ v / 2 ^ q) := by
  have hpos : (0 : ℚ) < 2 ^ q := by positivity
  have hunit : (2 : ℚ) ^ (q - 2) = 2 ^ q / 4 := by
    rw [zpow_sub₀ (by norm_num)]
    norm_num
  have hm := hs.pos
  have hlow : (4 * m - 2 : ℚ) ≤ (ofStored m q).low := by
    have hnat : 4 * m ≤ (ofStored m q).low + 2 := by
      unfold ofStored ofBinary
      dsimp only
      split <;> omega
    have hcast : (4 * m : ℚ) ≤ (ofStored m q).low + 2 := by exact_mod_cast hnat
    linarith
  have hnarrow : m = 2 ^ 52 → q ≠ -1074 → (4 * m - 1 : ℚ) ≤ (ofStored m q).low := by
    intro hpow hq
    have hnat : 4 * m ≤ (ofStored m q).low + 1 := by
      simp only [ofStored, ofBinary, hpow, beq_self_eq_true, Bool.true_and, bne_iff_ne, hq, ne_eq,
        not_false_eq_true, if_true]
      omega
    have hcast : (4 * m : ℚ) ≤ (ofStored m q).low + 1 := by exact_mod_cast hnat
    linarith
  have hhigh : ((ofStored m q).high : ℚ) = 4 * m + 2 := by simp [ofStored, ofBinary]
  have hclosed : (ofStored m q).closed = true ↔ m % 2 = 0 := by simp [ofStored, ofBinary]
  have hscale : (ofStored m q).scale = q - 2 := rfl
  unfold Holds at h
  rw [hscale, hunit, hhigh] at h
  generalize ((ofStored m q).low : ℚ) = low at *
  generalize (2 : ℚ) ^ q = u at *
  have hends : low * (u / 4) ≤ v ∧ v ≤ (4 * m + 2) * (u / 4) := by
    split at h
    · exact h
    · exact ⟨h.1.le, h.2.le⟩
  have hscaled : (4 * m - 2) * (u / 4) ≤ low * (u / 4) := by gcongr
  refine ⟨⟨?_, ?_, fun hodd => ?_⟩, fun hpow hq => ?_⟩
  · rw [le_div_iff₀ hpos]
    linarith
  · rw [div_le_iff₀ hpos]
    linarith
  · rw [if_neg fun heven => by have := hclosed.mp heven; omega] at h
    rw [lt_div_iff₀ hpos, div_lt_iff₀ hpos]
    constructor <;> linarith
  · have hquarter : (4 * m - 1) * (u / 4) ≤ low * (u / 4) := by
      have := hnarrow hpow hq
      gcongr
    rw [le_div_iff₀ hpos]
    linarith

/-- Whatever lies in the window of a number is brought to that number. -/
theorem nearestBits_of_holds {n d : Nat} (hs : Stored m q) (hd : 0 < d)
    (h : (ofStored m q).Holds (n / d)) :
    nearestBits n d = (q + 1074).toNat * 2 ^ 52 + m := by
  obtain ⟨hrounds, hnarrow⟩ := h.roundsTo hs
  have hpos : (0 : ℚ) < 2 ^ q := by positivity
  have hle := hs.le
  have hunits : (n / d : ℚ) = n / d / 2 ^ q * 2 ^ q := (div_mul_cancel₀ _ hpos.ne').symm
  have hm : (m : ℚ) + 1 ≤ 2 ^ 53 := by exact_mod_cast hs.lt
  have hlt : (n / d : ℚ) < 2 ^ (q + 53) := by
    rw [hunits, zpow_add₀ (by norm_num), mul_comm]
    have hhigh := hrounds.high
    gcongr
    norm_num at hm ⊢
    linarith
  by_cases hfull : q = -1074 ∨ (2 : ℚ) ^ (q + 52) ≤ n / d
  · exact nearestBits_eq hd hs.pos ⟨hlt, hle, hfull⟩ hrounds
  · -- fewer digits stand in front than the number has, so it is the least that has them
    obtain ⟨hq, hbelow⟩ := not_or.mp hfull
    have hbelow : (n / d / 2 ^ q : ℚ) < 2 ^ 52 := by
      rw [zpow_add₀ (by norm_num), not_le] at hbelow
      rw [div_lt_iff₀ hpos, mul_comm]
      exact_mod_cast hbelow
    have hpow : m = 2 ^ 52 := by
      refine le_antisymm ?_ (hs.full.resolve_right hq)
      have hlow := hrounds.low
      have hcast : (m : ℚ) < 2 ^ 52 + 1 := by linarith
      exact Nat.lt_succ_iff.mp (by exact_mod_cast hcast)
    have hquarter := hnarrow hpow hq
    rw [hpow] at hquarter ⊢
    exact nearestBits_carry hd (by omega) (by exact_mod_cast hquarter) hbelow

/-! The place of the first decimal digit is between -400 and 400. -/

theorem Holds.lt_ten_zpow (hs : Stored m q) (hq : q ≤ 971) (h : (ofStored m q).Holds v) :
    v < 10 ^ (400 : ℤ) := by
  have hpos : (0 : ℚ) < 2 ^ q := by positivity
  have hm : (m : ℚ) + 1 ≤ 2 ^ 53 := by exact_mod_cast hs.lt
  have hhigh := (div_le_iff₀ hpos).mp (h.roundsTo hs).1.high
  calc v ≤ (m + 1 / 2) * 2 ^ q := hhigh
    _ ≤ 2 ^ (53 : ℤ) * 2 ^ (971 : ℤ) := by
      have hsum : (m + 1 / 2 : ℚ) ≤ 2 ^ (53 : ℤ) := by
        norm_num at hm ⊢
        linarith
      have hpow : (2 : ℚ) ^ q ≤ 2 ^ (971 : ℤ) := zpow_le_zpow_right₀ (by norm_num) hq
      gcongr
    _ = 2 ^ (1024 : ℤ) := by rw [← zpow_add₀ (by norm_num)]; rfl
    _ ≤ 2 ^ (3 * 342 : ℤ) := zpow_le_zpow_right₀ (by norm_num) (by norm_num)
    _ ≤ 10 ^ (342 : ℤ) := two_zpow_le_ten_zpow 342
    _ < 10 ^ (400 : ℤ) := zpow_lt_zpow_right₀ (by norm_num) (by norm_num)

theorem Holds.ten_zpow_lt (hs : Stored m q) (h : (ofStored m q).Holds v) :
    10 ^ (-400 : ℤ) < v := by
  have hpos : (0 : ℚ) < 2 ^ q := by positivity
  have hm : (1 : ℚ) ≤ m := by exact_mod_cast hs.pos
  have hlow := (le_div_iff₀ hpos).mp (h.roundsTo hs).1.low
  calc (10 : ℚ) ^ (-400 : ℤ) < 10 ^ (-359 : ℤ) := zpow_lt_zpow_right₀ (by norm_num) (by norm_num)
    _ ≤ 2 ^ (-(3 * 359) : ℤ) := by
      rw [zpow_neg, zpow_neg]
      gcongr
      exact two_zpow_le_ten_zpow 359
    _ ≤ 2 ^ (-1 + -1074 : ℤ) := zpow_le_zpow_right₀ (by norm_num) (by norm_num)
    _ = 1 / 2 * 2 ^ (-1074 : ℤ) := by rw [zpow_add₀ (by norm_num)]; norm_num
    _ ≤ (m - 1 / 2) * 2 ^ q := by
      have hhalf : (1 / 2 : ℚ) ≤ m - 1 / 2 := by linarith
      have hpow : (2 : ℚ) ^ (-1074 : ℤ) ≤ 2 ^ q := zpow_le_zpow_right₀ (by norm_num) hs.le
      gcongr
    _ ≤ v := hlow

theorem Holds.pos (hs : Stored m q) (h : (ofStored m q).Holds v) : 0 < v :=
  lt_trans (by positivity) (h.ten_zpow_lt hs)

end Window

/-! ## Decimals -/

theorem Numeral.digitsOf_bounds {n : Nat} (hn : n ≠ 0) :
    10 ^ ((digitsOf n).length - 1) ≤ n ∧ n < 10 ^ (digitsOf n).length := by
  have hpos : 0 < (digitsOf n).length := Nat.length_toDigits_pos
  refine ⟨?_, (Nat.length_toDigits_le_iff (by norm_num) hpos).mp (le_refl _)⟩
  by_cases hone : (digitsOf n).length = 1
  · rw [hone]
    exact Nat.pos_of_ne_zero hn
  · have hlonger : ¬ (digitsOf n).length ≤ (digitsOf n).length - 1 := by omega
    exact not_lt.mp fun hlt =>
      hlonger ((Nat.length_toDigits_le_iff (by norm_num) (by omega)).mpr hlt)

namespace Decimal

def value (d : Decimal) : ℚ := d.digits * 10 ^ d.exponent

theorem value_eq_div (d : Decimal) : d.value =
    (d.digits * Nat.pow 10 d.exponent.toNat : Nat) / (Nat.pow 10 (-d.exponent).toNat : Nat) := by
  rw [value, zpow_eq_div, Nat.cast_mul, cast_natPow, cast_natPow, Nat.cast_ofNat, mul_div_assoc]

theorem digits_ne_zero {d : Decimal} (hd : 0 < d.value) : d.digits ≠ 0 := by
  intro hzero
  simp [value, hzero] at hd

/-- The place of the first digit says how large the value is. -/
theorem value_bounds {d : Decimal} (hd : d.digits ≠ 0) :
    let point := d.exponent + (Numeral.digitsOf d.digits).length
    (10 : ℚ) ^ (point - 1) ≤ d.value ∧ d.value < 10 ^ point := by
  intro point
  obtain ⟨hlow, hhigh⟩ := Numeral.digitsOf_bounds hd
  have hpos : 0 < (Numeral.digitsOf d.digits).length := Nat.length_toDigits_pos
  unfold value
  constructor
  · have hcast : (10 : ℚ) ^ (((Numeral.digitsOf d.digits).length - 1 : Nat) : ℤ) ≤ d.digits := by
      exact_mod_cast hlow
    rw [show point - 1 = ((Numeral.digitsOf d.digits).length - 1 : Nat) + d.exponent by omega,
      zpow_add₀ (by norm_num)]
    gcongr
  · have hcast : (d.digits : ℚ) < 10 ^ ((Numeral.digitsOf d.digits).length : ℤ) := by
      exact_mod_cast hhigh
    rw [show point = (Numeral.digitsOf d.digits).length + d.exponent by omega,
      zpow_add₀ (by norm_num)]
    gcongr

/-- A decimal in the window of a number is read as that number. -/
theorem toFloat?_of_holds {d : Decimal} {m : Nat} {q : ℤ} (hs : Stored m q) (hq : q ≤ 971)
    (h : (Window.ofStored m q).Holds d.value) : d.toFloat? =
      some (Float.ofBits (UInt64.ofNat ((q + 1074).toNat * 2 ^ 52 + m))) := by
  have hdigits : d.digits ≠ 0 := digits_ne_zero (h.pos hs)
  obtain ⟨hlow, hhigh⟩ := value_bounds hdigits
  have hpoint₁ := (zpow_lt_zpow_iff_right₀ (by norm_num)).mp (hlow.trans_lt (h.lt_ten_zpow hs hq))
  have hpoint₂ := (zpow_lt_zpow_iff_right₀ (by norm_num)).mp ((h.ten_zpow_lt hs).trans hhigh)
  rw [value_eq_div] at h
  have hden : 0 < Nat.pow 10 (-d.exponent).toNat := Nat.pow_pos (by norm_num)
  have hbits := Window.nearestBits_of_holds hs hden h
  have hfinite : (q + 1074).toNat * 2 ^ 52 + m < infinityBits := by
    have hlt := hs.lt
    have hexponent : (q + 1074).toNat ≤ 2045 := by omega
    have hinfinity : infinityBits = 2047 * 2 ^ 52 := rfl
    omega
  unfold toFloat?
  dsimp only
  rw [hbits, if_neg (by simp [hdigits]; omega), if_neg (by omega), if_pos hfinite]

end Decimal

end Patchbay
