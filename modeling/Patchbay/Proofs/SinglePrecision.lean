import Patchbay.Proofs.NumeralSound
import Patchbay.Sample.Single

/-!
# Rounding to single precision

A double is rounded to the single nearest to it, and of two that are as near to the even one. Both
formats count their numbers upwards: the next number has the next bits, and lies one unit of the
last place above.
-/

namespace Patchbay

/-- The number with these bits, in a format with so many binary digits after the first and with
`2 ^ least` as the last place of all. Infinity counts as the number after the largest. -/
def magnitude (digits : Nat) (least : ℤ) (n : Nat) : ℚ :=
  if n / 2 ^ digits = 0 then n * 2 ^ least
  else (n % 2 ^ digits + 2 ^ digits : Nat) * 2 ^ (least + (n / 2 ^ digits : Nat) - 1)

/-- No bits up to the topmost have a number nearer to `v`, and where others are as near these are
the even ones. -/
structure Nearest (digits : Nat) (least : ℤ) (top : Nat) (v : ℚ) (n : Nat) : Prop where
  le : n ≤ top
  nearest : ∀ k ≤ top, |v - magnitude digits least n| ≤ |v - magnitude digits least k|
  even : ∀ k ≤ top, k ≠ n → |v - magnitude digits least n| = |v - magnitude digits least k| →
    n % 2 = 0

/-! ## Numbers in order -/

section
variable {digits : Nat} {least : ℤ}

/-- The number with `c` units of the last place `2 ^ (least + e)`. -/
theorem magnitude_place {e c : Nat} (hc : c ≤ 2 * 2 ^ digits) (he : 2 ^ digits ≤ c ∨ e = 0) :
    magnitude digits least (e * 2 ^ digits + c) = c * 2 ^ (least + e) := by
  have hpos : 0 < 2 ^ digits := Nat.two_pow_pos digits
  unfold magnitude
  generalize 2 ^ digits = d at *
  rcases Nat.lt_or_ge c d with hsmall | hlarge
  · obtain rfl : e = 0 := he.resolve_left (Nat.not_le.mpr hsmall)
    have hnone : (0 * d + c) / d = 0 := by
      rw [Nat.zero_mul, Nat.zero_add]
      exact Nat.div_eq_of_lt hsmall
    rw [if_pos hnone]
    simp
  · rcases hc.lt_or_eq with hlt | rfl
    · have hsum : e * d + c = (c - d) + d * (e + 1) := by
        rw [Nat.mul_succ, Nat.mul_comm]
        omega
      have hquotient : (e * d + c) / d = e + 1 := by
        rw [hsum, Nat.add_mul_div_left _ _ hpos, Nat.div_eq_of_lt (by omega), Nat.zero_add]
      have hrest : (e * d + c) % d = c - d := by
        rw [hsum, Nat.add_mul_mod_self_left, Nat.mod_eq_of_lt (by omega)]
      rw [hquotient, hrest, if_neg (by omega), Nat.sub_add_cancel hlarge]
      congr 2
      push_cast
      ring
    · have hquotient : (e * d + 2 * d) / d = e + 2 := by
        rw [← Nat.add_mul, Nat.mul_div_cancel _ hpos]
      have hrest : (e * d + 2 * d) % d = 0 := by
        rw [← Nat.add_mul, Nat.mul_mod_left]
      rw [hquotient, hrest, if_neg (by omega), Nat.zero_add,
        show least + ((e + 2 : Nat) : ℤ) - 1 = least + e + 1 by push_cast; ring,
        zpow_add_one₀ (by norm_num)]
      push_cast
      ring

theorem exists_place (digits n : Nat) : ∃ e c, n = e * 2 ^ digits + c ∧ c < 2 * 2 ^ digits ∧
    (2 ^ digits ≤ c ∨ e = 0) := by
  have hpos : 0 < 2 ^ digits := Nat.two_pow_pos digits
  generalize 2 ^ digits = d at *
  have hsum := Nat.div_add_mod' n d
  have hrest := Nat.mod_lt n hpos
  by_cases hsmall : n / d = 0
  · exact ⟨0, n, by omega, by rw [hsmall] at hsum; omega, Or.inr rfl⟩
  · refine ⟨n / d - 1, n % d + d, ?_, by omega, Or.inl (by omega)⟩
    have hmul : (n / d - 1) * d + d = n / d * d := by
      rw [← Nat.succ_mul, Nat.succ_eq_add_one,
        Nat.sub_add_cancel (Nat.one_le_iff_ne_zero.mpr hsmall)]
    omega

variable (digits least) in
theorem magnitude_strictMono : StrictMono (magnitude digits least) := by
  refine strictMono_nat_of_lt_succ fun n => ?_
  obtain ⟨e, c, rfl, hc, he⟩ := exists_place digits n
  rw [Nat.add_assoc, magnitude_place hc.le he,
    magnitude_place (by omega) (he.imp_left fun h => by omega)]
  gcongr
  simp

/-! ## The nearest number -/

structure RoundedAt (digits : Nat) (least : ℤ) (v : ℚ) (e c : Nat) : Prop where
  lt : v < 2 * 2 ^ digits * 2 ^ (least + e)
  full : 2 ^ digits * 2 ^ (least + e) ≤ v ∨ e = 0
  rounds : RoundsTo (v / 2 ^ (least + e)) c

namespace RoundedAt

variable {v : ℚ} {e c : Nat} (h : RoundedAt digits least v e c)
include h

theorem low : (c - 1 / 2) * 2 ^ (least + e) ≤ v := (le_div_iff₀ (by positivity)).mp h.rounds.low

theorem high : v ≤ (c + 1 / 2) * 2 ^ (least + e) := (div_le_iff₀ (by positivity)).mp h.rounds.high

theorem not_half (hodd : c % 2 = 1) :
    (c - 1 / 2) * 2 ^ (least + e) < v ∧ v < (c + 1 / 2) * 2 ^ (least + e) := by
  obtain ⟨hlow, hhigh⟩ := h.rounds.odd hodd
  exact ⟨(lt_div_iff₀ (by positivity)).mp hlow, (div_lt_iff₀ (by positivity)).mp hhigh⟩

theorem units_le : c ≤ 2 * 2 ^ digits := by
  have hunits : ((c : ℚ) - 1 / 2) * 2 ^ (least + e) < 2 * 2 ^ digits * 2 ^ (least + e) :=
    h.low.trans_lt h.lt
  have hlt : (c : ℚ) - 1 / 2 < 2 * 2 ^ digits := lt_of_mul_lt_mul_right hunits (by positivity)
  have hsucc : (c : ℚ) < (2 * 2 ^ digits + 1 : Nat) := by
    push_cast
    linarith
  exact Nat.lt_succ_iff.mp (by exact_mod_cast hsucc)

theorem le_units : 2 ^ digits ≤ c ∨ e = 0 := by
  refine h.full.imp_left fun hfull => ?_
  have hle : (2 : ℚ) ^ digits ≤ c + 1 / 2 :=
    le_of_mul_le_mul_right (hfull.trans h.high) (by positivity)
  have hsucc : ((2 ^ digits : Nat) : ℚ) < (c + 1 : Nat) := by
    push_cast
    linarith
  exact Nat.lt_succ_iff.mp (by exact_mod_cast hsucc)

theorem magnitude_eq : magnitude digits least (e * 2 ^ digits + c) = c * 2 ^ (least + e) :=
  magnitude_place h.units_le h.le_units

theorem above {k : Nat} (hk : e * 2 ^ digits + c < k) :
    |v - c * 2 ^ (least + e)| ≤ |v - magnitude digits least k| ∧
      (c % 2 = 1 → |v - c * 2 ^ (least + e)| < |v - magnitude digits least k|) := by
  have hlt := magnitude_strictMono digits least hk
  rw [h.magnitude_eq] at hlt
  rcases le_or_gt v ((c : ℚ) * 2 ^ (least + e)) with hv | hv
  · rw [abs_of_nonpos (by linarith), abs_of_nonpos (by linarith)]
    exact ⟨by linarith, fun _ => by linarith⟩
  · -- the next number is one unit above, and `v` is not more than half a unit away
    have hunits : c < 2 * 2 ^ digits := by
      have hlt' : (c : ℚ) < 2 * 2 ^ digits := lt_of_mul_lt_mul_right (hv.trans h.lt) (by positivity)
      exact_mod_cast hlt'
    have hnext : magnitude digits least (e * 2 ^ digits + c + 1) = (c + 1) * 2 ^ (least + e) := by
      rw [Nat.add_assoc, magnitude_place hunits (h.le_units.imp_left fun hle => by omega)]
      push_cast
      rfl
    have hle : magnitude digits least (e * 2 ^ digits + c + 1) ≤ magnitude digits least k :=
      (magnitude_strictMono digits least).monotone hk
    have hhigh := h.high
    rw [hnext] at hle
    rw [abs_of_nonneg (by linarith), abs_of_nonpos (by linarith)]
    exact ⟨by linarith, fun hodd => by linarith [(h.not_half hodd).2]⟩

theorem below (hv : 0 ≤ v) {k : Nat} (hk : k < e * 2 ^ digits + c) :
    |v - c * 2 ^ (least + e)| ≤ |v - magnitude digits least k| ∧
      (c % 2 = 1 → |v - c * 2 ^ (least + e)| < |v - magnitude digits least k|) := by
  have hlt := magnitude_strictMono digits least hk
  rw [h.magnitude_eq] at hlt
  rcases le_or_gt ((c : ℚ) * 2 ^ (least + e)) v with hge | hgt
  · rw [abs_of_nonneg (by linarith), abs_of_nonneg (by linarith)]
    exact ⟨by linarith, fun _ => by linarith⟩
  · obtain ⟨b, rfl⟩ : ∃ b, c = b + 1 := by
      refine Nat.exists_eq_succ_of_ne_zero fun hzero => ?_
      rw [hzero, Nat.cast_zero, zero_mul] at hgt
      exact absurd hv hgt.not_ge
    -- the numbers below are finer only where `v` is not below `c` units
    have hunits : 2 ^ digits ≤ b ∨ e = 0 := by
      refine h.full.imp_left fun hfull => ?_
      have hlt' : (2 : ℚ) ^ digits < (b + 1 : Nat) :=
        lt_of_mul_lt_mul_right (hfull.trans_lt hgt) (by positivity)
      exact Nat.lt_succ_iff.mp (by exact_mod_cast hlt')
    have hlast : magnitude digits least (e * 2 ^ digits + b) = b * 2 ^ (least + e) :=
      magnitude_place (by have := h.units_le; omega) hunits
    have hle : magnitude digits least k ≤ magnitude digits least (e * 2 ^ digits + b) :=
      (magnitude_strictMono digits least).monotone (Nat.lt_succ_iff.mp hk)
    have hlow := h.low
    rw [hlast] at hle
    push_cast at hlow hgt ⊢
    rw [abs_of_nonpos (by linarith), abs_of_nonneg (by linarith)]
    refine ⟨by linarith, fun hodd => ?_⟩
    have hhalf := (h.not_half hodd).1
    push_cast at hhalf
    linarith

theorem even_bits (hdigits : digits ≠ 0) (hc : c % 2 = 0) : (e * 2 ^ digits + c) % 2 = 0 := by
  obtain ⟨j, rfl⟩ := Nat.exists_eq_succ_of_ne_zero hdigits
  rw [Nat.pow_succ, ← Nat.mul_assoc, Nat.add_mod, Nat.mul_mod_left, hc]

/-- What is rounded at a last place comes to the number nearest to it, cut off at an even top. -/
theorem nearest (hdigits : digits ≠ 0) (hv : 0 ≤ v) {top : Nat} (htop : top % 2 = 0) :
    Nearest digits least top v (min (e * 2 ^ digits + c) top) := by
  have hall : ∀ k, |v - magnitude digits least (e * 2 ^ digits + c)| ≤
      |v - magnitude digits least k| ∧ (k ≠ e * 2 ^ digits + c → c % 2 = 1 →
        |v - magnitude digits least (e * 2 ^ digits + c)| < |v - magnitude digits least k|) := by
    intro k
    rw [h.magnitude_eq]
    rcases lt_trichotomy k (e * 2 ^ digits + c) with hk | rfl | hk
    · obtain ⟨hle, hodd⟩ := h.below hv hk
      exact ⟨hle, fun _ => hodd⟩
    · rw [h.magnitude_eq]
      exact ⟨le_refl _, fun hne => absurd rfl hne⟩
    · obtain ⟨hle, hodd⟩ := h.above hk
      exact ⟨hle, fun _ => hodd⟩
  rcases le_or_gt (e * 2 ^ digits + c) top with hn | hn
  · rw [min_eq_left hn]
    refine ⟨hn, fun k _ => (hall k).1, fun k _ hne heq => ?_⟩
    by_contra hbits
    have hodd : c % 2 = 1 := by
      by_contra hc
      exact hbits (h.even_bits hdigits (by omega))
    exact absurd heq ((hall k).2 hne hodd).ne
  · -- `v` is nearer to a number above the top, so it lies above the top itself
    rw [min_eq_right hn.le]
    have habove : magnitude digits least top < v := by
      have hlt := magnitude_strictMono digits least hn
      have hnear := (hall top).1
      by_contra hle
      rw [abs_of_nonpos (by linarith), abs_of_nonpos (by linarith)] at hnear
      linarith
    refine ⟨le_refl _, fun k hk => ?_, fun _ _ _ _ => htop⟩
    have hle : magnitude digits least k ≤ magnitude digits least top :=
      (magnitude_strictMono digits least).monotone hk
    rw [abs_of_nonneg (by linarith), abs_of_nonneg (by linarith)]
    linarith

end RoundedAt

end

theorem roundDiv_roundsTo (n : Nat) {d : Nat} (hd : 0 < d) : RoundsTo (n / d) (roundDiv n d) := by
  have hd' : (0 : ℚ) < d := by exact_mod_cast hd
  have hsum : (n / d : ℚ) = (n / d : Nat) + (n % d : Nat) / d := by
    field_simp
    exact_mod_cast (Nat.div_add_mod n d).symm
  have hone : ((n % d : Nat) : ℚ) / d < 1 := by
    rw [div_lt_one hd']
    exact_mod_cast Nat.mod_lt n hd
  unfold roundDiv
  dsimp only
  rw [hsum]
  generalize n / d = b at *
  generalize n % d = r at *
  have hr : (0 : ℚ) ≤ r / d := by positivity
  rcases lt_trichotomy (2 * r) d with hlt | heq | hgt
  · have hhalf : (r : ℚ) / d < 1 / 2 := by
      rw [div_lt_div_iff₀ hd' (by norm_num), one_mul, mul_comm]
      exact_mod_cast hlt
    rw [if_pos hlt]
    exact ⟨by linarith, by linarith, fun _ => ⟨by linarith, by linarith⟩⟩
  · have hhalf : (r : ℚ) / d = 1 / 2 := by
      rw [div_eq_div_iff hd'.ne' (by norm_num), one_mul, mul_comm]
      exact_mod_cast heq
    have heven : (b + b % 2) % 2 = 0 := by omega
    rw [if_neg (by omega), if_neg (by omega), hhalf]
    refine ⟨?_, ?_, fun hodd => by omega⟩
    · rcases Nat.mod_two_eq_zero_or_one b with hb | hb <;> rw [hb] <;> push_cast <;> linarith
    · rcases Nat.mod_two_eq_zero_or_one b with hb | hb <;> rw [hb] <;> push_cast <;> linarith
  · have hhalf : (1 / 2 : ℚ) < r / d := by
      rw [div_lt_div_iff₀ (by norm_num) hd', one_mul, mul_comm]
      exact_mod_cast hgt
    have hsucc : ((b + 1 : Nat) : ℚ) = b + 1 := Nat.cast_succ b
    rw [if_neg (by omega), if_pos hgt]
    exact ⟨by linarith, by linarith, fun _ => ⟨by linarith, by linarith⟩⟩

/-! ## Doubles -/

def exactSize (x : Float) : ℚ := magnitude 52 (-1074) (Bits.size x)

namespace Window

theorem exact_ofBinary (m : Nat) (q : ℤ) (narrow : Bool) :
    ((ofBinary m q narrow).value : ℚ) * 2 ^ (ofBinary m q narrow).scale = m * 2 ^ q := by
  show ((4 * m : Nat) : ℚ) * 2 ^ (q - 2) = m * 2 ^ q
  rw [zpow_sub₀ (by norm_num)]
  push_cast
  ring

theorem exact_ofBits (bits : UInt64) : ((ofBits bits).value : ℚ) * 2 ^ (ofBits bits).scale =
    magnitude 52 (-1074) (bits.toNat % 2 ^ 63) := by
  have hofBits : ofBits bits =
      let n := bits.toNat % 2 ^ 63
      if n / 2 ^ 52 = 0 then ofBinary (n % 2 ^ 52) (-1074) false
      else ofBinary (n % 2 ^ 52 + 2 ^ 52) ((n / 2 ^ 52 : Nat) - 1075)
        (n % 2 ^ 52 == 0 && n / 2 ^ 52 != 1) := rfl
  rw [hofBits, magnitude]
  generalize bits.toNat % 2 ^ 63 = n
  dsimp only
  by_cases hsmall : n / 2 ^ 52 = 0
  · rw [if_pos hsmall, if_pos hsmall, exact_ofBinary,
      Nat.mod_eq_of_lt (Nat.lt_of_div_eq_zero (by norm_num) hsmall)]
  · rw [if_neg hsmall, if_neg hsmall, exact_ofBinary]
    congr 2
    ring

theorem scale_of_zero {bits : UInt64} (h : (ofBits bits).value = 0) :
    (ofBits bits).scale = -1076 := by
  unfold ofBits at h ⊢
  dsimp only at h ⊢
  split
  · rfl
  · rename_i hnormal
    rw [if_neg hnormal] at h
    have hvalue : 4 * (bits.toNat % 2 ^ 63 % 2 ^ 52 + 2 ^ 52) = 0 := h
    omega

/-- The exponent of a factor stands above or below the line. -/
theorem mul_zpow_eq_div (n : Nat) (k : ℤ) : (n * 2 ^ k : ℚ) =
    (n * Nat.pow 2 k.toNat : Nat) / (Nat.pow 2 (-k).toNat : Nat) := by
  rw [zpow_eq_div, Nat.cast_mul, cast_natPow, cast_natPow, Nat.cast_ofNat, mul_div_assoc]

variable (w : Window)

theorem exact_lt : (w.value : ℚ) * 2 ^ w.scale < 2 ^ ((Nat.log2 w.value : ℤ) + w.scale + 1) := by
  calc (w.value : ℚ) * 2 ^ w.scale
      < 2 ^ ((Nat.log2 w.value : ℤ) + 1) * 2 ^ w.scale := by
        gcongr
        exact_mod_cast Nat.lt_log2_self
    _ = 2 ^ ((Nat.log2 w.value : ℤ) + w.scale + 1) := by
        rw [← zpow_add₀ (by norm_num), add_right_comm]

theorem le_exact (h : w.value ≠ 0) :
    (2 : ℚ) ^ ((Nat.log2 w.value : ℤ) + w.scale) ≤ w.value * 2 ^ w.scale := by
  rw [zpow_add₀ (by norm_num)]
  gcongr
  exact_mod_cast Nat.log2_self_le h

/-- At its last place a single has 24 binary digits, or it is the last place of all. -/
theorem singlePlace_roundedAt (h : w.value ≠ 0 ∨ w.scale ≤ -126) :
    RoundedAt 23 (-149) (w.value * 2 ^ w.scale) (w.singlePlace + 149).toNat
      (roundDiv (w.value * Nat.pow 2 (w.scale - w.singlePlace).toNat)
        (Nat.pow 2 (w.singlePlace - w.scale).toNat)) := by
  have hplace : w.singlePlace = max ((Nat.log2 w.value : ℤ) + w.scale - 23) (-149) := rfl
  have hleast : -149 ≤ w.singlePlace := le_max_right ..
  have hunit : (-149 : ℤ) + ((w.singlePlace + 149).toNat : ℤ) = w.singlePlace := by omega
  generalize w.singlePlace = place at *
  refine ⟨?_, ?_, ?_⟩
  · rw [hunit]
    calc (w.value : ℚ) * 2 ^ w.scale < 2 ^ ((Nat.log2 w.value : ℤ) + w.scale + 1) := w.exact_lt
      _ ≤ 2 ^ (24 + place) := zpow_le_zpow_right₀ (by norm_num) (by omega)
      _ = 2 * 2 ^ 23 * 2 ^ place := by
          rw [zpow_add₀ (by norm_num)]
          norm_num
  · rw [hunit]
    rcases Int.lt_or_le (-149) place with hlt | hle
    · have hvalue : w.value ≠ 0 := by
        rcases h with h | hscale
        · exact h
        · intro hzero
          rw [hzero, Nat.log2_zero] at hplace
          omega
      have hkept : 23 + place = (Nat.log2 w.value : ℤ) + w.scale := by omega
      refine Or.inl ?_
      calc (2 : ℚ) ^ 23 * 2 ^ place = 2 ^ (23 + place) := by
            rw [zpow_add₀ (by norm_num)]
            norm_num
        _ ≤ w.value * 2 ^ w.scale := hkept ▸ w.le_exact hvalue
    · exact Or.inr (by omega)
  · rw [hunit, mul_div_assoc, ← zpow_sub₀ (by norm_num), mul_zpow_eq_div, neg_sub]
    exact roundDiv_roundsTo _ (Nat.two_pow_pos _)

theorem singleBits_nearest (h : w.value ≠ 0 ∨ w.scale ≤ -126) :
    Nearest 23 (-149) singleInfinity (w.value * 2 ^ w.scale) w.singleBits :=
  (w.singlePlace_roundedAt h).nearest (by norm_num) (by positivity) rfl

/-- The whole number is the value rounded, and a half of a positive value goes up. -/
theorem whole_eq_round : (w.whole : ℤ) = round (w.value * 2 ^ w.scale : ℚ) := by
  have hpos : 0 < Nat.pow 2 (-w.scale).toNat := Nat.two_pow_pos _
  unfold whole
  rw [mul_zpow_eq_div, round_eq]
  generalize w.value * Nat.pow 2 w.scale.toNat = n
  generalize Nat.pow 2 (-w.scale).toNat = d at *
  have hd : (d : ℚ) ≠ 0 := by exact_mod_cast hpos.ne'
  have hhalf : (n / d + 1 / 2 : ℚ) = ((2 * n + d : Nat) : ℤ) / (2 * d : Nat) := by
    push_cast
    field_simp
  rw [hhalf, Rat.floor_intCast_div_natCast]
  push_cast
  rfl

end Window

/-! ## Singles -/

open Float.Model (UnpackedFloat)
open Float.Model.UnpackedFloat (unpack unpackExponent unpackMantissa isNaNBits)

theorem not_isNaNBits {b : BitVec 32} (hb : b.toNat % 2 ^ 31 ≤ singleInfinity) :
    ¬ @isNaNBits .binary32 b = true := by
  have hinfinity : singleInfinity = 255 * 2 ^ 23 := rfl
  have hexponent : (@unpackExponent .binary32 b).toNat = b.toNat / 2 ^ 23 % 2 ^ 8 := by
    rw [UnpackedFloat.unpackExponent_def, BitVec.extractLsb'_toNat, Nat.shiftRight_eq_div_pow]
  have hmantissa : (@unpackMantissa .binary32 b).toNat = b.toNat % 2 ^ 23 := by
    rw [UnpackedFloat.unpackMantissa_def, BitVec.extractLsb'_toNat, Nat.shiftRight_zero]
  unfold isNaNBits
  rw [decide_eq_true_eq, ← BitVec.toNat_inj, ne_eq, ← BitVec.toNat_inj, hexponent, hmantissa]
  rintro ⟨hones, hrest⟩
  have hones : b.toNat / 2 ^ 23 % 2 ^ 8 = 255 := hones
  exact hrest (by rw [BitVec.toNat_zero]; omega)

theorem single_toBits_ofBits {a : UInt32} (ha : a.toNat % 2 ^ 31 ≤ singleInfinity) :
    (Float32.ofBits a).toBits = a := by
  rw [← UInt32.toBitVec_inj]
  calc (Float32.ofBits a).toBits.toBitVec
      = UnpackedFloat.pack .binary32 (unpack .binary32 a.toBitVec) := rfl
    _ = if @isNaNBits .binary32 a.toBitVec = true then UnpackedFloat.packedNaN .binary32
        else a.toBitVec := UnpackedFloat.pack_unpack _
    _ = a.toBitVec := if_neg (not_isNaNBits ha)

/-- `y` is `x` in single precision: the sign is kept and the size is the nearest. What is no number
stays none. -/
structure IsSingle (x : Float) (y : Float32) : Prop where
  sign : Sample.isNumber x = true → y.toBits.toNat / 2 ^ 31 = x.toBits.toNat / 2 ^ 63
  size : Sample.isNumber x = true →
    Nearest 23 (-149) singleInfinity (exactSize x) (y.toBits.toNat % 2 ^ 31)
  none : Sample.isNumber x = false → y.isNaN = true

theorem singleBits_ofBits_nearest (x : Float) :
    Nearest 23 (-149) singleInfinity (exactSize x) (Window.ofBits x.toBits).singleBits := by
  rw [exactSize, Bits.size, ← Window.exact_ofBits]
  refine (Window.ofBits x.toBits).singleBits_nearest ?_
  by_cases hzero : (Window.ofBits x.toBits).value = 0
  · exact Or.inr (by rw [Window.scale_of_zero hzero]; norm_num)
  · exact Or.inl hzero

theorem toBits_single {x : Float} (hx : Sample.isNumber x = true) : (single x).toBits.toNat =
    x.toBits.toNat / 2 ^ 63 * 2 ^ 31 + (Window.ofBits x.toBits).singleBits := by
  have hinfinity : singleInfinity = 255 * 2 ^ 23 := rfl
  have hlt := x.toBits.toNat_lt
  have htop := (singleBits_ofBits_nearest x).le
  have hsingle : single x = .ofBits (.ofNat (x.toBits.toNat / 2 ^ 63 * 2 ^ 31 +
      (Window.ofBits x.toBits).singleBits)) := if_pos hx
  rw [hsingle]
  generalize hn : x.toBits.toNat / 2 ^ 63 * 2 ^ 31 + (Window.ofBits x.toBits).singleBits = n
  have hsame : (UInt32.ofNat n).toNat = n := by
    rw [UInt32.toNat_ofNat']
    omega
  rw [single_toBits_ofBits (by omega), hsame]

theorem isSingle_single (x : Float) : IsSingle x (single x) := by
  by_cases hx : Sample.isNumber x = true
  · have hinfinity : singleInfinity = 255 * 2 ^ 23 := rfl
    have hnearest := singleBits_ofBits_nearest x
    have htop := hnearest.le
    have hbits := toBits_single hx
    have hsize : (single x).toBits.toNat % 2 ^ 31 = (Window.ofBits x.toBits).singleBits := by omega
    refine ⟨fun _ => by omega, fun _ => hsize ▸ hnearest, fun hnone => ?_⟩
    cases hx.symm.trans hnone
  · refine ⟨fun h => absurd h hx, fun h => absurd h hx, fun _ => ?_⟩
    rw [single, if_neg hx]
    decide

end Patchbay
