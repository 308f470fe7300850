import Patchbay.Proofs.NearestSound

/-!
# Shortest decimals read back

The search for the shortest decimal of a number goes through finer and finer grids. On one of them
the steps are shorter than half the window, so it ends with a decimal in the window, and that is
read as the number.
-/

namespace Patchbay

/-! ## Binary and decimal places -/

/-- Ten to the `k` is not much more than two to the `e` where `k` is about `e * log10 2`. -/
theorem ten_zpow_le {k e : ℤ} (hk : 100000 * k ≤ 30103 * e) (hlow : -1100 ≤ e) (hhigh : e ≤ 1100) :
    (10 : ℚ) ^ k ≤ 2 ^ (e + 9) := by
  obtain ⟨n, rfl | rfl⟩ := k.eq_nat_or_neg
  · have hcube : ((10 : ℚ) ^ (n : ℤ)) ^ 3 ≤ (2 ^ (e + 9)) ^ 3 := by
      calc ((10 : ℚ) ^ (n : ℤ)) ^ 3 = (10 ^ 3) ^ n := by rw [zpow_natCast, pow_right_comm]
        _ ≤ (2 ^ 10) ^ n := by
            gcongr
            norm_num
        _ = 2 ^ (10 * n : ℤ) := by rw [← pow_mul, ← zpow_natCast]; rfl
        _ ≤ 2 ^ ((e + 9) * 3) := zpow_le_zpow_right₀ (by norm_num) (by omega)
        _ = (2 ^ (e + 9)) ^ 3 := by rw [zpow_mul]; rfl
    exact (pow_le_pow_iff_left₀ (by positivity) (by positivity) (by norm_num)).mp hcube
  · have hpower : ((10 : ℚ) ^ (-n : ℤ)) ^ 28 ≤ (2 ^ (e + 9)) ^ 28 := by
      calc ((10 : ℚ) ^ (-n : ℤ)) ^ 28 = ((10 ^ 28) ^ n)⁻¹ := by
            rw [zpow_neg, zpow_natCast, inv_pow, pow_right_comm]
        _ ≤ ((2 ^ 93) ^ n)⁻¹ := by
            gcongr
            norm_num
        _ = 2 ^ (-(93 * n) : ℤ) := by rw [← pow_mul, zpow_neg, ← zpow_natCast]; rfl
        _ ≤ 2 ^ ((e + 9) * 28) := zpow_le_zpow_right₀ (by norm_num) (by omega)
        _ = (2 ^ (e + 9)) ^ 28 := by rw [zpow_mul]; rfl
    exact (pow_le_pow_iff_left₀ (by positivity) (by positivity) (by norm_num)).mp hpower

namespace Window

/-! ## Decimals on a grid -/

def fits (w : Window) (i : ℤ) (c : Nat) : Bool :=
  let x := Nat.pow 2 w.scale.toNat * Nat.pow 10 (-i).toNat
  let y := Nat.pow 2 (-w.scale).toNat * Nat.pow 10 i.toNat
  if w.closed then w.low * x ≤ c * y && c * y ≤ w.high * x
  else w.low * x < c * y && c * y < w.high * x

section
variable (a c : Nat) (s i : ℤ)

/-! Over one denominator, the two sides of a comparison are the products that are compared. -/

theorem binary_eq : (a : ℚ) * 2 ^ s = (a * (Nat.pow 2 s.toNat * Nat.pow 10 (-i).toNat) : Nat) /
    (2 ^ (-s).toNat * 10 ^ (-i).toNat) := by
  rw [zpow_eq_div 2 s, Nat.cast_mul, Nat.cast_mul, cast_natPow, cast_natPow, Nat.cast_ofNat,
    Nat.cast_ofNat]
  field_simp

theorem decimal_eq : (c : ℚ) * 10 ^ i = (c * (Nat.pow 2 (-s).toNat * Nat.pow 10 i.toNat) : Nat) /
    (2 ^ (-s).toNat * 10 ^ (-i).toNat) := by
  rw [zpow_eq_div 10 i, Nat.cast_mul, Nat.cast_mul, cast_natPow, cast_natPow, Nat.cast_ofNat,
    Nat.cast_ofNat]
  field_simp

theorem le_grid : a * (Nat.pow 2 s.toNat * Nat.pow 10 (-i).toNat) ≤
    c * (Nat.pow 2 (-s).toNat * Nat.pow 10 i.toNat) ↔ (a : ℚ) * 2 ^ s ≤ c * 10 ^ i := by
  rw [binary_eq a s i, decimal_eq c s i, div_le_div_iff_of_pos_right (by positivity), Nat.cast_le]

theorem grid_le : c * (Nat.pow 2 (-s).toNat * Nat.pow 10 i.toNat) ≤
    a * (Nat.pow 2 s.toNat * Nat.pow 10 (-i).toNat) ↔ (c : ℚ) * 10 ^ i ≤ a * 2 ^ s := by
  rw [binary_eq a s i, decimal_eq c s i, div_le_div_iff_of_pos_right (by positivity), Nat.cast_le]

theorem lt_grid : a * (Nat.pow 2 s.toNat * Nat.pow 10 (-i).toNat) <
    c * (Nat.pow 2 (-s).toNat * Nat.pow 10 i.toNat) ↔ (a : ℚ) * 2 ^ s < c * 10 ^ i := by
  rw [← not_le, grid_le, not_le]

theorem grid_lt : c * (Nat.pow 2 (-s).toNat * Nat.pow 10 i.toNat) <
    a * (Nat.pow 2 s.toNat * Nat.pow 10 (-i).toNat) ↔ (c : ℚ) * 10 ^ i < a * 2 ^ s := by
  rw [← not_le, le_grid, not_le]

end

theorem fits_iff {w : Window} {i : ℤ} {c : Nat} :
    w.fits i c = true ↔ w.Holds (c * 10 ^ i) := by
  unfold fits Holds
  cases w.closed with
  | true => simp only [if_true, Bool.and_eq_true, decide_eq_true_eq, le_grid, grid_le]
  | false =>
    simp only [Bool.false_eq_true, if_false, Bool.and_eq_true, decide_eq_true_eq, lt_grid, grid_lt]

def floor (w : Window) (i : ℤ) : Nat :=
  w.value * (Nat.pow 2 w.scale.toNat * Nat.pow 10 (-i).toNat) /
    (Nat.pow 2 (-w.scale).toNat * Nat.pow 10 i.toNat)

/-- A decimal that is found on a grid lies in the window; if none is, neither does the one above the
value. -/
theorem onGrid_spec (w : Window) (tie : Tie) (i : ℤ) :
    (∃ c, w.onGrid tie i = some c ∧ w.fits i c = true) ∨
      w.onGrid tie i = none ∧ w.fits i (w.floor i + 1) = false := by
  unfold onGrid
  dsimp only
  split
  · rename_i hbelow habove
    exact Or.inr ⟨rfl, habove⟩
  · rename_i hbelow habove
    exact Or.inl ⟨_, rfl, hbelow⟩
  · rename_i hbelow habove
    exact Or.inl ⟨_, rfl, habove⟩
  · rename_i hbelow habove
    left
    split
    · exact ⟨_, rfl, hbelow⟩
    · split
      · exact ⟨_, rfl, habove⟩
      · cases tie with
        | up => exact ⟨_, rfl, habove⟩
        | even =>
          refine ⟨_, rfl, ?_⟩
          split
          · exact hbelow
          · exact habove

/-- The search succeeds if it comes to a grid on which the decimal above the value fits. -/
theorem search_holds {w : Window} {tie : Tie} : ∀ {room : Nat} {i : ℤ},
    (∃ j < room, w.fits (i - j) (w.floor (i - j) + 1) = true) → w.Holds (w.search tie room i).value
  | 0, i, ⟨j, hj, _⟩ => absurd hj (Nat.not_lt_zero j)
  | room + 1, i, ⟨j, hj, hfits⟩ => by
    obtain ⟨c, hfound, hc⟩ | ⟨hnone, habove⟩ := w.onGrid_spec tie i
    · simp only [search, hfound]
      exact fits_iff.mp hc
    · simp only [search, hnone]
      cases j with
      | zero =>
        rw [Nat.cast_zero, Int.sub_zero, habove] at hfits
        cases hfits
      | succ j =>
        refine search_holds ⟨j, Nat.lt_of_succ_lt_succ hj, ?_⟩
        rwa [show i - 1 - (j : ℤ) = i - ((j + 1 : Nat) : ℤ) by push_cast; ring]

/-- Where a step of the grid is shorter than two units, the decimal above the value fits. -/
theorem fits_above {w : Window} (hlow : w.low ≤ w.value) (hhigh : w.high = w.value + 2) {i : ℤ}
    (hi : (10 : ℚ) ^ i < 2 * 2 ^ w.scale) : w.fits i (w.floor i + 1) = true := by
  have hstep : 0 < Nat.pow 2 (-w.scale).toNat * Nat.pow 10 i.toNat :=
    Nat.mul_pos (Nat.pow_pos (by norm_num)) (Nat.pow_pos (by norm_num))
  have hbelow : (w.floor i : ℚ) * 10 ^ i ≤ w.value * 2 ^ w.scale :=
    (grid_le ..).mp (Nat.div_mul_le_self ..)
  have habove : (w.value : ℚ) * 2 ^ w.scale < (w.floor i + 1 : Nat) * 10 ^ i :=
    (lt_grid ..).mp (Nat.lt_mul_of_div_lt (Nat.lt_succ_self _) hstep)
  have hunder : (w.low : ℚ) * 2 ^ w.scale < (w.floor i + 1 : Nat) * 10 ^ i := by
    have hcast : (w.low : ℚ) ≤ w.value := by exact_mod_cast hlow
    refine lt_of_le_of_lt ?_ habove
    gcongr
  have hover : ((w.floor i + 1 : Nat) : ℚ) * 10 ^ i < w.high * 2 ^ w.scale := by
    rw [hhigh]
    push_cast
    linarith
  rw [fits_iff]
  unfold Holds
  split
  · exact ⟨hunder.le, hover.le⟩
  · exact ⟨hunder, hover⟩

/-- The twenty-fourth grid of the search is fine enough. -/
theorem last_grid {scale : ℤ} {size : Nat} (hsize : size ≤ 54) (hlow : -1100 ≤ scale)
    (hhigh : scale ≤ 1000) :
    (10 : ℚ) ^ ((scale + (size + 1 : Nat)) * 30103 / 100000 + 2 - (23 : Nat)) < 2 * 2 ^ scale := by
  set e : ℤ := scale + (size + 1 : Nat) with he
  have hten : (10 : ℚ) ^ (e * 30103 / 100000) ≤ 2 ^ (e + 9) := by
    refine ten_zpow_le ?_ (by omega) (by omega)
    omega
  have hdigits : (10 : ℚ) ^ (-21 : ℤ) ≤ 2 ^ (-69 : ℤ) := by norm_num
  calc (10 : ℚ) ^ (e * 30103 / 100000 + 2 - (23 : Nat))
      = 10 ^ (e * 30103 / 100000) * 10 ^ (-21 : ℤ) := by
        rw [← zpow_add₀ (by norm_num)]
        congr 1
        push_cast
        ring
    _ ≤ 2 ^ (e + 9) * 2 ^ (-69 : ℤ) := by gcongr
    _ = 2 ^ (e - 60) := by
        rw [← zpow_add₀ (by norm_num)]
        congr 1
        ring
    _ < 2 ^ (1 + scale) := zpow_lt_zpow_right₀ (by norm_num) (by omega)
    _ = 2 * 2 ^ scale := by rw [zpow_add₀ (by norm_num), zpow_one]

/-- The shortest decimal of a number lies in its window. -/
theorem shortest_holds {m : Nat} {q : ℤ} (hs : Stored m q) (hq : q ≤ 971) (tie : Tie) :
    (ofStored m q).Holds ((ofStored m q).shortest tie).value := by
  have hle := hs.le
  have hpos := hs.pos
  have hlt := hs.lt
  have hlow : (ofStored m q).low ≤ (ofStored m q).value := by
    unfold ofStored ofBinary
    dsimp only
    split <;> omega
  have hsize : Nat.log2 (4 * m) ≤ 54 := by
    have hbound : 4 * m < 2 ^ 55 := by omega
    have := (Nat.log2_lt (by omega)).mpr hbound
    omega
  refine search_holds ⟨23, by norm_num, fits_above hlow rfl ?_⟩
  exact last_grid hsize (show -1100 ≤ q - 2 by omega) (show q - 2 ≤ 1000 by omega)

end Window

end Patchbay
