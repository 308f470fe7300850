import Mathlib
import Patchbay.Proofs.ShortestSound

/-!
# Numerals read back

A finite double is written with the shortest decimal of its window, which is read as the same
double. The layout of the digits does not matter, and the sign is that of the double, also for zero.
-/

namespace Patchbay

/-! ## Doubles by their bits -/

namespace Bits

open Float.Model (UnpackedFloat Format)
open Float.Model.UnpackedFloat (Sign unpack unpackSign unpackExponent unpackMantissa isNaNBits)

section
variable (b : BitVec 64)

theorem toNat_unpackExponent :
    (@unpackExponent .binary64 b).toNat = b.toNat / 2 ^ 52 % 2 ^ 11 := by
  rw [UnpackedFloat.unpackExponent_def, BitVec.extractLsb'_toNat, Nat.shiftRight_eq_div_pow]

theorem toNat_unpackMantissa :
    (@unpackMantissa .binary64 b).toNat = b.toNat % 2 ^ 52 := by
  rw [UnpackedFloat.unpackMantissa_def, BitVec.extractLsb'_toNat, Nat.shiftRight_zero]

theorem sign_unpack : Sign.ofBitVec (@unpackSign .binary64 b) =
    if b.toNat / 2 ^ 63 = 0 then .positive else .negative := by
  have htoNat : (@unpackSign .binary64 b).toNat = b.toNat / 2 ^ 63 % 2 := by
    rw [UnpackedFloat.unpackSign_def, BitVec.extractLsb'_toNat, Nat.shiftRight_eq_div_pow]
    rfl
  have hzero : @unpackSign .binary64 b = 0#1 ↔ b.toNat / 2 ^ 63 = 0 := by
    have hlt := b.isLt
    rw [← BitVec.toNat_inj, htoNat, BitVec.toNat_zero]
    omega
  unfold Sign.ofBitVec
  simp only [hzero]

theorem special_iff :
    @unpackExponent .binary64 b = -1#11 ↔ ¬ b.toNat % 2 ^ 63 < infinityBits := by
  have hinfinity : infinityBits = 2047 * 2 ^ 52 := rfl
  have hones : (-1#11).toNat = 2047 := rfl
  rw [← BitVec.toNat_inj, toNat_unpackExponent, hones]
  omega

theorem isFinite_unpack :
    (unpack .binary64 b).isFinite = true ↔ b.toNat % 2 ^ 63 < infinityBits := by
  unfold unpack
  dsimp only
  split
  · rename_i hspecial
    refine iff_of_false ?_ ((special_iff b).mp hspecial)
    split <;> exact Bool.false_ne_true
  · rename_i hplain
    refine iff_of_true ?_ (not_not.mp fun h => hplain ((special_iff b).mpr h))
    split
    · split <;> rfl
    · rfl

/-- Bits that differ in the sign alone stand for opposite numbers. -/
theorem neg_unpack {b c : BitVec 64} (hsize : b.toNat % 2 ^ 63 = c.toNat % 2 ^ 63)
    (hsign : b.toNat / 2 ^ 63 ≠ c.toNat / 2 ^ 63) :
    (unpack .binary64 b).neg = unpack .binary64 c := by
  have hexponent : @unpackExponent .binary64 b = @unpackExponent .binary64 c := by
    rw [← BitVec.toNat_inj, toNat_unpackExponent, toNat_unpackExponent]
    omega
  have hmantissa : @unpackMantissa .binary64 b = @unpackMantissa .binary64 c := by
    rw [← BitVec.toNat_inj, toNat_unpackMantissa, toNat_unpackMantissa]
    omega
  have hopposite : -Sign.ofBitVec (@unpackSign .binary64 b) =
      Sign.ofBitVec (@unpackSign .binary64 c) := by
    have hb := b.isLt
    have hc := c.isLt
    rw [sign_unpack, sign_unpack]
    by_cases hzero : b.toNat / 2 ^ 63 = 0
    · rw [if_pos hzero, if_neg (by omega)]
      rfl
    · rw [if_neg hzero, if_pos (by omega)]
      rfl
  unfold unpack
  dsimp only
  simp only [hexponent, hmantissa, ← hopposite]
  split
  · split <;> rfl
  · split
    · split <;> rfl
    · rfl

end

def size (x : Float) : Nat := x.toBits.toNat % 2 ^ 63

def negative (x : Float) : Bool := x.toBits.toNat / 2 ^ 63 == 1

variable {x y : Float} {n : Nat}

theorem isFinite_iff : x.isFinite = true ↔ size x < infinityBits :=
  isFinite_unpack x.toBits.toBitVec

theorem neg_eq (hsize : size x = size y) (hsign : negative x ≠ negative y) : -x = y := by
  have hne : x.toBits.toNat / 2 ^ 63 ≠ y.toBits.toNat / 2 ^ 63 := by
    intro heq
    exact hsign (by unfold negative; rw [heq])
  rw [← Float.toBits_inj, ← UInt64.toBitVec_inj]
  calc (-x).toBits.toBitVec
      = UnpackedFloat.pack .binary64 (unpack .binary64 x.toBits.toBitVec).neg := rfl
    _ = UnpackedFloat.pack .binary64 (unpack .binary64 y.toBits.toBitVec) := by
        rw [neg_unpack hsize hne]
    _ = y.toBits.toBitVec := UnpackedFloat.pack_unpack_of_valid y.toModel.valid

theorem toBits_ofBits {a : UInt64} (ha : a.toNat % 2 ^ 63 < infinityBits) :
    (Float.ofBits a).toBits = a := by
  rw [← UInt64.toBitVec_inj]
  calc (Float.ofBits a).toBits.toBitVec
      = UnpackedFloat.pack .binary64 (unpack .binary64 a.toBitVec) := rfl
    _ = if @isNaNBits .binary64 a.toBitVec = true then UnpackedFloat.packedNaN .binary64
        else a.toBitVec := UnpackedFloat.pack_unpack _
    _ = a.toBitVec := by
        rw [if_neg]
        unfold isNaNBits
        rw [decide_eq_true_eq, special_iff]
        exact fun h => h.1 ha

section
variable {n : Nat} (hn : n < infinityBits)
include hn

theorem toBits_positive : (Float.ofBits (UInt64.ofNat n)).toBits.toNat = n := by
  have hinfinity : infinityBits = 2047 * 2 ^ 52 := rfl
  have htoNat : (UInt64.ofNat n).toNat = n := by
    rw [UInt64.toNat_ofNat']
    omega
  rw [toBits_ofBits (by omega), htoNat]

theorem toBits_negative : (Float.ofBits (UInt64.ofNat (n + 2 ^ 63))).toBits.toNat = n + 2 ^ 63 := by
  have hinfinity : infinityBits = 2047 * 2 ^ 52 := rfl
  have htoNat : (UInt64.ofNat (n + 2 ^ 63)).toNat = n + 2 ^ 63 := by
    rw [UInt64.toNat_ofNat']
    omega
  rw [toBits_ofBits (by omega), htoNat]

theorem isFinite_ofBits : (Float.ofBits (UInt64.ofNat n)).isFinite = true := by
  rw [isFinite_iff, size, toBits_positive hn]
  omega

theorem neg_ofBits :
    -(Float.ofBits (UInt64.ofNat n)) = Float.ofBits (UInt64.ofNat (n + 2 ^ 63)) := by
  have hinfinity : infinityBits = 2047 * 2 ^ 52 := rfl
  refine neg_eq ?_ ?_
  · rw [size, size, toBits_positive hn, toBits_negative hn]
    omega
  · rw [negative, negative, toBits_positive hn, toBits_negative hn, ne_eq, Bool.eq_iff_iff,
      beq_iff_eq, beq_iff_eq]
    omega

theorem isFinite_neg_ofBits : (-(Float.ofBits (UInt64.ofNat n))).isFinite = true := by
  rw [neg_ofBits hn, isFinite_iff, size, toBits_negative hn]
  omega

end

/-- The bits without the sign, and the sign, make up a finite double. -/
theorem eq_of_size (hx : size x < infinityBits) :
    (if negative x then -(Float.ofBits (UInt64.ofNat (size x))) else
      Float.ofBits (UInt64.ofNat (size x))) = x := by
  have hlt := x.toBits.toNat_lt
  have hofNat : Float.ofBits (UInt64.ofNat x.toBits.toNat) = x := by
    rw [UInt64.ofNat_toNat, Float.ofBits_toBits]
  by_cases hsign : negative x = true
  · have hsum : size x + 2 ^ 63 = x.toBits.toNat := by
      rw [negative, beq_iff_eq] at hsign
      unfold size
      omega
    rw [if_pos hsign, neg_ofBits hx, hsum, hofNat]
  · have hsum : size x = x.toBits.toNat := by
      rw [negative, beq_iff_eq] at hsign
      unfold size
      omega
    rw [if_neg hsign, hsum, hofNat]

theorem eq_zero_of_size (hx : size x = 0) : (x == 0) = true := by
  have hzero : size x < infinityBits := by
    rw [hx]
    decide
  rw [← eq_of_size hzero, hx]
  cases negative x <;> decide

end Bits

/-! ## Windows of doubles -/

theorem Window.ofBits_eq {bits : UInt64} (hpos : bits.toNat % 2 ^ 63 ≠ 0)
    (hlt : bits.toNat % 2 ^ 63 < infinityBits) :
    ∃ m q, Stored m q ∧ q ≤ 971 ∧ Window.ofBits bits = Window.ofStored m q ∧
      bits.toNat % 2 ^ 63 = (q + 1074).toNat * 2 ^ 52 + m := by
  have hinfinity : infinityBits = 2047 * 2 ^ 52 := rfl
  have hofBits : Window.ofBits bits =
      let n := bits.toNat % 2 ^ 63
      if n / 2 ^ 52 = 0 then ofBinary (n % 2 ^ 52) (-1074) false
      else ofBinary (n % 2 ^ 52 + 2 ^ 52) ((n / 2 ^ 52 : Nat) - 1075)
        (n % 2 ^ 52 == 0 && n / 2 ^ 52 != 1) := rfl
  generalize bits.toNat % 2 ^ 63 = n at *
  by_cases hsmall : n / 2 ^ 52 = 0
  · refine ⟨n % 2 ^ 52, -1074, ⟨by omega, by omega, le_refl _, Or.inr rfl⟩, by norm_num, ?_, ?_⟩
    · rw [hofBits]
      dsimp only
      rw [if_pos hsmall, ofStored, bne_self_eq_false, Bool.and_false]
    · omega
  · refine ⟨n % 2 ^ 52 + 2 ^ 52, (n / 2 ^ 52 : Nat) - 1075,
      ⟨by omega, by omega, by omega, Or.inl (by omega)⟩, by omega, ?_, ?_⟩
    · have hnarrow : (n % 2 ^ 52 == 0 && n / 2 ^ 52 != 1) =
          (n % 2 ^ 52 + 2 ^ 52 == 2 ^ 52 && ((n / 2 ^ 52 : Nat) : ℤ) - 1075 != -1074) := by
        rw [Bool.eq_iff_iff]
        simp only [Bool.and_eq_true, beq_iff_eq, bne_iff_ne]
        omega
      rw [hofBits]
      dsimp only
      rw [if_neg hsmall, hnarrow]
      rfl
    · omega

/-- The shortest decimal of a finite double that is not zero lies in its window. -/
theorem Window.shortest_ofBits {x : Float} (hx : x.isFinite = true) (hzero : ¬ (x == 0) = true)
    (tie : Tie) : ∃ m q, Stored m q ∧ q ≤ 971 ∧ Bits.size x = (q + 1074).toNat * 2 ^ 52 + m ∧
      (ofStored m q).Holds ((Window.ofBits x.toBits).shortest tie).value := by
  obtain ⟨m, q, hs, hq, hwindow, hsize⟩ :=
    ofBits_eq (fun h => hzero (Bits.eq_zero_of_size h)) (Bits.isFinite_iff.mp hx)
  rw [hwindow]
  exact ⟨m, q, hs, hq, hsize, shortest_holds hs hq tie⟩

/-! ## Digits -/

theorem natOfDigits_digitsOf (n : Nat) : natOfDigits (Numeral.digitsOf n) = n :=
  Nat.ofDigitChars_toDigits (by norm_num) (by norm_num)

theorem natOfDigits_append (as bs : List Char) :
    natOfDigits (as ++ bs) = natOfDigits as * 10 ^ bs.length + natOfDigits bs := by
  calc natOfDigits (as ++ bs) = Nat.ofDigitChars 10 bs (natOfDigits as) := Nat.ofDigitChars_append 0
    _ = 10 ^ bs.length * natOfDigits as + natOfDigits bs := Nat.ofDigitChars_eq_ofDigitChars_zero
    _ = natOfDigits as * 10 ^ bs.length + natOfDigits bs := by rw [Nat.mul_comm]

theorem natOfDigits_zeroes (n : Nat) : natOfDigits (List.replicate n '0') = 0 :=
  Nat.ofDigitChars_replicate_zero

namespace Numeral

variable (layout : Layout)

theorem ofDecimal_negative (negative : Bool) (d : Decimal) :
    (ofDecimal layout negative d).negative = negative := by
  unfold ofDecimal
  dsimp only
  split
  · split
    · rfl
    · split <;> rfl
  · rfl

theorem decimal_value {n : Numeral} {d : Decimal} (k : Nat)
    (hdigits : natOfDigits (n.whole ++ n.fraction) = d.digits * 10 ^ k)
    (hexponent : n.exponent.getD 0 - n.fraction.length + k = d.exponent) :
    n.decimal.value = d.value := by
  unfold Decimal.value decimal
  dsimp only
  rw [hdigits, ← hexponent, zpow_add₀ (by norm_num), zpow_natCast]
  push_cast
  ring

/-- However the digits are laid out, they have the same value. -/
theorem ofDecimal_value (negative : Bool) (d : Decimal) :
    (ofDecimal layout negative d).decimal.value = d.value := by
  have hpos : 0 < (digitsOf d.digits).length := Nat.length_toDigits_pos
  have hdigits := natOfDigits_digitsOf d.digits
  have hzero : natOfDigits ['0'] = 0 := rfl
  unfold ofDecimal
  dsimp only
  split
  · split
    · refine decimal_value 0 ?_ ?_
      · simp only [natOfDigits_append, natOfDigits_zeroes, hdigits, hzero]
        omega
      · simp only [Option.getD_none, List.length_append, List.length_replicate]
        omega
    · split
      · refine decimal_value 0 ?_ ?_
        · simp only [List.take_append_drop, hdigits]
          omega
        · simp only [Option.getD_none, List.length_drop]
          omega
      · cases layout.pointZero with
        | true =>
          refine decimal_value (d.exponent.toNat + 1) ?_ ?_
          · simp only [natOfDigits_append, natOfDigits_zeroes, hdigits, hzero,
              List.length_replicate, if_true, List.length_singleton]
            ring
          · simp only [Option.getD_none, if_true, List.length_singleton]
            omega
        | false =>
          refine decimal_value d.exponent.toNat ?_ ?_
          · simp only [natOfDigits_append, natOfDigits_zeroes, hdigits, List.append_nil,
              List.length_replicate, Bool.false_eq_true, if_false]
            ring
          · simp only [Option.getD_none, Bool.false_eq_true, if_false, List.length_nil]
            omega
  · refine decimal_value 0 ?_ ?_
    · simp only [List.take_append_drop, hdigits]
      omega
    · simp only [Option.getD_some, List.length_drop]
      omega

/-- Whatever the layout, a finite double is read back from its numeral. -/
theorem toFloat?_ofFloat {x : Float} (hx : x.isFinite = true) :
    (ofFloat layout x).toFloat? = some x := by
  unfold ofFloat
  dsimp only
  by_cases hzero : (x == 0) = true
  · rw [if_pos hzero]
    obtain ⟨-, -, rfl | ⟨rfl, -⟩ | ⟨rfl, -⟩⟩ := Float.beq_iff_ne_nan_and_eq.mp hzero
    · cases layout.pointZero <;> rfl
    · cases layout.pointZero <;> rfl
    · cases layout.pointZero <;> rfl
  · rw [if_neg hzero]
    obtain ⟨m, q, hs, hq, hsize, hholds⟩ := Window.shortest_ofBits hx hzero layout.tie
    rw [← ofDecimal_value layout (Bits.negative x)] at hholds
    have hread := Decimal.toFloat?_of_holds hs hq hholds
    rw [← hsize] at hread
    calc (ofDecimal layout (Bits.negative x)
          ((Window.ofBits x.toBits).shortest layout.tie)).toFloat?
        = some (if Bits.negative x then -(Float.ofBits (UInt64.ofNat (Bits.size x))) else
            Float.ofBits (UInt64.ofNat (Bits.size x))) := by
          rw [toFloat?, ofDecimal_negative, hread]
          rfl
      _ = some x := by rw [Bits.eq_of_size (Bits.isFinite_iff.mp hx)]

/-- A float that shows its point or its exponent is not taken for a natural number. -/
theorem toNat?_ofFloat (hpoint : layout.pointZero = true) (x : Float) :
    (ofFloat layout x).toNat? = none := by
  have hnone : ∀ n : Numeral, n.fraction ≠ [] ∨ n.exponent.isSome = true → n.toNat? = none := by
    intro n hn
    refine if_pos ?_
    obtain hn | hn := hn <;> simp [hn]
  refine hnone _ ?_
  unfold ofFloat
  dsimp only
  by_cases hzero : (x == 0) = true
  · rw [if_pos hzero, if_pos hpoint]
    exact Or.inl (List.cons_ne_nil _ _)
  · rw [if_neg hzero]
    unfold ofDecimal
    generalize (Window.ofBits x.toBits).shortest layout.tie = d
    have hlength : 0 < (digitsOf d.digits).length := Nat.length_toDigits_pos
    dsimp only
    split
    · split
      · refine Or.inl (List.append_ne_nil_of_right_ne_nil _ ?_)
        exact List.length_pos_iff.mp hlength
      · split
        · refine Or.inl (List.length_pos_iff.mp ?_)
          rw [List.length_drop]
          omega
        · exact Or.inl (List.cons_ne_nil _ _)
    · exact Or.inr rfl

end Numeral

/-- A decimal is never read as something that is not finite, nor is its opposite. -/
theorem Decimal.isFinite_of_toFloat? {d : Decimal} {x : Float} (h : d.toFloat? = some x) :
    x.isFinite = true ∧ (-x).isFinite = true := by
  have hbits : ∃ k < infinityBits, x = Float.ofBits (UInt64.ofNat k) := by
    unfold toFloat? at h
    dsimp only at h
    split at h
    · cases h
      exact ⟨0, by decide, rfl⟩
    · split at h
      · cases h
      · split at h
        · rename_i hlt
          cases h
          exact ⟨_, hlt, rfl⟩
        · cases h
  obtain ⟨k, hk, rfl⟩ := hbits
  exact ⟨Bits.isFinite_ofBits hk, Bits.isFinite_neg_ofBits hk⟩

end Patchbay
