import ComHeaders.Proofs.Number.Rounding

/-!
# What a decimal is read as

A decimal is read as the double nearest to it.  Very large and very small ones are settled before
any power of ten is formed; that this makes no difference is part of what is shown here.

## 1.  Fields

A double that is put together from fields has these fields, and one that is put together from a
magnitude of double precision has this magnitude (`magnitude_ofMagnitude`).

## 2.  Reading

Reading does not cross a double, neither from below (`Decimal.toDouble_le`) nor from above
(`Decimal.le_toDouble`).  An infinity lies above all doubles.
-/

namespace ComHeaders

/-! ## 1.  Fields -/

namespace Double

variable {sign : Bool} {e k : ℕ} {d : Dyadic}

/-- The magnitude of a finite double, as a number. -/
def absolute (x : Double) : ℚ := x.magnitude.value

theorem fields_ofFields (sign : Bool) (he : e < 2048) (hk : k < hiddenBit) :
    (ofFields sign e k).exponentField = e ∧ (ofFields sign e k).fraction = k := by
  have hsign : (if sign then signBit else 0) = 0 ∨ (if sign then signBit else 0) = 2 ^ 63 := by
    cases sign
    · exact .inl rfl
    · exact .inr rfl
  rw [exponentField, fraction, ofFields]
  rw [hiddenBit] at hk ⊢
  generalize (if sign then signBit else 0) = s at hsign ⊢
  have hfits : s + e * 0x10000000000000 + k < 2 ^ 64 := by omega
  rw [UInt64.toNat_ofNat', Nat.mod_eq_of_lt hfits]
  omega

theorem magnitude_ofFields_zero (hk : k < hiddenBit) :
    (ofFields sign 0 k).magnitude = ⟨k, -1074⟩ := by
  obtain ⟨hexponent, hfraction⟩ := fields_ofFields sign (by decide : 0 < 2048) hk
  rw [magnitude, if_pos hexponent, hfraction]

theorem magnitude_ofFields (he : e < 2048) (he' : e ≠ 0) (hk : k < hiddenBit) :
    (ofFields sign e k).magnitude = ⟨k + hiddenBit, (e : ℤ) - 1075⟩ := by
  obtain ⟨hexponent, hfraction⟩ := fields_ofFields sign he hk
  rw [magnitude, hexponent, if_neg he', hfraction]

/-- A double has the magnitude that it was put together from. -/
theorem magnitude_ofMagnitude (hd : BinaryFormat.double.Holds d)
    (hnormal : d.mantissa < hiddenBit → d.exponent = -1074) :
    (ofMagnitude sign d).magnitude = d := by
  obtain ⟨mantissa, exponent⟩ := d
  obtain ⟨hmantissa, hmin, hmax⟩ := hd
  simp only [BinaryFormat.double] at hmantissa hmin hmax hnormal
  simp only [ofMagnitude]
  split
  · rename_i hlt
    rw [magnitude_ofFields_zero hlt, hnormal hlt]
  · rename_i hge
    have hfraction : mantissa - hiddenBit < hiddenBit := by
      rw [hiddenBit] at hge ⊢
      omega
    rw [magnitude_ofFields (by omega) (by omega) hfraction, Dyadic.mk.injEq]
    omega

theorem double_proper : BinaryFormat.double.Proper := ⟨by decide, by decide⟩

/-- No double is as large as an infinity would be. -/
theorem lt_absolute_infinity (hd : BinaryFormat.double.Holds d) :
    d.value < (infinity sign).absolute := by
  have hhidden : ((0 + hiddenBit : ℕ) : ℚ) = 2 ^ (52 : ℤ) := by norm_num [hiddenBit]
  have hvalue : (infinity sign).absolute = 2 ^ ((972 : ℤ) + (53 : ℕ) - 1) := by
    rw [absolute, infinity, magnitude_ofFields (by decide) (by decide) (by decide), Dyadic.value,
      hhidden, ← zpow_add₀ (by norm_num)]
    rfl
  rw [hvalue]
  exact hd.value_lt (Int.lt_add_one_of_le hd.exponent_le)

variable {num den : ℕ}

theorem absolute_ofQuotient {r : Dyadic} (hden : 0 < den)
    (h : BinaryFormat.double.round num den = some r) :
    (ofQuotient sign num den).absolute = r.value := by
  have hholds := BinaryFormat.holds_of_round double_proper h
  have hnormal := BinaryFormat.exponent_of_round double_proper hden h
  rw [absolute, ofQuotient, h]
  exact congrArg Dyadic.value (magnitude_ofMagnitude hholds hnormal)

theorem ofQuotient_le (hden : 0 < den) (hd : BinaryFormat.double.Holds d)
    (h : (num / den : ℚ) ≤ d.value) : (ofQuotient sign num den).absolute ≤ d.value := by
  rcases hround : BinaryFormat.double.round num den with _ | r
  · have hend := (BinaryFormat.round_eq_none_iff double_proper hden).1 hround
    exact absurd (h.trans_lt hd.value_lt_upperEnd) (not_lt_of_ge hend)
  · rw [absolute_ofQuotient hden hround]
    exact BinaryFormat.round_le double_proper hden hround hd h

theorem le_ofQuotient (hden : 0 < den) (hd : BinaryFormat.double.Holds d)
    (h : d.value ≤ (num / den : ℚ)) : d.value ≤ (ofQuotient sign num den).absolute := by
  rcases hround : BinaryFormat.double.round num den with _ | r
  · rw [ofQuotient, hround]
    exact (lt_absolute_infinity hd).le
  · rw [absolute_ofQuotient hden hround]
    exact BinaryFormat.le_round double_proper hden hround hd h

theorem absolute_zero : (ofFields sign 0 0).absolute = 0 := by
  rw [absolute, magnitude_ofFields_zero (by decide), Dyadic.value, Nat.cast_zero, zero_mul]

end Double

/-! ## 2.  Reading -/

namespace Decimal

variable {c : Decimal} {sign : Bool} {d : Dyadic}

/-- The exponent of the power of ten above a decimal. -/
def leading (c : Decimal) : ℤ := (decimalDigits c.coefficient).length + c.exponent

theorem value_of_coefficient_eq_zero (h : c.coefficient = 0) : c.value = 0 := by
  rw [value, h, Nat.cast_zero, zero_mul]

theorem value_lt (h : c.coefficient ≠ 0) : c.value < 10 ^ c.leading := by
  have hlength := (length_decimalDigits (Nat.pos_of_ne_zero h)).2
  have hlt : (c.coefficient : ℚ) < 10 ^ (decimalDigits c.coefficient).length := by
    exact_mod_cast hlength
  rw [value, leading, zpow_add₀ (by norm_num), zpow_natCast]
  gcongr

theorem le_value (h : c.coefficient ≠ 0) : 10 ^ (c.leading - 1) ≤ c.value := by
  have hpos : 0 < (decimalDigits c.coefficient).length := Nat.length_toDigits_pos
  have hlength := (length_decimalDigits (Nat.pos_of_ne_zero h)).1
  have hle : (10 : ℚ) ^ ((decimalDigits c.coefficient).length - 1) ≤ c.coefficient := by
    exact_mod_cast hlength
  have hsplit : c.leading - 1 = ((decimalDigits c.coefficient).length - 1 : ℕ) + c.exponent := by
    rw [leading]
    omega
  rw [value, hsplit, zpow_add₀ (by norm_num), zpow_natCast]
  gcongr

theorem zpow_le_zpow_of_pow_le {i j : ℕ} (h : 2 ^ i ≤ 10 ^ j) (n : ℕ) :
    (2 : ℚ) ^ ((i * n : ℕ) : ℤ) ≤ 10 ^ ((j * n : ℕ) : ℤ) := by
  rw [zpow_natCast, zpow_natCast, pow_mul, pow_mul]
  have hle : (2 : ℚ) ^ i ≤ 10 ^ j := by exact_mod_cast h
  gcongr

/-- What is settled by the leading digit, and what is not. -/
theorem toDouble_eq (sign : Bool) (c : Decimal) :
    c.toDouble sign =
      if c.coefficient = 0 ∨ c.leading < -330 then Double.ofFields sign 0 0
      else if 330 < c.leading then Double.infinity sign
      else Double.ofQuotient sign c.numerator c.denominator := by
  rw [toDouble]
  simp only [Bool.or_eq_true, decide_eq_true_eq, leading]
  rfl

/-- **Reading does not cross a double**, from below. -/
theorem toDouble_le (hd : BinaryFormat.double.Holds d) (h : c.value ≤ d.value) :
    (c.toDouble sign).absolute ≤ d.value := by
  rw [toDouble_eq]
  split
  · rw [Double.absolute_zero]
    exact d.value_nonneg
  · rename_i hsmall
    obtain ⟨hzero, -⟩ := not_or.1 hsmall
    split
    · -- So large a decimal does not lie below a double.
      rename_i hlarge
      have hbeyond : (2 : ℚ) ^ ((972 : ℤ) + (53 : ℕ) - 1) ≤ 10 ^ (312 : ℤ) :=
        zpow_le_zpow_of_pow_le (by decide : 2 ^ 128 ≤ 10 ^ 39) 8
      have hpower : (10 : ℚ) ^ (312 : ℤ) ≤ 10 ^ (c.leading - 1) :=
        zpow_le_zpow_right₀ (by norm_num) (by omega)
      have hlt := hd.value_lt (Int.lt_add_one_of_le hd.exponent_le)
      exact absurd (hlt.trans_le (hbeyond.trans (hpower.trans (le_value hzero))))
        (not_lt_of_ge h)
    · exact Double.ofQuotient_le c.denominator_pos hd (c.numerator_div_denominator.trans_le h)

/-- **Nor from above.** -/
theorem le_toDouble (hd : BinaryFormat.double.Holds d) (h : d.value ≤ c.value) :
    d.value ≤ (c.toDouble sign).absolute := by
  rw [toDouble_eq]
  split
  · -- Below so small a decimal there is no double but zero.
    rename_i hsmall
    rw [Double.absolute_zero]
    refine le_of_not_gt fun hpos => ?_
    rcases hsmall with hzero | hsmall
    · exact absurd (h.trans_eq (value_of_coefficient_eq_zero hzero)) (not_le_of_gt hpos)
    · have hzero : c.coefficient ≠ 0 := fun hzero =>
        absurd (h.trans_eq (value_of_coefficient_eq_zero hzero)) (not_le_of_gt hpos)
      have hleast : (10 : ℚ) ^ (-324 : ℤ) ≤ 2 ^ (-1074 : ℤ) := by
        rw [zpow_neg, zpow_neg, inv_le_inv₀ (by positivity) (by positivity)]
        exact zpow_le_zpow_of_pow_le (by decide : 2 ^ 179 ≤ 10 ^ 54) 6
      have hpower : (10 : ℚ) ^ c.leading ≤ 10 ^ (-324 : ℤ) :=
        zpow_le_zpow_right₀ (by norm_num) (by omega)
      have hlt := (value_lt hzero).trans_le hpower
      exact absurd ((hd.le_value hpos).trans h) (not_le_of_gt (hlt.trans_le hleast))
  · split
    · exact (Double.lt_absolute_infinity hd).le
    · exact Double.le_ofQuotient c.denominator_pos hd
        (h.trans_eq c.numerator_div_denominator.symm)

end Decimal

end ComHeaders
