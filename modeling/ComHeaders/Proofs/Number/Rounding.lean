import ComHeaders.Number.Decimal
import Mathlib.Algebra.Order.Field.Power
import Mathlib.Data.Int.Log
import Mathlib.Data.Rat.Floor
import Mathlib.Tactic.FieldSimp
import Mathlib.Tactic.Linarith
import Mathlib.Tactic.NormNum
import Mathlib.Tactic.Positivity

/-!
# Rounding as a statement on rational numbers

Rounding is exact arithmetic on quotients of naturals.  This file says what it computes of the
rational number that a quotient stands for, so that what comes after need not take quotients apart.

## 1.  Quotients in units

Measuring a quotient in units of `b ^ e` divides the number by `b ^ e` (`scaled_div`), and the two
logarithms that choose a unit are those of the number (`floorLog2_eq_log`, `floorLog10_eq_log`).

## 2.  Half to even

All that is needed of rounding to a natural number is when it stays below a bound
(`roundHalfEven_le_iff`).

## 3.  Binary formats

Without its upper end a format rounds every quotient (`BinaryFormat.nearest`), and rounding does not
cross what the format holds (`nearest_le`, `le_nearest`).  The upper end is left at the number that
lies half a step beyond the largest (`round_eq_none_iff`).

## 4.  Decimals

The same for the decimal of a given number of digits.
-/

namespace ComHeaders

variable {num den m : ℕ}

/-! ## 1.  Quotients in units -/

theorem zpow_eq_div {b : ℕ} (hb : 0 < b) (e : ℤ) :
    (b : ℚ) ^ e = (b : ℚ) ^ e.toNat / (b : ℚ) ^ (-e).toNat := by
  have hb' : (b : ℚ) ≠ 0 := by positivity
  rw [← zpow_natCast, ← zpow_natCast, ← zpow_sub₀ hb']
  congr 1
  omega

theorem scaled_div {b : ℕ} (hb : 0 < b) (num den : ℕ) (e : ℤ) :
    ((num * b ^ (-e).toNat : ℕ) : ℚ) / ((den * b ^ e.toNat : ℕ) : ℚ) =
      (num / den : ℚ) / (b : ℚ) ^ e := by
  have hb' : (b : ℚ) ≠ 0 := by positivity
  rw [zpow_eq_div hb]
  push_cast
  field_simp

/-- The test by which both logarithms decide. -/
theorem scaled_le_scaled_iff {b : ℕ} (hb : 0 < b) (num : ℕ) (hden : 0 < den) (e : ℤ) :
    den * b ^ e.toNat ≤ num * b ^ (-e).toNat ↔ (b : ℚ) ^ e ≤ num / den := by
  have hpos : (0 : ℚ) < ((den * b ^ e.toNat : ℕ) : ℚ) := by positivity
  have hunit : (0 : ℚ) < (b : ℚ) ^ e := by positivity
  rw [← Nat.cast_le (α := ℚ), ← one_le_div hpos, scaled_div hb, one_le_div hunit]

/-- Two naturals between known powers have a quotient whose logarithm is the difference of the
exponents or one less. -/
theorem log_div_eq {b i j : ℕ} (hb : 1 < b) (hnum : b ^ i ≤ num) (hnum' : num < b ^ (i + 1))
    (hden : b ^ j ≤ den) (hden' : den < b ^ (j + 1)) :
    Int.log b (num / den : ℚ) =
      if (b : ℚ) ^ ((i : ℤ) - j) ≤ num / den then (i : ℤ) - j else (i : ℤ) - j - 1 := by
  have hb' : (b : ℚ) ≠ 0 := by positivity
  have hdenpos : (0 : ℚ) < den := by
    exact_mod_cast Nat.lt_of_lt_of_le (Nat.pow_pos (by omega)) hden
  have hnumpos : (0 : ℚ) < num := by
    exact_mod_cast Nat.lt_of_lt_of_le (Nat.pow_pos (by omega)) hnum
  have hpos : (0 : ℚ) < num / den := div_pos hnumpos hdenpos
  have hupper : (num / den : ℚ) < (b : ℚ) ^ ((i : ℤ) - j + 1) := by
    have hlt : (num : ℚ) < (b : ℚ) ^ (i + 1) := by exact_mod_cast hnum'
    have hle : (b : ℚ) ^ j ≤ den := by exact_mod_cast hden
    rw [div_lt_iff₀ hdenpos]
    calc (num : ℚ) < (b : ℚ) ^ (i + 1) := hlt
      _ = (b : ℚ) ^ ((i : ℤ) - j + 1) * (b : ℚ) ^ j := by
          rw [← zpow_natCast, ← zpow_natCast, ← zpow_add₀ hb']
          congr 1
          push_cast
          ring
      _ ≤ (b : ℚ) ^ ((i : ℤ) - j + 1) * den := by gcongr
  have hlower : (b : ℚ) ^ ((i : ℤ) - j - 1) ≤ num / den := by
    have hlt : (den : ℚ) < (b : ℚ) ^ (j + 1) := by exact_mod_cast hden'
    have hle : (b : ℚ) ^ i ≤ num := by exact_mod_cast hnum
    rw [le_div_iff₀ hdenpos]
    calc (b : ℚ) ^ ((i : ℤ) - j - 1) * den
        ≤ (b : ℚ) ^ ((i : ℤ) - j - 1) * (b : ℚ) ^ (j + 1) := by gcongr
      _ = (b : ℚ) ^ i := by
          rw [← zpow_natCast, ← zpow_natCast, ← zpow_add₀ hb']
          congr 1
          push_cast
          ring
      _ ≤ num := hle
  have hbelow := (Int.lt_zpow_iff_log_lt hb hpos).1 hupper
  have habove := (Int.zpow_le_iff_le_log hb hpos).1 hlower
  split <;> rename_i htest
  · have hreached := (Int.zpow_le_iff_le_log hb hpos).1 htest
    omega
  · have hmissed := (Int.lt_zpow_iff_log_lt hb hpos).1 (lt_of_not_ge htest)
    omega

theorem floorLog2_eq_log (hnum : 0 < num) (hden : 0 < den) :
    floorLog2 num den = Int.log 2 (num / den : ℚ) := by
  have hlog := log_div_eq (by decide) (Nat.log2_self_le hnum.ne') Nat.lt_log2_self
    (Nat.log2_self_le hden.ne') Nat.lt_log2_self
  have htest := scaled_le_scaled_iff (by decide : 0 < 2) num hden
    ((num.log2 : ℤ) - den.log2)
  simp only [floorLog2, inUnits, Nat.pow_eq, htest]
  exact hlog.symm

/-- A natural number lies below the power that its digits count, and not below the one before. -/
theorem length_decimalDigits {n : ℕ} (hn : 0 < n) :
    10 ^ ((decimalDigits n).length - 1) ≤ n ∧ n < 10 ^ (decimalDigits n).length := by
  have hpos : 0 < (decimalDigits n).length := Nat.length_toDigits_pos
  have hupper := (Nat.length_toDigits_le_iff (n := n) (by decide : 1 < 10) hpos).1 le_rfl
  refine ⟨?_, hupper⟩
  rcases Nat.eq_or_lt_of_le (Nat.succ_le_of_lt hpos) with hone | hmore
  · rw [← hone]
    exact hn
  · have hlonger : ¬ (decimalDigits n).length ≤ (decimalDigits n).length - 1 := by omega
    exact Nat.le_of_not_lt
      (mt (Nat.length_toDigits_le_iff (by decide : 1 < 10) (by omega)).2 hlonger)

theorem floorLog10_eq_log (hnum : 0 < num) (hden : 0 < den) :
    floorLog10 num den = Int.log 10 (num / den : ℚ) := by
  obtain ⟨hnumle, hnumlt⟩ := length_decimalDigits hnum
  obtain ⟨hdenle, hdenlt⟩ := length_decimalDigits hden
  have hnumpos : 0 < (decimalDigits num).length := Nat.length_toDigits_pos
  have hdenpos : 0 < (decimalDigits den).length := Nat.length_toDigits_pos
  rw [← Nat.sub_add_cancel hnumpos] at hnumlt
  rw [← Nat.sub_add_cancel hdenpos] at hdenlt
  have hlog := log_div_eq (by decide) hnumle hnumlt hdenle hdenlt
  have hdifference :
      (((decimalDigits num).length - 1 : ℕ) : ℤ) - ((decimalDigits den).length - 1 : ℕ) =
        ((decimalDigits num).length : ℤ) - (decimalDigits den).length := by omega
  rw [hdifference] at hlog
  have htest := scaled_le_scaled_iff (by decide : 0 < 10) num hden
    (((decimalDigits num).length : ℤ) - (decimalDigits den).length)
  simp only [floorLog10, inTens, Nat.pow_eq, htest]
  exact hlog.symm

/-! ## 2.  Half to even -/

theorem roundHalfEven_le_iff_mul (hden : 0 < den) :
    roundHalfEven num den ≤ m ↔
      2 * num < (2 * m + 1) * den ∨ (2 * num = (2 * m + 1) * den ∧ m % 2 = 0) := by
  have hsplit := Nat.div_add_mod num den
  have hrest := Nat.mod_lt num hden
  have hhalf : (2 * m + 1) * den = 2 * (den * m) + den := by ring
  rw [roundHalfEven, hhalf]
  rcases Nat.lt_trichotomy (num / den) m with hlt | heq | hgt
  · have hstep : den * (num / den + 1) ≤ den * m := Nat.mul_le_mul_left _ hlt
    rw [Nat.mul_add] at hstep
    split_ifs <;> omega
  · subst heq
    split_ifs <;> omega
  · have hstep : den * (m + 1) ≤ den * (num / den) := Nat.mul_le_mul_left _ hgt
    rw [Nat.mul_add] at hstep
    split_ifs <;> omega

/-- **Rounding stays below `m`** if the number lies below the middle above `m`, or is that middle
and `m` is even. -/
theorem roundHalfEven_le_iff (hden : 0 < den) :
    roundHalfEven num den ≤ m ↔
      (num / den : ℚ) < m + 1 / 2 ∨ ((num / den : ℚ) = m + 1 / 2 ∧ m % 2 = 0) := by
  have hdenpos : (0 : ℚ) < den := by exact_mod_cast hden
  have hlt : (num / den : ℚ) < m + 1 / 2 ↔ 2 * num < (2 * m + 1) * den := by
    rw [div_lt_iff₀ hdenpos, ← Nat.cast_lt (α := ℚ)]
    push_cast
    constructor <;> intro h <;> linarith
  have heq : (num / den : ℚ) = m + 1 / 2 ↔ 2 * num = (2 * m + 1) * den := by
    rw [div_eq_iff hdenpos.ne', ← Nat.cast_inj (R := ℚ)]
    push_cast
    constructor <;> intro h <;> linarith
  rw [hlt, heq, roundHalfEven_le_iff_mul hden]

/-- The quotient in units of `b ^ e`, rounded. -/
def roundIn (b num den : ℕ) (e : ℤ) : ℕ :=
  roundHalfEven (num * b ^ (-e).toNat) (den * b ^ e.toNat)

variable {b : ℕ} {e : ℤ}

theorem roundIn_le_iff (hb : 0 < b) (hden : 0 < den) :
    roundIn b num den e ≤ m ↔
      (num / den : ℚ) / (b : ℚ) ^ e < m + 1 / 2 ∨
        ((num / den : ℚ) / (b : ℚ) ^ e = m + 1 / 2 ∧ m % 2 = 0) := by
  rw [roundIn, roundHalfEven_le_iff (Nat.mul_pos hden (Nat.pow_pos hb)), scaled_div hb]

theorem roundIn_le (hb : 0 < b) (hden : 0 < den) (h : (num / den : ℚ) ≤ m * (b : ℚ) ^ e) :
    roundIn b num den e ≤ m := by
  have hscaled := (div_le_iff₀ (by positivity)).2 h
  exact (roundIn_le_iff hb hden).2 (.inl (by linarith))

theorem le_roundIn (hb : 0 < b) (hden : 0 < den) (h : (m * (b : ℚ) ^ e : ℚ) ≤ num / den) :
    m ≤ roundIn b num den e := by
  rcases m with _ | k
  · exact Nat.zero_le _
  · have hscaled := (le_div_iff₀ (by positivity)).2 h
    push_cast at hscaled
    refine Nat.lt_of_not_le fun hle => ?_
    rcases (roundIn_le_iff hb hden).1 hle with hlt | ⟨heq, -⟩ <;> linarith

/-- What has at most `n` digits before the point in those units has so after rounding, or is the
least number with one digit more. -/
theorem roundIn_le_pow {n : ℕ} (hb : 0 < b) (hden : 0 < den)
    (h : (num / den : ℚ) < (b : ℚ) ^ (e + n)) : roundIn b num den e ≤ b ^ n := by
  have hb' : (b : ℚ) ≠ 0 := by positivity
  refine roundIn_le hb hden (le_of_lt ?_)
  rw [zpow_add₀ hb', zpow_natCast, mul_comm] at h
  exact_mod_cast h

/-- The number stays the same when that least number is written with its last digit taken off. -/
theorem carry_value {n : ℕ} (hb : 0 < b) (hn : 0 < n) (hm : m = b ^ n) :
    ((b ^ (n - 1) : ℕ) : ℚ) * (b : ℚ) ^ (e + 1) = m * (b : ℚ) ^ e := by
  have hb' : (b : ℚ) ≠ 0 := by positivity
  have hpow : b ^ n = b ^ (n - 1) * b := by rw [← pow_succ, Nat.sub_add_cancel hn]
  rw [hm, hpow, zpow_add_one₀ hb']
  push_cast
  ring

/-! ## 3.  Binary formats -/

namespace Dyadic

/-- The number that a magnitude stands for. -/
def value (d : Dyadic) : ℚ := d.mantissa * 2 ^ d.exponent

theorem denominator_pos (d : Dyadic) : 0 < d.denominator := Nat.two_pow_pos _

theorem numerator_div_denominator (d : Dyadic) : (d.numerator / d.denominator : ℚ) = d.value := by
  have hpow := zpow_eq_div (b := 2) (by decide) d.exponent
  rw [numerator, denominator, value]
  push_cast [Nat.pow_eq] at hpow ⊢
  rw [hpow, mul_div_assoc]

theorem value_nonneg (d : Dyadic) : 0 ≤ d.value := by
  rw [value]
  positivity

theorem numerator_pos {d : Dyadic} (h : 0 < d.value) : 0 < d.numerator := by
  rw [← d.numerator_div_denominator] at h
  refine Nat.pos_of_ne_zero fun hzero => ?_
  simp [hzero] at h

/-- Two pairs are of the same magnitude if they stand for the same number. -/
theorem sameMagnitude_iff {a b : Dyadic} : a.sameMagnitude b = true ↔ a.value = b.value := by
  have ha : (a.denominator : ℚ) ≠ 0 := by exact_mod_cast a.denominator_pos.ne'
  have hb : (b.denominator : ℚ) ≠ 0 := by exact_mod_cast b.denominator_pos.ne'
  rw [← a.numerator_div_denominator, ← b.numerator_div_denominator, div_eq_div_iff ha hb,
    sameMagnitude, beq_iff_eq]
  exact_mod_cast Iff.rfl

end Dyadic

namespace BinaryFormat

variable {f : BinaryFormat} {d r : Dyadic}

/-- A format that holds something besides zero. -/
structure Proper (f : BinaryFormat) : Prop where
  precision_pos : 0 < f.precision
  exponents_le : f.minExponent ≤ f.maxExponent

/-- What a format holds. -/
structure Holds (f : BinaryFormat) (d : Dyadic) : Prop where
  mantissa_lt : d.mantissa < 2 ^ f.precision
  le_exponent : f.minExponent ≤ d.exponent
  exponent_le : d.exponent ≤ f.maxExponent

/-- The mantissa of a positive quotient on its grid, which may just reach the next grid. -/
def gridMantissa (f : BinaryFormat) (num den : ℕ) : ℕ := roundIn 2 num den (f.gridExponent num den)

/-- The quotient rounded to a format without an upper end. -/
def nearest (f : BinaryFormat) (num den : ℕ) : Dyadic :=
  if f.gridMantissa num den < 2 ^ f.precision then
    ⟨f.gridMantissa num den, f.gridExponent num den⟩
  else ⟨2 ^ (f.precision - 1), f.gridExponent num den + 1⟩

theorem round_eq (hnum : 0 < num) :
    f.round num den =
      if (f.nearest num den).exponent ≤ f.maxExponent then some (f.nearest num den) else none := by
  rw [round, if_neg hnum.ne']
  rfl

theorem gridExponent_eq (hnum : 0 < num) (hden : 0 < den) :
    f.gridExponent num den = max f.minExponent (Int.log 2 (num / den : ℚ) - (f.precision - 1)) := by
  rw [gridExponent, floorLog2_eq_log hnum hden]

/-- The grid is coarse enough for the bits of a mantissa. -/
theorem lt_gridTop (hnum : 0 < num) (hden : 0 < den) :
    (num / den : ℚ) < 2 ^ (f.gridExponent num den + f.precision) := by
  have hpos : (0 : ℚ) < num / den := by positivity
  have hlog := (Int.lt_zpow_iff_log_lt (b := 2) (x := Int.log 2 (num / den : ℚ) + 1)
    (by decide) hpos).2 (by omega)
  refine lt_of_lt_of_le hlog (zpow_le_zpow_right₀ (by norm_num) ?_)
  have hgrid := f.gridExponent_eq hnum hden
  omega

/-- Above the least exponent it is no coarser than that. -/
theorem gridTop_le (hnum : 0 < num) (hden : 0 < den)
    (hmin : f.minExponent < f.gridExponent num den) :
    (2 : ℚ) ^ (f.gridExponent num den + f.precision - 1) ≤ num / den := by
  have hpos : (0 : ℚ) < num / den := by positivity
  refine (Int.zpow_le_iff_le_log (b := 2) (by decide) hpos).2 ?_
  have hgrid := f.gridExponent_eq hnum hden
  omega

theorem gridMantissa_le_top (hnum : 0 < num) (hden : 0 < den) :
    f.gridMantissa num den ≤ 2 ^ f.precision :=
  roundIn_le_pow (by decide) hden (f.lt_gridTop hnum hden)

/-- Whether or not the next grid is reached, the number is the mantissa on the grid. -/
theorem value_nearest (hf : f.Proper) (hnum : 0 < num) (hden : 0 < den) :
    (f.nearest num den).value = f.gridMantissa num den * 2 ^ f.gridExponent num den := by
  rw [nearest]
  split
  · rfl
  · rename_i hreached
    have htop := Nat.le_antisymm (gridMantissa_le_top hnum hden) (Nat.le_of_not_lt hreached)
    exact carry_value (by decide) hf.precision_pos htop

/-- The least number that needs all bits on a grid. -/
theorem gridTop_eq (hf : f.Proper) (e : ℤ) :
    (2 : ℚ) ^ (e + f.precision - 1) = ((2 ^ (f.precision - 1) : ℕ) : ℚ) * 2 ^ e := by
  have hp := hf.precision_pos
  rw [Nat.cast_pow, Nat.cast_ofNat, ← zpow_natCast, ← zpow_add₀ (by norm_num)]
  congr 1
  omega

/-- Above the least exponent a mantissa has all its bits. -/
theorem le_gridMantissa (hf : f.Proper) (hnum : 0 < num) (hden : 0 < den)
    (hmin : f.minExponent < f.gridExponent num den) :
    2 ^ (f.precision - 1) ≤ f.gridMantissa num den := by
  have htop := f.gridTop_le hnum hden hmin
  rw [gridTop_eq hf] at htop
  exact le_roundIn (by decide) hden htop

theorem exists_value_eq {e : ℤ} (h : e ≤ d.exponent) : ∃ k : ℕ, d.value = k * 2 ^ e := by
  refine ⟨d.mantissa * 2 ^ (d.exponent - e).toNat, ?_⟩
  rw [Dyadic.value, Nat.cast_mul, mul_assoc, Nat.cast_pow, Nat.cast_ofNat, ← zpow_natCast,
    ← zpow_add₀ (by norm_num)]
  congr 2
  omega

/-- What a format holds on a finer grid is less than what needs all bits on a coarser one. -/
theorem Holds.value_lt {e : ℤ} (h : f.Holds d) (he : d.exponent < e) :
    d.value < 2 ^ (e + f.precision - 1) := by
  have hmantissa : (d.mantissa : ℚ) < 2 ^ f.precision := by exact_mod_cast h.mantissa_lt
  calc d.value < 2 ^ f.precision * 2 ^ d.exponent := by
        rw [Dyadic.value]
        gcongr
    _ = 2 ^ (d.exponent + f.precision) := by
        rw [← zpow_natCast, ← zpow_add₀ (by norm_num), add_comm]
    _ ≤ 2 ^ (e + f.precision - 1) := zpow_le_zpow_right₀ (by norm_num) (by omega)

/-- **Rounding does not cross what the format holds**, from below. -/
theorem nearest_le (hf : f.Proper) (hnum : 0 < num) (hden : 0 < den) (hd : f.Holds d)
    (h : (num / den : ℚ) ≤ d.value) : (f.nearest num den).value ≤ d.value := by
  rw [value_nearest hf hnum hden]
  rcases le_or_gt (f.gridExponent num den) d.exponent with hcoarse | hfine
  · obtain ⟨k, hk⟩ := exists_value_eq hcoarse
    rw [hk] at h ⊢
    have hle : f.gridMantissa num den ≤ k := roundIn_le (by decide) hden h
    gcongr
  · have htop := f.gridTop_le hnum hden (lt_of_le_of_lt hd.le_exponent hfine)
    exact absurd (h.trans_lt (hd.value_lt hfine)) (not_lt_of_ge htop)

/-- **Nor from above.** -/
theorem le_nearest (hf : f.Proper) (hnum : 0 < num) (hden : 0 < den) (hd : f.Holds d)
    (h : d.value ≤ (num / den : ℚ)) : d.value ≤ (f.nearest num den).value := by
  rw [value_nearest hf hnum hden]
  rcases le_or_gt (f.gridExponent num den) d.exponent with hcoarse | hfine
  · obtain ⟨k, hk⟩ := exists_value_eq hcoarse
    rw [hk] at h ⊢
    have hle : k ≤ f.gridMantissa num den := le_roundIn (by decide) hden h
    gcongr
  · have hle := le_gridMantissa hf hnum hden (lt_of_le_of_lt hd.le_exponent hfine)
    have hbelow := (hd.value_lt hfine).le
    rw [gridTop_eq hf] at hbelow
    exact hbelow.trans (by gcongr)

/-- A mantissa has all its bits unless it is on the finest grid. -/
theorem exponent_nearest_of_lt (hf : f.Proper) (hnum : 0 < num) (hden : 0 < den)
    (h : (f.nearest num den).mantissa < 2 ^ (f.precision - 1)) :
    (f.nearest num den).exponent = f.minExponent := by
  rw [nearest] at h ⊢
  split at h
  · rename_i hbits
    rw [if_pos hbits]
    refine le_antisymm (le_of_not_gt fun hmin => ?_) (le_max_left _ _)
    exact absurd (le_gridMantissa hf hnum hden hmin) (Nat.not_le_of_lt h)
  · exact absurd h (lt_irrefl _)

theorem mantissa_nearest_lt (hf : f.Proper) : (f.nearest num den).mantissa < 2 ^ f.precision := by
  rw [nearest]
  split
  · assumption
  · exact Nat.pow_lt_pow_right (by decide) (Nat.sub_lt hf.precision_pos Nat.one_pos)

theorem minExponent_le_nearest : f.minExponent ≤ (f.nearest num den).exponent := by
  have hgrid : f.minExponent ≤ f.gridExponent num den := le_max_left _ _
  rw [nearest]
  split
  · exact hgrid
  · exact hgrid.trans (Int.le_add_one le_rfl)

/-- The number half a step beyond the largest that a format holds. -/
def upperEnd (f : BinaryFormat) : ℚ := (2 ^ f.precision - 1 / 2) * 2 ^ f.maxExponent

/-- On a finer grid than the last one a number is at most half of the upper end. -/
theorem lt_upperEnd_of_finer (hf : f.Proper) (hnum : 0 < num) (hden : 0 < den)
    (h : f.gridExponent num den < f.maxExponent) : (num / den : ℚ) < f.upperEnd := by
  have hp := hf.precision_pos
  have hone : (1 : ℚ) ≤ 2 ^ (f.precision - 1) := one_le_pow₀ (by norm_num)
  have htwo : (2 : ℚ) ^ f.precision = 2 * 2 ^ (f.precision - 1) := by
    rw [← pow_succ', Nat.sub_add_cancel hp]
  calc (num / den : ℚ) < 2 ^ (f.gridExponent num den + f.precision) := f.lt_gridTop hnum hden
    _ ≤ 2 ^ (f.precision - 1) * 2 ^ f.maxExponent := by
        rw [← zpow_natCast, ← zpow_add₀ (by norm_num)]
        exact zpow_le_zpow_right₀ (by norm_num) (by omega)
    _ ≤ f.upperEnd := by
        rw [upperEnd, htwo]
        gcongr
        linarith

/-- On a coarser grid it lies beyond. -/
theorem upperEnd_lt_of_coarser (hf : f.Proper) (hnum : 0 < num) (hden : 0 < den)
    (h : f.maxExponent < f.gridExponent num den) : f.upperEnd < (num / den : ℚ) := by
  have hmin := hf.exponents_le
  calc f.upperEnd < 2 ^ f.precision * 2 ^ f.maxExponent := by
        rw [upperEnd]
        gcongr
        linarith
    _ ≤ 2 ^ (f.gridExponent num den + f.precision - 1) := by
        rw [← zpow_natCast, ← zpow_add₀ (by norm_num)]
        exact zpow_le_zpow_right₀ (by norm_num) (by omega)
    _ ≤ num / den := f.gridTop_le hnum hden (by omega)

/-- On the last grid it depends on whether the mantissa reaches the next one. -/
theorem gridMantissa_lt_iff (hf : f.Proper) (hden : 0 < den)
    (h : f.gridExponent num den = f.maxExponent) :
    f.gridMantissa num den < 2 ^ f.precision ↔ (num / den : ℚ) < f.upperEnd := by
  have hmax : (0 : ℚ) < 2 ^ f.maxExponent := by positivity
  have hpos : 0 < 2 ^ (f.precision - 1) := Nat.two_pow_pos _
  have hdouble : 2 ^ f.precision = 2 * 2 ^ (f.precision - 1) := by
    rw [← pow_succ', Nat.sub_add_cancel hf.precision_pos]
  have hodd : (2 ^ f.precision - 1) % 2 = 1 := by omega
  have hmiddle : ((2 ^ f.precision - 1 : ℕ) : ℚ) + 1 / 2 = 2 ^ f.precision - 1 / 2 := by
    rw [Nat.cast_sub Nat.one_le_two_pow]
    push_cast
    ring
  have hlast : f.gridMantissa num den < 2 ^ f.precision ↔
      f.gridMantissa num den ≤ 2 ^ f.precision - 1 := by omega
  -- The largest mantissa is odd, so the middle above it goes up.
  rw [hlast, gridMantissa, roundIn_le_iff (by decide) hden, hodd, hmiddle, h, Nat.cast_ofNat,
    div_lt_iff₀ hmax, upperEnd]
  simp

/-- **A quotient is rounded to what the format holds** unless it reaches the upper end. -/
theorem exponent_nearest_le_iff (hf : f.Proper) (hnum : 0 < num) (hden : 0 < den) :
    (f.nearest num den).exponent ≤ f.maxExponent ↔ (num / den : ℚ) < f.upperEnd := by
  rw [nearest]
  rcases lt_trichotomy (f.gridExponent num den) f.maxExponent with hfiner | hlast | hcoarser
  · refine iff_of_true ?_ (lt_upperEnd_of_finer hf hnum hden hfiner)
    split
    · exact hfiner.le
    · exact Int.add_one_le_of_lt hfiner
  · rw [← gridMantissa_lt_iff hf hden hlast, hlast]
    split
    · rename_i hbits
      exact iff_of_true le_rfl hbits
    · rename_i hbits
      exact iff_of_false (not_le_of_gt (Int.lt_succ _)) hbits
  · refine iff_of_false ?_ (not_lt_of_gt (upperEnd_lt_of_coarser hf hnum hden hcoarser))
    split
    · exact not_le_of_gt hcoarser
    · exact not_le_of_gt (hcoarser.trans (Int.lt_succ _))

/-- What a format holds lies below the upper end. -/
theorem Holds.value_lt_upperEnd (h : f.Holds d) : d.value < f.upperEnd := by
  have hmantissa : (d.mantissa : ℚ) + 1 ≤ 2 ^ f.precision := by
    exact_mod_cast Nat.succ_le_of_lt h.mantissa_lt
  calc d.value ≤ d.mantissa * 2 ^ f.maxExponent := by
        rw [Dyadic.value]
        gcongr
        · norm_num
        · exact h.exponent_le
    _ < f.upperEnd := by
        rw [upperEnd]
        gcongr
        linarith

theorem Holds.le_value (h : f.Holds d) (hpos : 0 < d.value) : 2 ^ f.minExponent ≤ d.value := by
  have hmantissa : (1 : ℚ) ≤ d.mantissa := by
    have hzero : d.mantissa ≠ 0 := fun hzero => by simp [Dyadic.value, hzero] at hpos
    exact_mod_cast Nat.pos_of_ne_zero hzero
  calc (2 : ℚ) ^ f.minExponent ≤ 2 ^ d.exponent := zpow_le_zpow_right₀ (by norm_num) h.le_exponent
    _ ≤ d.mantissa * 2 ^ d.exponent := le_mul_of_one_le_left (by positivity) hmantissa

theorem upperEnd_pos (f : BinaryFormat) : 0 < f.upperEnd := by
  have hone : (1 : ℚ) ≤ 2 ^ f.precision := one_le_pow₀ (by norm_num)
  rw [upperEnd]
  exact mul_pos (by linarith) (by positivity)

/-- **What is not rounded** is what reaches the upper end. -/
theorem round_eq_none_iff (hf : f.Proper) (hden : 0 < den) :
    f.round num den = none ↔ f.upperEnd ≤ (num / den : ℚ) := by
  rcases Nat.eq_zero_or_pos num with rfl | hnum
  · have hpos := f.upperEnd_pos
    simp [round, hpos]
  · rw [← not_lt, ← exponent_nearest_le_iff hf hnum hden, round_eq hnum]
    simp

/-- What a quotient is rounded to: nothing if it is zero, and else what is nearest. -/
theorem eq_of_round (h : f.round num den = some r) :
    (num = 0 ∧ r = ⟨0, f.minExponent⟩) ∨
      (0 < num ∧ r = f.nearest num den ∧ r.exponent ≤ f.maxExponent) := by
  rcases Nat.eq_zero_or_pos num with rfl | hnum
  · exact .inl ⟨rfl, by simpa [round] using h.symm⟩
  · rw [round_eq hnum] at h
    split at h
    · rename_i hmax
      obtain rfl := Option.some.inj h
      exact .inr ⟨hnum, rfl, hmax⟩
    · cases h

theorem holds_of_round (hf : f.Proper) (h : f.round num den = some r) : f.Holds r := by
  rcases eq_of_round h with ⟨-, rfl⟩ | ⟨hnum, rfl, hmax⟩
  · exact ⟨Nat.two_pow_pos _, le_rfl, hf.exponents_le⟩
  · exact ⟨mantissa_nearest_lt hf, minExponent_le_nearest, hmax⟩

theorem exponent_of_round (hf : f.Proper) (hden : 0 < den) (h : f.round num den = some r)
    (hlt : r.mantissa < 2 ^ (f.precision - 1)) : r.exponent = f.minExponent := by
  rcases eq_of_round h with ⟨-, rfl⟩ | ⟨hnum, rfl, -⟩
  · rfl
  · exact exponent_nearest_of_lt hf hnum hden hlt

theorem round_le (hf : f.Proper) (hden : 0 < den) (h : f.round num den = some r) (hd : f.Holds d)
    (hle : (num / den : ℚ) ≤ d.value) : r.value ≤ d.value := by
  rcases eq_of_round h with ⟨-, rfl⟩ | ⟨hnum, rfl, -⟩
  · simpa [Dyadic.value] using d.value_nonneg
  · exact nearest_le hf hnum hden hd hle

theorem le_round (hf : f.Proper) (hden : 0 < den) (h : f.round num den = some r) (hd : f.Holds d)
    (hle : d.value ≤ (num / den : ℚ)) : d.value ≤ r.value := by
  rcases eq_of_round h with ⟨rfl, rfl⟩ | ⟨hnum, rfl, -⟩
  · simpa [Dyadic.value] using hle
  · exact le_nearest hf hnum hden hd hle

end BinaryFormat

/-! ## 4.  Decimals -/

namespace Decimal

/-- The number that a decimal stands for. -/
def value (c : Decimal) : ℚ := c.coefficient * 10 ^ c.exponent

theorem denominator_pos (c : Decimal) : 0 < c.denominator := Nat.pow_pos (by decide)

theorem numerator_div_denominator (c : Decimal) : (c.numerator / c.denominator : ℚ) = c.value := by
  have hpow := zpow_eq_div (b := 10) (by decide) c.exponent
  rw [numerator, denominator, value]
  push_cast [Nat.pow_eq] at hpow ⊢
  rw [hpow, mul_div_assoc]

/-- The exponent of the last of `n` significant digits. -/
def lastExponent (n num den : ℕ) : ℤ := Int.log 10 (num / den : ℚ) - n + 1

theorem roundIn_lastExponent_le (n : ℕ) (hnum : 0 < num) (hden : 0 < den) :
    roundIn 10 num den (lastExponent n num den) ≤ 10 ^ n := by
  have hpos : (0 : ℚ) < num / den := by positivity
  refine roundIn_le_pow (by decide) hden ((Int.lt_zpow_iff_log_lt (by decide) hpos).2 ?_)
  rw [lastExponent]
  omega

/-- Whether or not the next power of ten is reached, the number is the coefficient in units of the
last digit. -/
theorem value_significant {n : ℕ} (hn : 0 < n) (hnum : 0 < num) (hden : 0 < den) :
    (significant n num den).value =
      roundIn 10 num den (lastExponent n num den) * 10 ^ lastExponent n num den := by
  have hcases : significant n num den =
      if roundIn 10 num den (lastExponent n num den) < 10 ^ n then
        ⟨roundIn 10 num den (lastExponent n num den), lastExponent n num den⟩
      else ⟨10 ^ (n - 1), lastExponent n num den + 1⟩ := by
    rw [significant, if_neg hnum.ne', floorLog10_eq_log hnum hden]
    rfl
  rw [hcases]
  split
  · rfl
  · rename_i hreached
    have htop := Nat.le_antisymm (roundIn_lastExponent_le n hnum hden) (Nat.le_of_not_lt hreached)
    exact carry_value (by decide) hn htop

/-- Rounding does not go beyond the next power of ten. -/
theorem significant_le_pow {n : ℕ} (hn : 0 < n) (hnum : 0 < num) (hden : 0 < den) :
    (significant n num den).value ≤ 10 ^ (Int.log 10 (num / den : ℚ) + 1) := by
  have htop : (roundIn 10 num den (lastExponent n num den) : ℚ) ≤ 10 ^ n := by
    exact_mod_cast roundIn_lastExponent_le n hnum hden
  calc (significant n num den).value ≤ 10 ^ n * 10 ^ lastExponent n num den := by
        rw [value_significant hn hnum hden]
        gcongr
    _ = 10 ^ (Int.log 10 (num / den : ℚ) + 1) := by
        rw [← zpow_natCast, ← zpow_add₀ (by norm_num), lastExponent]
        congr 1
        ring

end Decimal

end ComHeaders
