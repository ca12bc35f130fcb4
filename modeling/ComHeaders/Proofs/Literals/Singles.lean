import ComHeaders.Literals
import ComHeaders.Proofs.Number.Doubles

/-!
# Which numbers have a literal in single precision

A literal needs a finite value of single precision.  The text is looked for among the numbers of
one digit, of two and so on, and each of them is brought to single precision again before it is
compared.  A number of few digits may be greater than the value, so near the end of the range it
may leave single precision although the value does not.

## 1.  The range

The range ends at `beyond`, half a step above the largest value (`ofDouble?_eq_none_iff`).

## 2.  Attempts

What the search comes to if no attempt leaves the range, and if one does before any reads back.

## 3.  Outcomes

A value up to `34025 * 10 ^ 34` is rounded to numbers that are not greater than that.  One that is
greater is rounded to `3403 * 10 ^ 35` on four digits, which is beyond the range, and on fewer
digits to numbers that are less than the value.  So the search ends well for the former and fails
for the latter, and as all of these have a value (`literal_outcome`), not every value has a
literal.
-/

namespace ComHeaders

namespace Single

open BinaryFormat (single double)

variable {x : Double} {sign : Bool} {d s : Dyadic} {n : ℕ}

/-! ## 1.  The range -/

theorem single_proper : single.Proper := ⟨by decide, by decide⟩

/-- Half a step above the largest value of single precision. -/
def beyond : ℚ := 2 ^ 128 - 2 ^ 103

theorem upperEnd_single : single.upperEnd = beyond := by
  norm_num [BinaryFormat.upperEnd, single, beyond]

/-- **A double has a single-precision value** unless it reaches the end of the range. -/
theorem ofDouble?_eq_none_iff : ofDouble? x = none ↔ beyond ≤ x.absolute := by
  rw [ofDouble?, BinaryFormat.roundDyadic,
    BinaryFormat.round_eq_none_iff single_proper x.magnitude.denominator_pos,
    Dyadic.numerator_div_denominator, upperEnd_single, Double.absolute]

theorem absolute_lt_beyond (h : ofDouble? x = some d) : x.absolute < beyond := by
  refine lt_of_not_ge fun hge => ?_
  rw [ofDouble?_eq_none_iff.2 hge] at h
  cases h

theorem ofDouble?_le {r : Dyadic} (h : ofDouble? x = some s) (hr : single.Holds r)
    (hle : x.absolute ≤ r.value) : s.value ≤ r.value :=
  BinaryFormat.round_le single_proper x.magnitude.denominator_pos h hr
    (x.magnitude.numerator_div_denominator.trans_le hle)

theorem holds_of_ofDouble? (h : ofDouble? x = some s) : single.Holds s :=
  BinaryFormat.holds_of_round single_proper h

/-! ## 2.  Attempts -/

/-- What is tried with `n` digits: the double that the text of the rounded number is read as. -/
def attempt (sign : Bool) (d : Dyadic) (n : ℕ) : Double :=
  (Decimal.significant n d.numerator d.denominator).toDouble sign

/-- The search ends well if no attempt leaves the range. -/
theorem shortestFrom_ok {counts : List ℕ} (h : ∀ n ∈ counts, ofDouble? (attempt sign d n) ≠ none) :
    ∃ y, shortestFrom sign d counts = .ok y := by
  induction counts with
  | nil => exact ⟨_, rfl⟩
  | cons n counts ih =>
    obtain ⟨hn, hcounts⟩ := List.forall_mem_cons.1 h
    obtain ⟨s, hs⟩ := Option.ne_none_iff_exists'.1 hn
    rw [attempt] at hs
    rw [shortestFrom]
    simp only [hs]
    split
    · exact ⟨_, rfl⟩
    · exact ih hcounts

/-- The search fails if an attempt leaves the range and those before it are of other values. -/
theorem shortestFrom_error {before after : List ℕ}
    (hbefore : ∀ k ∈ before, ∃ s, ofDouble? (attempt sign d k) = some s ∧ s.value ≠ d.value)
    (hn : ofDouble? (attempt sign d n) = none) :
    shortestFrom sign d (before ++ n :: after) = .error .outOfRange := by
  induction before with
  | nil =>
    rw [attempt] at hn
    rw [List.nil_append, shortestFrom]
    simp only [hn]
  | cons k before ih =>
    obtain ⟨⟨s, hs, hother⟩, hrest⟩ := List.forall_mem_cons.1 hbefore
    rw [attempt] at hs
    rw [List.cons_append, shortestFrom]
    simp only [hs]
    rw [if_neg (mt Dyadic.sameMagnitude_iff.1 hother)]
    exact ih hrest

/-! ## 3.  Outcomes -/

/-- Where rounding to four digits starts to go up to what is beyond the range. -/
def lastDigits : ℚ := 34025 * 10 ^ 34

/-- In the last decade of the range the last of `n` digits counts so much. -/
theorem zpow_last (n : ℕ) : (10 : ℚ) ^ (39 - n : ℤ) = 10 ^ 34 * 10 ^ 5 / 10 ^ n := by
  rw [zpow_sub₀ (by norm_num), zpow_natCast, ← pow_add]
  rfl

theorem lastExponent_eq (hlow : 10 ^ 38 ≤ d.value) (hhigh : d.value < 10 ^ 39) :
    Decimal.lastExponent n d.numerator d.denominator = 39 - n := by
  have hpos : 0 < d.value := lt_of_lt_of_le (by norm_num) hlow
  have hle := (Int.zpow_le_iff_le_log (b := 10) (x := 38) (by decide) hpos).1
    (by exact_mod_cast hlow)
  have hlt := (Int.lt_zpow_iff_log_lt (b := 10) (x := 39) (by decide) hpos).1
    (by exact_mod_cast hhigh)
  rw [Decimal.lastExponent, d.numerator_div_denominator]
  omega

/-- A bound in units of the fifth digit, brought to `n` digits. -/
theorem significant_le {a m : ℕ} (hlow : 10 ^ 38 ≤ d.value) (hhigh : d.value < 10 ^ 39)
    (hd : d.value ≤ a * 10 ^ 34) (hn : 0 < n)
    (hm : 2 * (a * 10 ^ n) < (2 * m + 1) * 10 ^ 5 ∨
      (2 * (a * 10 ^ n) = (2 * m + 1) * 10 ^ 5 ∧ m % 2 = 0)) :
    (Decimal.significant n d.numerator d.denominator).value ≤ m * 10 ^ (39 - n : ℤ) := by
  have hnum := Dyadic.numerator_pos (lt_of_lt_of_le (by norm_num) hlow)
  rw [Decimal.value_significant hn hnum d.denominator_pos, lastExponent_eq hlow hhigh]
  have hscaled : d.value / 10 ^ (39 - n : ℤ) ≤ a * 10 ^ n / 10 ^ 5 := by
    calc d.value / 10 ^ (39 - n : ℤ) ≤ a * 10 ^ 34 / 10 ^ (39 - n : ℤ) := by gcongr
      _ = a * 10 ^ n / 10 ^ 5 := by
        rw [zpow_last]
        field_simp
  have hround : roundIn 10 d.numerator d.denominator (39 - n) ≤ m := by
    rw [roundIn_le_iff (by decide) d.denominator_pos, d.numerator_div_denominator, Nat.cast_ofNat]
    rcases hm with hlt | ⟨heq, heven⟩
    · have hlt' : (a * 10 ^ n / 10 ^ 5 : ℚ) < m + 1 / 2 := by
        have hcast : (2 * (a * 10 ^ n) : ℚ) < (2 * m + 1) * 10 ^ 5 := by exact_mod_cast hlt
        rw [div_lt_iff₀ (by norm_num)]
        linarith
      exact .inl (hscaled.trans_lt hlt')
    · have heq' : (a * 10 ^ n / 10 ^ 5 : ℚ) = m + 1 / 2 := by
        have hcast : (2 * (a * 10 ^ n) : ℚ) = (2 * m + 1) * 10 ^ 5 := by exact_mod_cast heq
        rw [div_eq_iff (by norm_num)]
        linarith
      rcases lt_or_eq_of_le (hscaled.trans_eq heq') with hlt' | heq'
      · exact .inl hlt'
      · exact .inr ⟨heq', heven⟩
  gcongr

theorem mul_zpow_le {a m : ℕ} (h : m * 10 ^ 5 ≤ a * 10 ^ n) :
    (m * 10 ^ (39 - n : ℤ) : ℚ) ≤ a * 10 ^ 34 := by
  have hcast : (m * 10 ^ 5 : ℚ) ≤ a * 10 ^ n := by exact_mod_cast h
  rw [zpow_last, mul_div_assoc', div_le_iff₀ (by positivity)]
  nlinarith

/-- Up to that bound, no count of digits leads above it. -/
theorem significant_le_lastDigits (hn : n ∈ digitCounts) (hd : d.value ≤ lastDigits) :
    (Decimal.significant n d.numerator d.denominator).value ≤ lastDigits := by
  have hpositive : ∀ k ∈ digitCounts, 0 < k := by decide
  have hn' := hpositive n hn
  rcases Nat.eq_zero_or_pos d.numerator with hzero | hnum
  · rw [Decimal.significant, if_pos hzero]
    norm_num [Decimal.value, lastDigits]
  · -- Below the last decade the next power of ten is a bound; in it, each count has its own.
    rcases lt_or_ge d.value (10 ^ 38) with hsmall | hlow
    · have hpos : 0 < d.value := by
        have hnum' : (0 : ℚ) < d.numerator := by exact_mod_cast hnum
        have hden' : (0 : ℚ) < d.denominator := by exact_mod_cast d.denominator_pos
        rw [← d.numerator_div_denominator]
        exact div_pos hnum' hden'
      have hlog : Int.log 10 d.value < 38 :=
        (Int.lt_zpow_iff_log_lt (by decide) hpos).1 (by exact_mod_cast hsmall)
      have hdecade := Decimal.significant_le_pow hn' hnum d.denominator_pos
      rw [d.numerator_div_denominator] at hdecade
      calc (Decimal.significant n d.numerator d.denominator).value
          ≤ 10 ^ (Int.log 10 d.value + 1) := hdecade
        _ ≤ 10 ^ (38 : ℤ) := zpow_le_zpow_right₀ (by norm_num) (by omega)
        _ ≤ lastDigits := by norm_num [lastDigits]
    · have hhigh : d.value < 10 ^ 39 := hd.trans_lt (by norm_num [lastDigits])
      have hhalf : ∀ k ∈ digitCounts,
          2 * (34025 * 10 ^ k) < (2 * (34025 * 10 ^ k / 10 ^ 5) + 1) * 10 ^ 5 ∨
            (2 * (34025 * 10 ^ k) = (2 * (34025 * 10 ^ k / 10 ^ 5) + 1) * 10 ^ 5 ∧
              34025 * 10 ^ k / 10 ^ 5 % 2 = 0) := by decide
      exact (significant_le hlow hhigh hd hn' (hhalf n hn)).trans
        (mul_zpow_le (Nat.div_mul_le_self _ _))

/-- The largest value of single precision. -/
def largest : Dyadic := ⟨2 ^ 24 - 1, 104⟩

/-- **Up to that bound no attempt leaves the range.** -/
theorem attempt_ne_none (hn : n ∈ digitCounts) (hd : d.value ≤ lastDigits) :
    ofDouble? (attempt sign d n) ≠ none := by
  have hlargest : double.Holds largest := ⟨by decide, by decide, by decide⟩
  have hreaches : lastDigits ≤ largest.value := by
    norm_num [lastDigits, Dyadic.value, largest]
  have hinside : largest.value < beyond := by
    norm_num [beyond, Dyadic.value, largest]
  have hread : (attempt sign d n).absolute ≤ largest.value :=
    Decimal.toDouble_le hlargest ((significant_le_lastDigits hn hd).trans hreaches)
  exact mt ofDouble?_eq_none_iff.1 (not_le_of_gt (hread.trans_lt hinside))

/-- The least value of single precision from `34 * 10 ^ 37` on. -/
def short : Dyadic := ⟨16763295, 104⟩

/-- Beyond the bound, fewer than four digits are of a lesser value. -/
theorem attempt_below (hn : n ∈ [1, 2, 3]) (hlow : lastDigits < d.value)
    (hhigh : d.value < beyond) :
    ∃ s, ofDouble? (attempt sign d n) = some s ∧ s.value ≠ d.value := by
  have hdouble : double.Holds short := ⟨by decide, by decide, by decide⟩
  have hsingle : single.Holds short := ⟨by decide, by decide, by decide⟩
  have hreaches : ((34000 : ℕ) * 10 ^ 34 : ℚ) ≤ short.value := by
    norm_num [Dyadic.value, short]
  have hshort : short.value < lastDigits := by
    norm_num [lastDigits, Dyadic.value, short]
  have hinside : short.value < beyond := by
    norm_num [beyond, Dyadic.value, short]
  have hpositive : ∀ k ∈ [1, 2, 3], 0 < k := by decide
  have hhalf : ∀ k ∈ [1, 2, 3],
      2 * (34029 * 10 ^ k) < (2 * (34000 * 10 ^ k / 10 ^ 5) + 1) * 10 ^ 5 := by decide
  have hdigits : (Decimal.significant n d.numerator d.denominator).value ≤
      (34000 * 10 ^ n / 10 ^ 5 : ℕ) * 10 ^ (39 - n : ℤ) := by
    refine significant_le (a := 34029) ?_ ?_ ?_ (hpositive n hn) (.inl (hhalf n hn))
    · exact (lt_of_le_of_lt (by norm_num [lastDigits]) hlow).le
    · exact hhigh.trans (by norm_num [beyond])
    · exact (hhigh.trans (by norm_num [beyond])).le
  have hread : (attempt sign d n).absolute ≤ short.value := Decimal.toDouble_le hdouble
    (hdigits.trans ((mul_zpow_le (Nat.div_mul_le_self _ _)).trans hreaches))
  obtain ⟨s, hs⟩ := Option.ne_none_iff_exists'.1
    (mt ofDouble?_eq_none_iff.1 (not_le_of_gt (hread.trans_lt hinside)))
  have hle := ofDouble?_le hs hsingle hread
  exact ⟨s, hs, ((hle.trans_lt hshort).trans hlow).ne⟩

/-- The number in the middle between the largest value of single precision and what would follow
it. -/
def top : Dyadic := ⟨2 ^ 25 - 1, 103⟩

/-- **Beyond the bound, four digits leave the range.** -/
theorem attempt_four (hlow : lastDigits < d.value) (hhigh : d.value < beyond) :
    ofDouble? (attempt sign d 4) = none := by
  have htop : double.Holds top := ⟨by decide, by decide, by decide⟩
  have hend : top.value = beyond := by norm_num [Dyadic.value, top, beyond]
  have hlow' : 10 ^ 38 ≤ d.value := (lt_of_le_of_lt (by norm_num [lastDigits]) hlow).le
  have hnum := Dyadic.numerator_pos (lt_of_lt_of_le (by norm_num) hlow')
  have hlast := lastExponent_eq (n := 4) hlow' (hhigh.trans (by norm_num [beyond]))
  have hround : 3403 ≤ roundIn 10 d.numerator d.denominator (39 - (4 : ℕ)) := by
    refine Nat.lt_of_not_le fun hle => ?_
    rw [roundIn_le_iff (by decide) d.denominator_pos, d.numerator_div_denominator] at hle
    have hscaled : (3402 + 1 / 2 : ℚ) < d.value / ((10 : ℕ) : ℚ) ^ (39 - (4 : ℕ) : ℤ) := by
      rw [lt_div_iff₀ (by positivity)]
      refine lt_of_eq_of_lt ?_ hlow
      norm_num [lastDigits]
    rcases hle with hlt | ⟨heq, -⟩
    · exact absurd hlt (not_lt_of_gt (by exact_mod_cast hscaled))
    · exact absurd heq (by exact_mod_cast hscaled.ne')
  have hvalue : top.value ≤ (Decimal.significant 4 d.numerator d.denominator).value := by
    rw [Decimal.value_significant (by decide) hnum d.denominator_pos, hlast]
    calc top.value ≤ 3403 * 10 ^ (39 - (4 : ℕ) : ℤ) := by norm_num [Dyadic.value, top]
      _ ≤ _ := by
        gcongr
        exact_mod_cast hround
  exact ofDouble?_eq_none_iff.2 (hend.symm.trans_le (Decimal.le_toDouble htop hvalue))

theorem search_ends_well (hd : d.value ≤ lastDigits) :
    ∃ y, shortestFrom sign d digitCounts = .ok y :=
  shortestFrom_ok fun _ hn => attempt_ne_none hn hd

theorem search_fails (hlow : lastDigits < d.value) (hhigh : d.value < beyond) :
    shortestFrom sign d digitCounts = .error .outOfRange := by
  have herror : shortestFrom sign d ([1, 2, 3] ++ 4 :: [5, 6, 7, 8, 9]) = .error .outOfRange :=
    shortestFrom_error (fun n hn => attempt_below hn hlow hhigh) (attempt_four hlow hhigh)
  exact herror

/-- The middle between the last value of single precision up to that bound and the next one. -/
def lastWritten : ℚ := 33551241 * 2 ^ 103

/-- In the last binade of the range the grid is that of the largest values. -/
theorem gridExponent_eq (hlow : 2 ^ 127 ≤ x.absolute) (hhigh : x.absolute < beyond) :
    single.gridExponent x.magnitude.numerator x.magnitude.denominator = 104 := by
  have hpos : 0 < x.absolute := lt_of_lt_of_le (by norm_num) hlow
  have hle := (Int.zpow_le_iff_le_log (b := 2) (x := 127) (by decide) hpos).1
    (by exact_mod_cast hlow)
  have hlt := (Int.lt_zpow_iff_log_lt (b := 2) (x := 128) (by decide) hpos).1
    (by exact_mod_cast hhigh.trans (by norm_num [beyond]))
  rw [BinaryFormat.gridExponent_eq (Dyadic.numerator_pos hpos) x.magnitude.denominator_pos,
    x.magnitude.numerator_div_denominator]
  simp only [Double.absolute, single] at hle hlt ⊢
  omega

/-- So there the value has the double's mantissa on this grid. -/
theorem value_eq_of_lastBinade (h : ofDouble? x = some d) (hlow : 2 ^ 127 ≤ x.absolute) :
    d.value = roundIn 2 x.magnitude.numerator x.magnitude.denominator 104 * 2 ^ (104 : ℤ) := by
  have hnum := Dyadic.numerator_pos (lt_of_lt_of_le (by norm_num) hlow)
  have hgrid := gridExponent_eq hlow (absolute_lt_beyond h)
  rcases BinaryFormat.eq_of_round h with ⟨hzero, -⟩ | ⟨-, rfl, -⟩
  · exact absurd hzero hnum.ne'
  · rw [BinaryFormat.value_nearest single_proper hnum x.magnitude.denominator_pos,
      BinaryFormat.gridMantissa, hgrid]

/-- The last mantissa up to the bound is `16775620`. -/
theorem mul_le_lastDigits_iff : (n * 2 ^ (104 : ℤ) : ℚ) ≤ lastDigits ↔ n ≤ 16775620 := by
  constructor
  · intro hle
    have hlt : lastDigits < 16775621 * 2 ^ (104 : ℤ) := by norm_num [lastDigits]
    refine Nat.le_of_lt_succ ?_
    exact_mod_cast lt_of_mul_lt_mul_right (hle.trans_lt hlt) (by positivity)
  · intro hle
    have hcast : (n : ℚ) ≤ 16775620 := by exact_mod_cast hle
    calc (n * 2 ^ (104 : ℤ) : ℚ) ≤ 16775620 * 2 ^ (104 : ℤ) := by gcongr
      _ ≤ lastDigits := by norm_num [lastDigits]

/-- The bound, as one on the double. -/
theorem value_le_lastDigits_iff (h : ofDouble? x = some d) :
    d.value ≤ lastDigits ↔ x.absolute ≤ lastWritten := by
  rcases lt_or_ge x.absolute (2 ^ 127) with hsmall | hlow
  · have hpower : single.Holds ⟨2 ^ 23, 104⟩ := ⟨by decide, by decide, by decide⟩
    have hvalue : Dyadic.value ⟨2 ^ 23, 104⟩ = 2 ^ 127 := by norm_num [Dyadic.value]
    have hle := ofDouble?_le h hpower (hsmall.le.trans_eq hvalue.symm)
    refine iff_of_true ((hle.trans_eq hvalue).trans ?_) (hsmall.le.trans ?_)
    · norm_num [lastDigits]
    · norm_num [lastWritten]
  · have hmiddle : ((16775620 : ℕ) + 1 / 2 : ℚ) * 2 ^ (104 : ℤ) = lastWritten := by
      norm_num [lastWritten]
    rw [value_eq_of_lastBinade h hlow, mul_le_lastDigits_iff,
      roundIn_le_iff (by decide) x.magnitude.denominator_pos,
      x.magnitude.numerator_div_denominator, Nat.cast_ofNat, div_lt_iff₀ (by positivity),
      div_eq_iff (by positivity), hmiddle, le_iff_lt_or_eq, Double.absolute]
    -- That mantissa is even, so the middle itself belongs to it.
    simp

/-- **What becomes of a number**: not a literal if it is not finite or beyond the range, nor if it
is so close to the end of the range that four digits leave it; but one in all other cases. -/
theorem literal_outcome (x : Double) :
    (literal x = .error (.literal (.notFinite x)) ↔ x.isFinite = false) ∧
      (literal x = .error (.literal (.beyondSingle x)) ↔
        x.isFinite = true ∧ beyond ≤ x.absolute) ∧
      (literal x = .error (.fault .outOfRange) ↔
        x.isFinite = true ∧ lastWritten < x.absolute ∧ x.absolute < beyond) ∧
      ((∃ text, literal x = .ok text) ↔ x.isFinite = true ∧ x.absolute ≤ lastWritten) := by
  have hends : lastWritten < beyond := by norm_num [lastWritten, beyond]
  rw [literal]
  rcases hfinite : x.isFinite with _ | _
  · simp
  · rcases hsingle : ofDouble? x with _ | d
    · have hbeyond := ofDouble?_eq_none_iff.1 hsingle
      simp [hbeyond, not_lt_of_ge hbeyond, not_le_of_gt (hends.trans_le hbeyond)]
    · have hbeyond := absolute_lt_beyond hsingle
      rcases le_or_gt x.absolute lastWritten with hwritten | hlost
      · obtain ⟨y, hy⟩ : ∃ y, shortestFrom x.negative d digitCounts = .ok y :=
          search_ends_well ((value_le_lastDigits_iff hsingle).2 hwritten)
        simp [hy, not_le_of_gt hbeyond, not_lt_of_ge hwritten, hwritten]
      · have hlow := lt_of_not_ge (mt (value_le_lastDigits_iff hsingle).1 (not_le_of_gt hlost))
        have hhigh := (holds_of_ofDouble? hsingle).value_lt_upperEnd.trans_eq upperEnd_single
        have herror : shortestFrom x.negative d digitCounts = .error .outOfRange :=
          search_fails hlow hhigh
        simp [herror, not_le_of_gt hbeyond, not_le_of_gt hlost, hlost, hbeyond]

/-- The largest value of single precision, as a double. -/
def largestDouble : Double := ⟨0x47EFFFFFE0000000⟩

/-- **Not every value of single precision has a literal.** -/
theorem literal_largest :
    ¬ ∀ x : Double, x.isFinite = true → (ofDouble? x).isSome = true →
      ∃ text, literal x = .ok text := by
  intro h
  obtain ⟨text, htext⟩ := h largestDouble rfl rfl
  cases htext

end Single

end ComHeaders
