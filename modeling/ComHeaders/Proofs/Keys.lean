import ComHeaders.Metadata.TypeRef
import Mathlib.Data.Nat.Basic

/-!
# Keys

What a session remembers is kept under references, and references are compared by
`TypeRef.sameKey`.  Memory is of use only if that is an equivalence relation: a reference has to
be found under itself, and references that lead to one entry have to lead to the same entry
whatever was remembered first.  The numbers make this a question, since a truth value, an integer
and a double can be the same key.

## 1.  Doubles

A finite double is a whole number of units, the unit being the least positive double.  The number
of units determines the double up to the sign of zero (`fields_eq_of_units_eq`), and a double
equals an integer if it has as many units (`eqInt_iff`).

## 2.  Values

`Value.standing` sends a key to what it stands for, and two keys are the same if they stand for
the same (`Value.sameKey_iff`).

## 3.  References

References that are keys are compared part by part, so the same holds for them.
-/

namespace ComHeaders

namespace Double

/-! ## 1.  Doubles -/

/-- The magnitude of a finite double, in units of the least positive one. -/
def units (x : Double) : Nat :=
  if x.exponentField = 0 then x.fraction
  else (x.fraction + hiddenBit) * Nat.pow 2 (x.exponentField - 1)

theorem fraction_lt (x : Double) : x.fraction < hiddenBit :=
  Nat.mod_lt _ (by decide)

/-- A greater exponent outweighs any fraction. -/
theorem units_lt_units {x y : Double} (h : x.exponentField < y.exponentField) :
    x.units < y.units := by
  have hx := x.fraction_lt
  have hy : y.units = (y.fraction + hiddenBit) * 2 ^ (y.exponentField - 1) :=
    if_neg (by omega)
  have hbelow : hiddenBit * 2 ^ (y.exponentField - 1) ≤ y.units := by
    rw [hy]
    exact Nat.mul_le_mul_right _ (Nat.le_add_left _ _)
  refine Nat.lt_of_lt_of_le ?_ hbelow
  rw [units]
  split
  · exact Nat.lt_of_lt_of_le hx (Nat.le_mul_of_pos_right _ (Nat.two_pow_pos _))
  · have hpow : 2 * 2 ^ (x.exponentField - 1) ≤ 2 ^ (y.exponentField - 1) := by
      rw [← Nat.pow_succ']
      exact Nat.pow_le_pow_right (by decide) (by omega)
    calc (x.fraction + hiddenBit) * 2 ^ (x.exponentField - 1)
        < (2 * hiddenBit) * 2 ^ (x.exponentField - 1) :=
          Nat.mul_lt_mul_of_pos_right (by omega) (Nat.two_pow_pos _)
      _ = hiddenBit * (2 * 2 ^ (x.exponentField - 1)) := by
          rw [Nat.mul_comm 2, Nat.mul_assoc]
      _ ≤ hiddenBit * 2 ^ (y.exponentField - 1) := Nat.mul_le_mul_left _ hpow

/-- **The number of units determines the fields.** -/
theorem fields_eq_of_units_eq {x y : Double} (h : x.units = y.units) :
    x.exponentField = y.exponentField ∧ x.fraction = y.fraction := by
  have hexponent : x.exponentField = y.exponentField := by
    rcases Nat.lt_trichotomy x.exponentField y.exponentField with hlt | heq | hgt
    · exact absurd h (Nat.ne_of_lt (units_lt_units hlt))
    · exact heq
    · exact absurd h.symm (Nat.ne_of_lt (units_lt_units hgt))
  refine ⟨hexponent, ?_⟩
  rw [units, units, hexponent] at h
  split at h
  · exact h
  · have hsum := Nat.mul_right_cancel (Nat.two_pow_pos _) h
    omega

/-- The sign and the fields are all there is to a double. -/
theorem eq_of_fields {x y : Double} (hsign : x.negative = y.negative)
    (hexponent : x.exponentField = y.exponentField) (hfraction : x.fraction = y.fraction) :
    x = y := by
  have hx := x.bits.toNat_lt
  have hy := y.bits.toNat_lt
  have hsign := decide_eq_decide.1 hsign
  simp only [exponentField, fraction, signBit, hiddenBit] at *
  have hbits : x.bits.toNat = y.bits.toNat := by omega
  obtain ⟨a⟩ := x
  obtain ⟨b⟩ := y
  exact congrArg Double.mk (UInt64.toNat_inj.1 hbits)

/-- The value of a finite double in those units. -/
def value (x : Double) : Int :=
  if x.negative then -x.units else x.units

theorem units_eq_zero_iff {x : Double} : x.units = 0 ↔ x.isZero = true := by
  rw [units, isZero]
  by_cases h : x.exponentField = 0
  · simp [h]
  · have hpos : 0 < (x.fraction + hiddenBit) * 2 ^ (x.exponentField - 1) :=
      Nat.mul_pos (Nat.add_pos_right _ (by decide)) (Nat.two_pow_pos _)
    simp [h, Nat.ne_of_gt hpos]

/-- Doubles of one value are equal or zeros. -/
theorem eq_or_zero_of_value_eq {x y : Double} (h : x.value = y.value) :
    x = y ∨ (x.isZero = true ∧ y.isZero = true) := by
  have hunits : x.units = y.units := by
    rw [value, value] at h
    split at h <;> split at h <;> omega
  obtain ⟨hexponent, hfraction⟩ := fields_eq_of_units_eq hunits
  by_cases hsign : x.negative = y.negative
  · exact .inl (eq_of_fields hsign hexponent hfraction)
  · refine .inr ?_
    rw [← units_eq_zero_iff, ← units_eq_zero_iff, ← hunits, and_self]
    rw [value, value, hunits] at h
    -- Of different signs the two have opposite values, so both are zero.
    split at h <;> split at h <;> first | omega | simp_all

theorem value_eq_of_zero {x : Double} (h : x.isZero = true) : x.value = 0 := by
  rw [value, units_eq_zero_iff.2 h]
  split <;> rfl

/-- The binary logarithm of the number of units in one. -/
def unitDigits : Nat := 1074

/-- The number of units in one. -/
def unitsInOne : Nat := Nat.pow 2 unitDigits

theorem unitsInOne_pos : 0 < unitsInOne := by
  unfold unitsInOne
  generalize unitDigits = digits
  exact Nat.two_pow_pos digits

/-- A magnitude is written as a quotient; this is the quotient in units. -/
theorem numerator_mul (x : Double) :
    x.magnitude.numerator * unitsInOne = x.units * x.magnitude.denominator := by
  rw [units, magnitude]
  unfold unitsInOne
  split
  · simp only [Dyadic.numerator, Dyadic.denominator, Nat.pow_eq]
    have hdigits : (-1074 : Int).toNat + unitDigits = (- -1074 : Int).toNat := rfl
    rw [Nat.mul_assoc, ← Nat.pow_add, hdigits]
  · simp only [Dyadic.numerator, Dyadic.denominator, Nat.pow_eq]
    rw [Nat.mul_assoc, Nat.mul_assoc, ← Nat.pow_add, ← Nat.pow_add]
    congr 2
    simp only [unitDigits]
    omega

theorem numerator_eq_iff {x : Double} {q : Nat} :
    x.magnitude.numerator = x.magnitude.denominator * q ↔ x.units = q * unitsInOne := by
  have hden : 0 < x.magnitude.denominator := Nat.two_pow_pos _
  have hmul := x.numerator_mul
  constructor
  · intro h
    rw [h, Nat.mul_comm x.units, Nat.mul_assoc] at hmul
    exact (Nat.eq_of_mul_eq_mul_left hden hmul).symm
  · intro h
    rw [h, Nat.mul_assoc, Nat.mul_comm unitsInOne, ← Nat.mul_assoc] at hmul
    rw [Nat.eq_of_mul_eq_mul_right unitsInOne_pos hmul, Nat.mul_comm]

/-- **A double equals an integer if it has as many units.** -/
theorem eqInt_iff {x : Double} {i : Int} :
    x.eqInt i = true ↔ x.isFinite = true ∧ x.value = i * unitsInOne := by
  have hden : 0 < x.magnitude.denominator := Nat.two_pow_pos _
  have hone : (unitsInOne : Int) ≠ 0 := Int.natCast_ne_zero.2 (Nat.ne_of_gt unitsInOne_pos)
  simp only [eqInt, truncate, value, Bool.and_eq_true, beq_iff_eq, and_assoc]
  refine and_congr_right fun _ => ⟨fun ⟨hmod, htruncate⟩ => ?_, fun hvalue => ?_⟩
  · have hunits := numerator_eq_iff.1 (Nat.mul_div_cancel' (Nat.dvd_of_mod_eq_zero hmod)).symm
    rw [← htruncate, hunits]
    split
    · rw [Int.neg_mul, Int.natCast_mul]
    · rw [Int.natCast_mul]
  · have hunits : x.units = i.natAbs * unitsInOne := by
      have habs := congrArg Int.natAbs hvalue
      rw [Int.natAbs_mul, Int.natAbs_natCast] at habs
      rw [← habs]
      split
      · rw [Int.natAbs_neg, Int.natAbs_natCast]
      · rw [Int.natAbs_natCast]
    have hnumerator := numerator_eq_iff.2 hunits
    rw [hnumerator, Nat.mul_mod_right, Nat.mul_div_cancel_left _ hden]
    refine ⟨rfl, ?_⟩
    refine Int.eq_of_mul_eq_mul_right hone ?_
    rw [← hvalue, hunits, Int.natCast_mul, apply_ite (· * (unitsInOne : Int)), Int.neg_mul]

end Double

/-! ## 2.  Values -/

/-- What a key can stand for. -/
inductive Standing where
  | null
  | text (s : String)
  | notANumber
  | infinite (negative : Bool)
  /-- A number, in the units of doubles. -/
  | number (units : Int)
  deriving DecidableEq

namespace Double

/-- What a double stands for. -/
def standing (x : Double) : Standing :=
  if x.isNaN then .notANumber
  else if x.isInfinite then .infinite x.negative
  else .number x.value

theorem standing_of_isFinite {x : Double} (h : x.isFinite = true) :
    x.standing = .number x.value := by
  have hfield : (x.exponentField == 2047) = false := by simpa [isFinite] using h
  rw [standing, isNaN, isInfinite, hfield]
  rfl

theorem isFinite_of_standing {x : Double} {k : Int} (h : x.standing = .number k) :
    x.isFinite = true ∧ x.value = k := by
  rw [standing] at h
  split at h
  · simp at h
  · split at h
    · simp at h
    · rename_i hnan hinf
      refine ⟨?_, by simpa using h⟩
      rw [isNaN] at hnan
      rw [isInfinite] at hinf
      rw [isFinite]
      rcases hfield : x.exponentField == 2047 with _ | _
      · simpa using hfield
      · rcases hfraction : x.fraction == 0 with _ | _ <;> simp_all

theorem eqInt_iff_standing {x : Double} {i : Int} :
    x.eqInt i = true ↔ x.standing = .number (i * unitsInOne) := by
  rw [eqInt_iff]
  constructor
  · rintro ⟨hfinite, hvalue⟩
    rw [standing_of_isFinite hfinite, hvalue]
  · exact isFinite_of_standing

theorem standing_eq_notANumber_iff {x : Double} :
    x.standing = .notANumber ↔ x.isNaN = true := by
  rw [standing]
  split
  · simpa
  · split <;> simpa using ‹¬x.isNaN = true›

theorem isInfinite_of_standing {x : Double} {negative : Bool}
    (h : x.standing = .infinite negative) : x.isInfinite = true ∧ x.negative = negative := by
  rw [standing] at h
  split at h
  · simp at h
  · split at h
    · rename_i hinf
      exact ⟨hinf, by simpa using h⟩
    · simp at h

theorem standing_of_isZero {x : Double} (h : x.isZero = true) : x.standing = .number 0 := by
  have hfinite : x.isFinite = true := by
    have hfield : x.exponentField = 0 := by
      rw [isZero, Bool.and_eq_true, beq_iff_eq] at h
      exact h.1
    rw [isFinite, hfield]
    rfl
  rw [standing_of_isFinite hfinite, value_eq_of_zero h]

theorem standing_ne_null (x : Double) : x.standing ≠ .null := by
  rw [standing]
  split
  · simp
  · split <;> simp

theorem standing_ne_text (x : Double) (s : String) : x.standing ≠ .text s := by
  rw [standing]
  split
  · simp
  · split <;> simp

/-- Two doubles are the same key if they stand for the same. -/
theorem sameKey_iff {x y : Double} :
    x.valueEq y = true ∨ (x.isNaN = true ∧ y.isNaN = true) ↔ x.standing = y.standing := by
  simp only [valueEq, Bool.and_eq_true, Bool.or_eq_true, beq_iff_eq, Bool.not_eq_true']
  constructor
  · rintro (⟨-, rfl | ⟨hx, hy⟩⟩ | ⟨hx, hy⟩)
    · rfl
    · rw [standing_of_isZero hx, standing_of_isZero hy]
    · rw [standing_eq_notANumber_iff.2 hx, standing_eq_notANumber_iff.2 hy]
  · intro h
    rcases hs : x.standing with _ | s | _ | negative | k
    · exact absurd hs x.standing_ne_null
    · exact absurd hs (x.standing_ne_text s)
    · exact .inr ⟨standing_eq_notANumber_iff.1 hs, standing_eq_notANumber_iff.1 (h ▸ hs)⟩
    all_goals
      have hnan : x.isNaN = false := by
        rw [Bool.eq_false_iff, ne_eq, ← standing_eq_notANumber_iff, hs]
        simp
    · obtain ⟨hx, hxsign⟩ := isInfinite_of_standing hs
      obtain ⟨hy, hysign⟩ := isInfinite_of_standing (h ▸ hs)
      rw [isInfinite, Bool.and_eq_true, beq_iff_eq, beq_iff_eq] at hx hy
      exact .inl ⟨hnan, .inl (eq_of_fields (hxsign.trans hysign.symm)
        (hx.1.trans hy.1.symm) (hx.2.trans hy.2.symm))⟩
    · exact .inl ⟨hnan, eq_or_zero_of_value_eq ((isFinite_of_standing hs).2.trans
        (isFinite_of_standing (h ▸ hs)).2.symm)⟩

end Double

namespace Value

/-- What a key stands for. -/
def standing : Value → Option Standing
  | null => some .null
  | bool b => some (.number (b.toInt * Double.unitsInOne))
  | int i => some (.number (i * Double.unitsInOne))
  | float x => some x.standing
  | str s => some (.text s)
  | list _ | object _ => none

theorem mul_unitsInOne_inj {i j : Int} :
    i * (Double.unitsInOne : Int) = j * Double.unitsInOne ↔ i = j := by
  have hone : (Double.unitsInOne : Int) ≠ 0 :=
    Int.natCast_ne_zero.2 (Nat.ne_of_gt Double.unitsInOne_pos)
  exact ⟨Int.eq_of_mul_eq_mul_right hone, fun h => h ▸ rfl⟩

theorem toInt_inj {a b : Bool} : a.toInt = b.toInt ↔ a = b := by
  cases a <;> cases b <;> decide

/-- **Two keys are the same if they stand for the same.** -/
theorem sameKey_iff {a b : Value} (ha : a.isKey = true) :
    a.sameKey b = true ↔ a.standing = b.standing := by
  rcases a with _ | a | a | a | a | _ | _ <;> rcases b with _ | b | b | b | b | _ | _ <;>
    simp only [isKey, sameKey, standing, reduceCtorEq, Bool.or_eq_true, Bool.and_eq_true,
      beq_iff_eq, Option.some.injEq, Standing.number.injEq, Standing.text.injEq,
      Double.sameKey_iff, Double.eqInt_iff_standing, mul_unitsInOne_inj, toInt_inj,
      Double.standing_ne_null, Double.standing_ne_text, (Double.standing_ne_null _).symm,
      (Double.standing_ne_text _ _).symm] at ha ⊢
  all_goals exact eq_comm

theorem isKey_of_sameKey {a b : Value} (hb : b.isKey = true) (h : a.sameKey b = true) :
    a.isKey = true := by
  rcases a with _ | _ | _ | _ | _ | _ | _ <;> first | rfl | skip
  all_goals rcases b with _ | _ | _ | _ | _ | _ | _ <;> simp [isKey, sameKey] at hb h

theorem sameKey_refl {a : Value} (ha : a.isKey = true) : a.sameKey a = true :=
  (sameKey_iff ha).2 rfl

theorem sameKey_of_common {a b c : Value} (hc : c.isKey = true) (ha : a.sameKey c = true)
    (hb : b.sameKey c = true) : a.sameKey b = true :=
  (sameKey_iff (isKey_of_sameKey hc ha)).2
    (((sameKey_iff (isKey_of_sameKey hc ha)).1 ha).trans
      ((sameKey_iff (isKey_of_sameKey hc hb)).1 hb).symm)

theorem sameKey_str {v : Value} {k : String} : v.sameKey (.str k) = true ↔ v = .str k := by
  rcases v with _ | _ | _ | _ | n | _ | _ <;> simp [sameKey]

theorem equals_str {v : Value} {k : String} : v.equals (.str k) = true ↔ v = .str k := by
  rcases v with _ | _ | _ | _ | n | _ | _ <;> simp [equals, sameKey]

end Value

/-! ## 3.  References -/

namespace TypeRef

theorem sameKey_refl {r : TypeRef} (hr : r.isKey = true) : r.sameKey r = true := by
  induction r with
  | void => rfl
  | primitive n => exact Value.sameKey_refl hr
  | pointer element ih => exact ih hr
  | array element length ih => simp [sameKey, ih hr]
  | named ns n d v =>
    simp only [isKey, Bool.and_eq_true] at hr
    simp [sameKey, Value.sameKey_refl hr.1.1, Value.sameKey_refl hr.1.2, Value.sameKey_refl hr.2]

/-- **References that are the same key as a third are the same key.** -/
theorem sameKey_of_common {a b c : TypeRef} (hc : c.isKey = true) (ha : a.sameKey c = true)
    (hb : b.sameKey c = true) : a.sameKey b = true := by
  induction c generalizing a b with
  | void =>
    cases a <;> simp [sameKey] at ha
    cases b <;> simp [sameKey] at hb
    rfl
  | primitive n =>
    cases a <;> simp only [sameKey, Bool.false_eq_true] at ha
    cases b <;> simp only [sameKey, Bool.false_eq_true] at hb
    exact Value.sameKey_of_common hc ha hb
  | pointer element ih =>
    cases a <;> simp only [sameKey, Bool.false_eq_true] at ha
    cases b <;> simp only [sameKey, Bool.false_eq_true] at hb
    rw [sameKey]
    exact ih hc ha hb
  | array element length ih =>
    cases a <;> simp only [sameKey, Bool.false_eq_true, Bool.and_eq_true, beq_iff_eq] at ha
    cases b <;> simp only [sameKey, Bool.false_eq_true, Bool.and_eq_true, beq_iff_eq] at hb
    rw [sameKey, ih hc ha.1 hb.1, ha.2, hb.2]
    simp
  | named ns n d v =>
    simp only [isKey, Bool.and_eq_true] at hc
    cases a <;> simp only [sameKey, Bool.false_eq_true, Bool.and_eq_true, beq_iff_eq] at ha
    cases b <;> simp only [sameKey, Bool.false_eq_true, Bool.and_eq_true, beq_iff_eq] at hb
    obtain ⟨⟨⟨hans, han⟩, had⟩, hav⟩ := ha
    obtain ⟨⟨⟨hbns, hbn⟩, hbd⟩, hbv⟩ := hb
    rw [sameKey, Value.sameKey_of_common hc.1.1 hans hbns, Value.sameKey_of_common hc.1.2 han hbn,
      Value.sameKey_of_common hc.2 had hbd, hav, hbv]
    simp

/-- References that are the same key have innermost elements that are. -/
theorem innermost_sameKey {q r : TypeRef} (h : q.sameKey r = true) :
    q.innermost.sameKey r.innermost = true := by
  induction q generalizing r with
  | pointer element ih =>
    rcases r with _ | _ | element' | _ | _ <;> simp only [sameKey, Bool.false_eq_true] at h
    have hinnermost : element.innermost.sameKey element'.innermost = true := ih h
    exact hinnermost
  | array element length ih =>
    rcases r with _ | _ | _ | ⟨element', length'⟩ | _ <;>
      simp only [sameKey, Bool.false_eq_true, Bool.and_eq_true] at h
    have hinnermost : element.innermost.sameKey element'.innermost = true := ih h.1
    exact hinnermost
  | void => cases r <;> simp_all [sameKey, innermost]
  | primitive _ => cases r <;> simp_all [sameKey, innermost]
  | named _ _ _ _ => cases r <;> simp_all [sameKey, innermost]

theorem isCalled_iff {r : TypeRef} {name : String} :
    r.isCalled name = true ↔ r.fullName = .ok (.str name) := by
  rw [isCalled]
  rcases r.fullName with e | v
  · simp
  · cases v <;> simp [Value.sameKey]

end TypeRef

end ComHeaders
