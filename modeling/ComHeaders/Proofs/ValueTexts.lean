import ComHeaders.Value

/-!
# Values by their texts

Every value can be inserted into a text, and then a text looks like itself, while a value of
another kind is shown in a form of its own.  A text can look like such a form.  This file says that
it cannot if it begins with a capital letter that none of the forms begin with: numbers are
written with digits and few other characters, and lists and objects with their brackets.

## 1.  Numbers

No capital letter occurs in the text of a number.

## 2.  Values

`Value.eq_str_of_text` is the result.
-/

namespace ComHeaders

/-! ## 1.  Numbers -/

theorem isDigit_of_mem_decimalDigits {n : Nat} {c : Char} (h : c ∈ decimalDigits n) :
    c.isDigit = true :=
  Nat.isDigit_of_mem_toDigits (by decide) (by decide) h

/-- The characters that numbers are written with, besides those for infinities and for what is no
number. -/
def IsNumeral (c : Char) : Prop :=
  c.isDigit = true ∨ c = '.' ∨ c = 'e' ∨ c = '+' ∨ c = '-'

namespace FloatLayout

variable {l : FloatLayout} {c : Char}

theorem isNumeral_of_mem_exponentText {e : Int} (h : c ∈ l.exponentText e) : IsNumeral c := by
  simp only [exponentText, List.mem_cons, List.mem_append, List.mem_replicate] at h
  rcases h with rfl | rfl | ⟨-, rfl⟩ | h
  · exact .inr (.inr (.inl rfl))
  · split
    · exact .inr (.inr (.inr (.inr rfl)))
    · exact .inr (.inr (.inr (.inl rfl)))
  · exact .inl rfl
  · exact .inl (isDigit_of_mem_decimalDigits h)

theorem isNumeral_of_mem_pointText {fraction : List Char}
    (hfraction : ∀ c ∈ fraction, IsNumeral c) (h : c ∈ pointText fraction) : IsNumeral c := by
  rw [pointText] at h
  rcases List.mem_cons.1 h with rfl | h
  · exact .inr (.inl rfl)
  · split at h
    · obtain rfl := List.mem_singleton.1 h
      exact .inl rfl
    · exact hfraction c h

/-- Digits that are laid out are numerals. -/
theorem isNumeral_of_mem_magnitudeText {ds : List Char} (hds : ∀ c ∈ ds, IsNumeral c) {e : Int}
    (h : c ∈ l.magnitudeText ds e) : IsNumeral c := by
  have hzeros {k : Nat} : ∀ c ∈ List.replicate k '0', IsNumeral c := by
    intro c hc
    obtain rfl := List.eq_of_mem_replicate hc
    exact .inl rfl
  unfold magnitudeText at h
  split at h
  · split at h
    · rcases List.mem_cons.1 h with rfl | h
      · exact .inl rfl
      · refine isNumeral_of_mem_pointText (fun c hc => ?_) h
        exact (List.mem_append.1 hc).elim (hzeros c) (hds c)
    · rcases List.mem_append.1 h with h | h
      · exact (List.mem_append.1 h).elim (fun h => hds c (List.mem_of_mem_take h)) (hzeros c)
      · exact isNumeral_of_mem_pointText (fun c hc => hds c (List.mem_of_mem_drop hc)) h
  · split at h
    · exact isNumeral_of_mem_exponentText h
    · rcases List.mem_cons.1 h with rfl | h
      · exact hds c List.mem_cons_self
      · exact isNumeral_of_mem_exponentText h
    · rename_i d rest _
      rcases List.mem_cons.1 h with rfl | h
      · exact hds c List.mem_cons_self
      · rcases List.mem_cons.1 h with rfl | h
        · exact .inr (.inl rfl)
        · exact (List.mem_append.1 h).elim (fun h => hds c (List.mem_cons_of_mem _ h))
            isNumeral_of_mem_exponentText

end FloatLayout

theorem not_isUpper_of_isNumeral {c : Char} (h : IsNumeral c) : c.isUpper = false := by
  rcases h with h | rfl | rfl | rfl | rfl
  · rw [Bool.eq_false_iff]
    intro hupper
    have hletter : 'A'.val ≤ c.val ∧ c.val ≤ 'Z'.val := of_decide_eq_true hupper
    simp only [Char.isDigit, ge_iff_le, Bool.and_eq_true, decide_eq_true_eq,
      UInt32.le_iff_toNat_le] at h hletter
    have hnine : '9'.val.toNat = 57 := rfl
    have hcapital : 'A'.val.toNat = 65 := rfl
    omega
  all_goals decide

/-- No capital letter occurs in the text of a double. -/
theorem Double.not_isUpper_of_mem_text {x : Double} {c : Char} (h : c ∈ x.text.toList) :
    c.isUpper = false := by
  unfold text at h
  split at h
  · have hnan : c ∈ ['n', 'a', 'n'] := h
    simp only [List.mem_cons, List.not_mem_nil, or_false] at hnan
    rcases hnan with rfl | rfl | rfl <;> rfl
  · rw [String.toList_ofList] at h
    rcases List.mem_append.1 h with h | h
    · split at h
      · obtain rfl := List.mem_singleton.1 h
        rfl
      · exact absurd h List.not_mem_nil
    · split at h
      · simp only [List.mem_cons, List.not_mem_nil, or_false] at h
        rcases h with rfl | rfl | rfl <;> rfl
      · have hzero : ∀ c ∈ ['0'], IsNumeral c := by
          intro c hc
          obtain rfl := List.mem_singleton.1 hc
          exact .inl rfl
        split at h
        · exact not_isUpper_of_isNumeral (FloatLayout.isNumeral_of_mem_magnitudeText hzero h)
        · refine not_isUpper_of_isNumeral (FloatLayout.isNumeral_of_mem_magnitudeText ?_ h)
          exact fun c hc => .inl (isDigit_of_mem_decimalDigits hc)

/-- Nor does one in the text of an integer. -/
theorem not_isUpper_of_mem_toString {i : Int} {c : Char} (h : c ∈ (toString i).toList) :
    c.isUpper = false := by
  have hnat {n : Nat} {c : Char} (hc : c ∈ n.repr.toList) : c.isUpper = false := by
    rw [Nat.repr_eq_ofList_toDigits, String.toList_ofList] at hc
    exact not_isUpper_of_isNumeral (.inl (isDigit_of_mem_decimalDigits hc))
  rcases i with n | n
  · exact hnat h
  · have htext : (toString (Int.negSucc n)).toList = '-' :: (n + 1).repr.toList := by
      show ("-" ++ (n + 1).repr).toList = _
      rw [String.toList_append]
      rfl
    rw [htext] at h
    rcases List.mem_cons.1 h with rfl | h
    · rfl
    · exact hnat h

/-! ## 2.  Values -/

namespace Value

/-- **A text that begins with a certain capital letter is the text of nothing but itself.** -/
theorem eq_str_of_text {v : Value} {name : String} (hname : name.toList.head? = some 'G')
    (h : v.text = name) : v = .str name := by
  subst h
  have hmem : 'G' ∈ v.text.toList := List.mem_of_head? hname
  rcases v with _ | b | i | x | s | items | members
  · cases hname
  · cases b <;> cases hname
  · cases not_isUpper_of_mem_toString hmem
  · cases Double.not_isUpper_of_mem_text hmem
  · rfl
  · simp [text, shown] at hname
  · simp [text, shown] at hname

end Value

end ComHeaders
