import ComHeaders.Classify.Constant
import ComHeaders.Literals
import ComHeaders.Proofs.Pass
import Mathlib.Data.Int.ModEq

/-!
# What integer literals denote

A header is read by a compiler, so an integer is written correctly if the compiler reads the integer
back.  This file has a reader of its own for the integers of C and compares what it reads with what
the metadata holds.

## 1.  Reading

`readInteger` reads an integer in decimal or hexadecimal digits, with a minus in front or not, and
with the mark of a long integer behind or not.  A zero in front would make the digits octal, and
such a text is not read.

## 2.  Digits

Digits are read as the number that they were written for (`readDigits_toDigits`), and zeros in front
make no difference to hexadecimal ones (`readDigits_hexDigits`).

## 3.  Literals

The three forms that are written: decimal, hexadecimal, and the thirty-two bits in eight digits.

## 4.  Constants and members

From the metadata to the text (`literals_denote`).
-/

namespace ComHeaders

/-! ## 1.  Reading -/

/-- The value of a hexadecimal digit, with letters of either case. -/
def hexValue? (c : Char) : Option ℕ :=
  if '0' ≤ c ∧ c ≤ '9' then some (c.toNat - '0'.toNat)
  else if 'a' ≤ c ∧ c ≤ 'f' then some (c.toNat - 'a'.toNat + 10)
  else if 'A' ≤ c ∧ c ≤ 'F' then some (c.toNat - 'A'.toNat + 10)
  else none

/-- A number with one digit more. -/
def appendDigit (b n : ℕ) (c : Char) : Option ℕ :=
  (hexValue? c).bind fun d => if d < b then some (n * b + d) else none

/-- The number that some digits of a base write, of which there has to be one. -/
def readDigits (b : ℕ) (ds : List Char) : Option ℕ :=
  if ds.isEmpty then none else ds.foldlM (appendDigit b) 0

/-- A number of C without a sign, in decimal or hexadecimal digits. -/
def readNatural : List Char → Option ℕ
  | '0' :: c :: ds => if c = 'x' ∨ c = 'X' then readDigits 16 ds else none
  | ds => readDigits 10 ds

/-- What remains of a number without the mark of a long integer. -/
def dropMark (cs : List Char) : List Char := if cs.getLast? = some 'L' then cs.dropLast else cs

/-- An integer of C in decimal or hexadecimal digits. -/
def readInteger (text : String) : Option ℤ :=
  match text.toList with
  | '-' :: cs => (readNatural (dropMark cs)).map fun n => -(n : ℤ)
  | cs => (readNatural (dropMark cs)).map fun n => (n : ℤ)

/-! ## 2.  Digits -/

variable {b d n width : ℕ} {c : Char} {cs ds : List Char}

theorem hexValue?_digitChar (h : d < 16) : hexValue? (Nat.digitChar d) = some d := by
  have hdigits : ∀ k < 16, hexValue? (Nat.digitChar k) = some k := by decide
  exact hdigits d h

theorem appendDigit_digitChar (hd : d < b) (hb : b ≤ 16) :
    appendDigit b n (Nat.digitChar d) = some (n * b + d) := by
  rw [appendDigit, hexValue?_digitChar (by omega), Option.bind_some, if_pos hd]

/-- **Digits are read as what they were written for**, by induction along the division that writes
them. -/
theorem foldlM_toDigits (hb : 1 < b) (hb' : b ≤ 16) (n : ℕ) :
    (Nat.toDigits b n).foldlM (appendDigit b) 0 = some n := by
  induction n using Nat.strongRecOn with
  | ind n ih =>
    rw [Nat.toDigits_eq_if hb]
    split
    · rename_i hlt
      rw [List.foldlM_cons, appendDigit_digitChar hlt hb', Nat.zero_mul, Nat.zero_add]
      rfl
    · rename_i hge
      have hsmaller : n / b < n := Nat.div_lt_self (by omega) hb
      have hlast : appendDigit b (n / b) (Nat.digitChar (n % b)) = some (n / b * b + n % b) :=
        appendDigit_digitChar (Nat.mod_lt n (by omega)) hb'
      rw [List.foldlM_append, ih _ hsmaller]
      simp [hlast, Nat.div_add_mod']

theorem readDigits_toDigits (hb : 1 < b) (hb' : b ≤ 16) (n : ℕ) :
    readDigits b (Nat.toDigits b n) = some n := by
  rw [readDigits, if_neg (by simp [Nat.toDigits_ne_nil]), foldlM_toDigits hb hb']

theorem foldlM_zeros (k : ℕ) (hb : 0 < b) :
    (List.replicate k '0' ++ ds).foldlM (appendDigit b) 0 = ds.foldlM (appendDigit b) 0 := by
  induction k with
  | zero => rfl
  | succ k ih =>
    have hzero : appendDigit b 0 '0' = some 0 := by simp [appendDigit, hexValue?, hb]
    rw [List.replicate_succ, List.cons_append, List.foldlM_cons, hzero]
    exact ih

theorem readDigits_hexDigits (width n : ℕ) : readDigits 16 (hexDigits width n) = some n := by
  rw [readDigits, if_neg (by simp [hexDigits, Nat.toDigits_ne_nil]), hexDigits,
    foldlM_zeros _ (by decide), foldlM_toDigits (by decide) (by decide)]

theorem mem_toDigits (hb : 1 < b) (hc : c ∈ Nat.toDigits b n) : ∃ d < b, c = Nat.digitChar d := by
  induction n using Nat.strongRecOn with
  | ind n ih =>
    rw [Nat.toDigits_eq_if hb] at hc
    split at hc
    · rename_i hlt
      exact ⟨n, hlt, List.mem_singleton.1 hc⟩
    · rename_i hge
      rcases List.mem_append.1 hc with hc | hc
      · exact ih _ (Nat.div_lt_self (by omega) hb) hc
      · exact ⟨n % b, Nat.mod_lt n (by omega), List.mem_singleton.1 hc⟩

/-- The digits of a number do not start with a zero, unless it is zero. -/
theorem head?_toDigits (hb : 1 < b) (hn : 0 < n) :
    (Nat.toDigits b n).head? ≠ some '0' := by
  induction n using Nat.strongRecOn with
  | ind n ih =>
    rw [Nat.toDigits_eq_if hb]
    split
    · simp [Nat.digitChar_eq_zero, hn.ne']
    · rename_i hge
      have hpos : 0 < n / b := Nat.div_pos (by omega) (by omega)
      have hhead := ih _ (Nat.div_lt_self hn hb) hpos
      rw [List.head?_append]
      rcases hdigits : (Nat.toDigits b (n / b)).head? with _ | c
      · exact absurd (List.head?_eq_none_iff.1 hdigits) Nat.toDigits_ne_nil
      · rw [hdigits] at hhead
        simpa using hhead

theorem digitChar_ne_mark (hd : d < 16) : Nat.digitChar d ≠ 'L' ∧ Nat.digitChar d ≠ '-' := by
  have hdigits : ∀ k < 16, Nat.digitChar k ≠ 'L' ∧ Nat.digitChar k ≠ '-' := by decide
  exact hdigits d hd

theorem mem_hexDigits (hc : c ∈ hexDigits width n) : ∃ d < 16, c = Nat.digitChar d := by
  rw [hexDigits] at hc
  rcases List.mem_append.1 hc with hc | hc
  · exact ⟨0, by decide, (List.mem_replicate.1 hc).2⟩
  · exact mem_toDigits (by decide) hc

theorem length_hexDigits (hwidth : 0 < width) (hn : n < 16 ^ width) :
    (hexDigits width n).length = width := by
  have hlength := (Nat.length_toDigits_le_iff (by decide : 1 < 16) hwidth).2 hn
  rw [hexDigits, List.length_append, List.length_replicate]
  omega

/-! ## 3.  Literals -/

theorem dropMark_of_notMem (h : 'L' ∉ cs) : dropMark cs = cs :=
  if_neg fun hlast => h (List.mem_of_getLast? hlast)

theorem dropMark_append (cs : List Char) : dropMark (cs ++ ['L']) = cs := by
  simp [dropMark]

theorem readInteger_of_head? {text : String} (h : text.toList.head? ≠ some '-') :
    readInteger text = (readNatural (dropMark text.toList)).map fun n => (n : ℤ) := by
  rw [readInteger]
  split
  · rename_i cs hcs
    rw [hcs] at h
    exact absurd rfl h
  · rfl

theorem readNatural_toDigits (n : ℕ) : readNatural (Nat.toDigits 10 n) = some n := by
  rw [← readDigits_toDigits (by decide : 1 < 10) (by decide) n]
  rcases Nat.eq_zero_or_pos n with rfl | hn
  · rfl
  · have hhead := head?_toDigits (by decide : 1 < 10) hn
    rw [readNatural.eq_def]
    split
    · rename_i c ds hdigits
      rw [hdigits] at hhead
      exact absurd rfl hhead
    · rfl

theorem dropMark_toDigits (n : ℕ) : dropMark (Nat.toDigits 10 n) = Nat.toDigits 10 n := by
  refine dropMark_of_notMem fun hmark => ?_
  obtain ⟨d, hd, hc⟩ := mem_toDigits (by decide) hmark
  exact (digitChar_ne_mark (by omega)).1 hc.symm

/-- **A decimal literal** is read as the integer. -/
theorem readInteger_toString (i : ℤ) : readInteger (toString i) = some i := by
  rcases i with n | n
  · have hlist : (toString (Int.ofNat n)).toList = Nat.toDigits 10 n := Nat.toList_repr
    have hhead : (toString (Int.ofNat n)).toList.head? ≠ some '-' := by
      rw [hlist]
      intro hminus
      obtain ⟨d, hd, hc⟩ := mem_toDigits (by decide) (List.mem_of_head? hminus)
      exact (digitChar_ne_mark (by omega)).2 hc.symm
    rw [readInteger_of_head? hhead, hlist, dropMark_toDigits, readNatural_toDigits]
    rfl
  · have hlist : (toString (Int.negSucc n)).toList = '-' :: Nat.toDigits 10 (n + 1) := by
      have hrepr : toString (Int.negSucc n) = "-" ++ Nat.repr (n + 1) := rfl
      rw [hrepr, String.toList_append, Nat.toList_repr]
      rfl
    simp only [readInteger, hlist]
    rw [dropMark_toDigits, readNatural_toDigits]
    rfl

/-- **A hexadecimal literal** is read as the number of its digits, marked or not. -/
theorem readInteger_hexDigits (width n : ℕ) {mark : String} (hmark : mark = "" ∨ mark = "L") :
    readInteger ("0x" ++ String.ofList (hexDigits width n) ++ mark) = some (n : ℤ) := by
  have hlist : ("0x" ++ String.ofList (hexDigits width n) ++ mark).toList =
      '0' :: 'x' :: (hexDigits width n ++ mark.toList) := by
    simp
  have hdrop : dropMark ('0' :: 'x' :: (hexDigits width n ++ mark.toList)) =
      '0' :: 'x' :: hexDigits width n := by
    rcases hmark with rfl | rfl
    · rw [String.toList_empty, List.append_nil]
      refine dropMark_of_notMem fun hmem => ?_
      simp only [List.mem_cons, Char.reduceEq, false_or] at hmem
      obtain ⟨d, hd, hc⟩ := mem_hexDigits hmem
      exact (digitChar_ne_mark hd).1 hc.symm
    · exact dropMark_append ('0' :: 'x' :: hexDigits width n)
  have hhead : ('0' :: 'x' :: (hexDigits width n ++ mark.toList)).head? ≠ some '-' := by simp
  rw [← hlist] at hhead
  rw [readInteger_of_head? hhead, hlist, hdrop, readNatural, if_pos (.inl rfl),
    readDigits_hexDigits]
  rfl

/-- Exactly eight hexadecimal digits. -/
def IsWord (digits : String) : Prop :=
  digits.length = 8 ∧ ∀ c ∈ digits.toList, (hexValue? c).isSome = true

theorem wordDigits_eq (i : ℤ) :
    wordDigits i = String.ofList (hexDigits 8 (i % 2 ^ 32).natAbs) :=
  if_neg (not_lt_of_ge (Int.emod_nonneg _ (by decide)))

theorem isWord_wordDigits (i : ℤ) : IsWord (wordDigits i) := by
  have hlow : (i % 2 ^ 32).natAbs < 16 ^ 8 := by omega
  rw [wordDigits_eq]
  refine ⟨by rw [String.length_ofList, length_hexDigits (by decide) hlow], fun c hc => ?_⟩
  rw [String.toList_ofList] at hc
  obtain ⟨d, hd, rfl⟩ := mem_hexDigits hc
  rw [hexValue?_digitChar hd]
  rfl

/-- **Eight digits** are read as the integer modulo `2 ^ 32`. -/
theorem readInteger_wordDigits (i : ℤ) {mark : String} (hmark : mark = "" ∨ mark = "L") :
    readInteger ("0x" ++ wordDigits i ++ mark) = some (i % 2 ^ 32) := by
  have hnonneg : 0 ≤ i % 2 ^ 32 := Int.emod_nonneg _ (by decide)
  rw [wordDigits_eq, readInteger_hexDigits _ _ hmark, Int.natAbs_of_nonneg hnonneg]

/-! ## 4.  Constants and members -/

/-- A field of some type that is no GUID, with an integer as its value. -/
structure Field.HoldsInteger (f : Field) (elementType : Value) (v : ℤ) : Prop where
  fullName : ∃ name, f.type.fullName = .ok name ∧ name.sameKey (.str "System.Guid") = false
  literal : ∃ value, f.literal = some ⟨elementType, value⟩ ∧ value.toInteger = .ok v

/-- Whether the type of a field is that of result codes. -/
def Field.isResultCode (f : Field) : Bool :=
  f.type.isNamed && f.type.name.sameKey (.str "HRESULT")

namespace ConstantDecl

/-- The lines of the constant of a field. -/
def written (room : ℕ) (f : Field) (width : ℤ) : Except Failure (List String) := do
  (← describe f).lines room width

variable {f : Field} {elementType : Value} {v : ℤ}

/-- A constant that is no GUID is described by its literal. -/
theorem describe_eq_ok {l : Literal} {body : ConstantBody}
    (hname : ∃ name, f.type.fullName = .ok name ∧ name.sameKey (.str "System.Guid") = false)
    (hliteral : f.literal = some l) (hbody : describeLiteral f l = .ok body) :
    describe f = .ok ⟨f.name, body⟩ := by
  obtain ⟨name, hname, hguid⟩ := hname
  rw [describe, Result.bind_eq_ok]
  refine ⟨name, Result.faulty_eq_ok.2 hname, ?_⟩
  simp only [hguid, hliteral, hbody]
  rfl

variable {value : Value}

theorem describeLiteral_resultCode (hcode : f.isResultCode = true)
    (hvalue : value.toInteger = .ok v) :
    describeLiteral f ⟨elementType, value⟩ = .ok (.resultCode (some (.int (lowWord v)))) := by
  rw [Field.isResultCode] at hcode
  rw [describeLiteral, if_pos hcode, Result.bind_eq_ok]
  exact ⟨v, Result.faulty_eq_ok.2 hvalue, rfl⟩

/-- The type of a literal decides whether it is signed. -/
theorem describeLiteral_integer (hcode : f.isResultCode = false)
    (hvalue : value.toInteger = .ok v) :
    describeLiteral f ⟨.str "Int32", value⟩ = .ok (.signed (some (.int v))) ∧
      describeLiteral f ⟨.str "UInt32", value⟩ = .ok (.unsigned (some (.int v))) := by
  have hinteger : integerValue value = .ok (.int v) := by
    rw [integerValue, Result.faulty_eq_ok.2 hvalue]
    rfl
  rw [Field.isResultCode] at hcode
  rw [describeLiteral, describeLiteral, hcode]
  simp only [hinteger]
  exact ⟨rfl, rfl⟩

/-- An unsigned constant is written in one of two forms, and both are read as the integer. -/
theorem lines_unsigned (room : ℕ) (name : String) (v width : ℤ) :
    ∃ text, lines room ⟨name, .unsigned (some (.int v))⟩ width = .ok [s!"#define {name} {text}"] ∧
      readInteger text = some v := by
  have hlines : lines room ⟨name, .unsigned (some (.int v))⟩ width =
      if v < 0x80000000 then .ok [s!"#define {name} {v}"]
      else .ok [s!"#define {name} 0x{hexInteger 8 v}"] := rfl
  rw [hlines]
  split
  · exact ⟨toString v, rfl, readInteger_toString v⟩
  · have hnonneg : 0 ≤ v := by omega
    refine ⟨"0x" ++ hexInteger 8 v, ?_, ?_⟩
    · have htext : "#define " ++ name ++ " 0x" ++ hexInteger 8 v =
          "#define " ++ name ++ " " ++ ("0x" ++ hexInteger 8 v) := by
        have hspace : " 0x" = " " ++ "0x" := rfl
        rw [hspace, ← String.append_assoc, ← String.append_assoc]
      exact congrArg (fun line => Except.ok [line]) htext
    · have hread := readInteger_hexDigits 8 v.natAbs (.inl rfl)
      rw [String.append_empty, Int.natAbs_of_nonneg hnonneg] at hread
      rw [hexInteger, if_neg (not_lt_of_ge hnonneg), hread]

/-- Masked twice, a result code is still the integer modulo `2 ^ 32`. -/
theorem lines_resultCode (room : ℕ) (name : String) (v width : ℤ) :
    lines room ⟨name, .resultCode (some (.int (lowWord v)))⟩ width =
      .ok [s!"#ifndef {name}", s!"#define {name} ((HRESULT)0x{wordDigits v}L)", "#endif"] := by
  have hmask : wordDigits (lowWord v) = wordDigits v := by
    rw [wordDigits, wordDigits, lowWord, Int.emod_emod_of_dvd _ (dvd_refl _)]
  rw [← hmask]
  rfl

/-- The constant of a field that holds an integer and is no result code. -/
theorem exists_written {room : ℕ} {width : ℤ} (hcode : f.isResultCode = false)
    (htype : elementType = .str "Int32" ∨ elementType = .str "UInt32")
    (h : f.HoldsInteger elementType v) :
    ∃ text, written room f width = .ok [s!"#define {f.name} {text}"] ∧
      readInteger text = some v := by
  obtain ⟨hname, value, hliteral, hvalue⟩ := h
  rcases htype with rfl | rfl
  · have hdescribe := describe_eq_ok hname hliteral (describeLiteral_integer hcode hvalue).1
    refine ⟨toString v, ?_, readInteger_toString v⟩
    rw [written, hdescribe]
    rfl
  · have hdescribe := describe_eq_ok hname hliteral (describeLiteral_integer hcode hvalue).2
    obtain ⟨text, hlines, hread⟩ := lines_unsigned room f.name v width
    refine ⟨text, ?_, hread⟩
    rw [written, hdescribe]
    exact hlines

theorem written_resultCode {room : ℕ} {width : ℤ} (hcode : f.isResultCode = true)
    (h : f.HoldsInteger elementType v) :
    written room f width =
      .ok [s!"#ifndef {f.name}", s!"#define {f.name} ((HRESULT)0x{wordDigits v}L)", "#endif"] := by
  obtain ⟨hname, value, hliteral, hvalue⟩ := h
  rw [written, describe_eq_ok hname hliteral (describeLiteral_resultCode hcode hvalue)]
  exact lines_resultCode room f.name v width

end ConstantDecl

namespace EnumDecl

variable {f : Field} {v : ℤ}

/-- A member is described by its literal, and whether it is unsigned by the type of that. -/
theorem describeMember_eq_ok {elementType value : Value} (enum : String)
    (htype : elementType = .str "Int32" ∨ elementType = .str "UInt32")
    (hliteral : f.literal = some ⟨elementType, value⟩) (hvalue : value.toInteger = .ok v) :
    ∃ isUnsigned, describeMember enum f = .ok ⟨f.name, v, isUnsigned⟩ ∧
      (isUnsigned = true ↔ elementType = .str "UInt32") := by
  rcases htype with rfl | rfl
  · refine ⟨false, ?_, by simp⟩
    rw [describeMember, hliteral]
    simp only [Result.faulty_eq_ok.2 hvalue]
    rfl
  · refine ⟨true, ?_, by simp⟩
    rw [describeMember, hliteral]
    simp only [Result.faulty_eq_ok.2 hvalue]
    rfl

end EnumDecl

namespace EnumMember

variable {m m' : EnumMember}

/-- What the literal of a member has to be. -/
structure Faithful (m : EnumMember) : Prop where
  /-- It is read as the value or as another integer with the same thirty-two bits. -/
  congruent : ∃ i, readInteger m.literal = some i ∧ i ≡ m.value [ZMOD 2 ^ 32]
  /-- It is read as the value itself if that is signed and not negative. -/
  unmasked : m.isUnsigned = false → 0 ≤ m.value → readInteger m.literal = some m.value
  /-- Otherwise it has eight digits. -/
  word : m.isUnsigned = true ∨ m.value < 0 →
    ∃ digits, IsWord digits ∧ (m.literal = "0x" ++ digits ∨ m.literal = "0x" ++ digits ++ "L")

theorem literal_unsigned (h : m.isUnsigned = true) : m.literal = "0x" ++ wordDigits m.value := by
  rw [literal, if_pos h]

theorem literal_negative (h : m.isUnsigned = false) (hneg : m.value < 0) :
    m.literal = "0x" ++ wordDigits m.value ++ "L" := by
  rw [literal, h, if_neg (by decide), if_pos hneg]

theorem literal_nonneg (h : m.isUnsigned = false) (hnonneg : 0 ≤ m.value) :
    m.literal = toString m.value := by
  rw [literal, h, if_neg (by decide), if_neg (not_lt_of_ge hnonneg)]

/-- What a literal is read as. -/
theorem readInteger_literal (m : EnumMember) :
    readInteger m.literal =
      some (if m.isUnsigned = false ∧ 0 ≤ m.value then m.value else m.value % 2 ^ 32) := by
  rcases hsign : m.isUnsigned with _ | _
  · rcases lt_or_ge m.value 0 with hneg | hnonneg
    · rw [literal_negative hsign hneg, readInteger_wordDigits _ (.inr rfl),
        if_neg (by simp [hneg])]
    · rw [literal_nonneg hsign hnonneg, readInteger_toString, if_pos ⟨rfl, hnonneg⟩]
  · have hread := readInteger_wordDigits m.value (.inl rfl)
    rw [String.append_empty] at hread
    rw [literal_unsigned hsign, hread, if_neg (by simp)]

theorem faithful (m : EnumMember) : m.Faithful where
  congruent := by
    refine ⟨_, readInteger_literal m, ?_⟩
    split
    · exact Int.ModEq.refl _
    · exact Int.mod_modEq _ _
  unmasked hsign hnonneg := by
    rw [readInteger_literal, if_pos ⟨hsign, hnonneg⟩]
  word h := by
    refine ⟨wordDigits m.value, isWord_wordDigits _, ?_⟩
    rcases hsign : m.isUnsigned with _ | _
    · rw [hsign] at h
      exact .inr (literal_negative hsign (h.resolve_left (by decide)))
    · exact .inl (literal_unsigned hsign)

/-- The value fits into thirty-two bits of its signedness. -/
def InRange (m : EnumMember) : Prop :=
  if m.isUnsigned then 0 ≤ m.value ∧ m.value < 2 ^ 32
  else -2 ^ 31 ≤ m.value ∧ m.value < 2 ^ 31

instance : DecidablePred InRange := fun m =>
  inferInstanceAs (Decidable (if m.isUnsigned then 0 ≤ m.value ∧ m.value < 2 ^ 32
    else -2 ^ 31 ≤ m.value ∧ m.value < 2 ^ 31))

/-- In range, members of one signedness have one literal only if they have one value. -/
theorem value_eq_of_literal_eq (hsign : m.isUnsigned = m'.isUnsigned) (hm : m.InRange)
    (hm' : m'.InRange) (h : m.literal = m'.literal) : m.value = m'.value := by
  have hread := (readInteger_literal m).symm.trans ((congrArg readInteger h).trans
    (readInteger_literal m'))
  rw [Option.some_inj, ← hsign] at hread
  rw [InRange] at hm hm'
  rw [← hsign] at hm'
  generalize m.isUnsigned = isUnsigned at hm hm' hread
  rcases isUnsigned with _ | _
  · -- A negative value is read as one above all others that are signed.
    simp only [Bool.false_eq_true, if_false, true_and] at hm hm' hread
    split_ifs at hread <;> omega
  · simp only [if_true, Bool.true_eq_false, false_and, if_false] at hm hm' hread
    omega

end EnumMember

/-- **Integer literals denote the stored value.**  A constant that is no result code is read as its
value.  A result code is written with eight digits, which are read as the value modulo `2 ^ 32`.  A
member of an enum is described with its value and written faithfully, and members of one signedness
that are in range have different literals if they have different values. -/
theorem literals_denote :
    (∀ (f : Field) (elementType : Value) (v width : ℤ) (room : ℕ), f.HoldsInteger elementType v →
      (f.isResultCode = false → elementType = .str "Int32" ∨ elementType = .str "UInt32" →
        ∃ text, ConstantDecl.written room f width = .ok [s!"#define {f.name} {text}"] ∧
          readInteger text = some v) ∧
      (f.isResultCode = true →
        ∃ digits, ConstantDecl.written room f width =
            .ok [s!"#ifndef {f.name}", s!"#define {f.name} ((HRESULT)0x{digits}L)", "#endif"] ∧
          IsWord digits ∧ readInteger ("0x" ++ digits ++ "L") = some (v % 2 ^ 32))) ∧
    (∀ (enum : String) (f : Field) (elementType value : Value) (v : ℤ),
      elementType = .str "Int32" ∨ elementType = .str "UInt32" →
      f.literal = some ⟨elementType, value⟩ → value.toInteger = .ok v →
      ∃ m, EnumDecl.describeMember enum f = .ok m ∧ m.value = v ∧
        (m.isUnsigned = true ↔ elementType = .str "UInt32") ∧ m.Faithful) ∧
    (∀ m m' : EnumMember, m.isUnsigned = m'.isUnsigned → m.InRange → m'.InRange →
      m.value ≠ m'.value → m.literal ≠ m'.literal) := by
  refine ⟨fun f elementType v width room h => ⟨fun hcode htype => ?_, fun hcode => ?_⟩,
    fun enum f elementType value v htype hliteral hvalue => ?_,
    fun m m' hsign hm hm' hne hliteral =>
      hne (EnumMember.value_eq_of_literal_eq hsign hm hm' hliteral)⟩
  · exact ConstantDecl.exists_written hcode htype h
  · exact ⟨wordDigits v, ConstantDecl.written_resultCode hcode h, isWord_wordDigits v,
      readInteger_wordDigits v (.inr rfl)⟩
  · obtain ⟨isUnsigned, hmember, hsign⟩ :=
      EnumDecl.describeMember_eq_ok enum htype hliteral hvalue
    exact ⟨_, hmember, rfl, hsign, EnumMember.faithful _⟩

/-- The least signed integer of thirty-two bits. -/
def lowest : Field :=
  ⟨"LOWEST", .primitive (.str "Int32"), some ⟨.str "Int32", .int (-0x80000000)⟩, false, []⟩

/-- A result code, stored with its sign. -/
def unspecified : Field :=
  ⟨"E_FAIL", .named (.str "Windows.Win32.Foundation") (.str "HRESULT") .null true,
    some ⟨.str "Int32", .int (-0x7fffbffb)⟩, false, []⟩

/-- The first unsigned integer that is written in hexadecimal digits. -/
def upperHalf : Field :=
  ⟨"UPPER_HALF", .primitive (.str "UInt32"), some ⟨.str "UInt32", .int 0x80000000⟩, false, []⟩

/-- The least integer and a result code as constants, the first hexadecimal one as a constant and as
a member, and the two ends of the signed range beside each other. -/
theorem lowest_denoted :
    (∃ text, ConstantDecl.written 80 lowest 0 = .ok [s!"#define LOWEST {text}"] ∧
      readInteger text = some (-0x80000000)) ∧
    (∃ text, ConstantDecl.written 80 upperHalf 0 = .ok [s!"#define UPPER_HALF {text}"] ∧
      readInteger text = some 0x80000000) ∧
    (∃ digits, ConstantDecl.written 80 unspecified 0 =
        .ok ["#ifndef E_FAIL", s!"#define E_FAIL ((HRESULT)0x{digits}L)", "#endif"] ∧
      IsWord digits ∧ readInteger ("0x" ++ digits ++ "L") = some 0x80004005) ∧
    (∃ m, EnumDecl.describeMember "RANGE" upperHalf = .ok m ∧ m.value = 0x80000000 ∧
      (m.isUnsigned = true ↔ Value.str "UInt32" = .str "UInt32") ∧ m.Faithful) ∧
    EnumMember.literal ⟨"LOW", -0x80000000, false⟩ ≠
      EnumMember.literal ⟨"HIGH", 0x7fffffff, false⟩ := by
  obtain ⟨hconstants, hmembers, hdifferent⟩ := literals_denote
  have hlowest : lowest.HoldsInteger (.str "Int32") (-0x80000000) :=
    ⟨⟨_, rfl, by decide⟩, _, rfl, rfl⟩
  have hupper : upperHalf.HoldsInteger (.str "UInt32") 0x80000000 :=
    ⟨⟨_, rfl, by decide⟩, _, rfl, rfl⟩
  have hcode : unspecified.HoldsInteger (.str "Int32") (-0x7fffbffb) :=
    ⟨⟨_, rfl, by decide⟩, _, rfl, rfl⟩
  exact ⟨(hconstants lowest _ _ 0 80 hlowest).1 rfl (.inl rfl),
    (hconstants upperHalf _ _ 0 80 hupper).1 rfl (.inr rfl),
    (hconstants unspecified _ _ 0 80 hcode).2 rfl,
    hmembers "RANGE" upperHalf _ _ _ (.inr rfl) rfl rfl,
    hdifferent _ _ rfl (by decide) (by decide) (by decide)⟩

end ComHeaders
