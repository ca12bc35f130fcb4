import ComHeaders.Proofs.Literals.Integers

/-!
# What string literals denote

A text that is put between double quotes need not be a string literal of C, and if it is one it need
not denote that text: a quote ends the literal, a backslash begins an escape, and no literal goes on
behind the end of a line.  This file has a reader for string literals and says which texts denote
themselves.

## 1.  Reading

`readLiteral` reads one literal, without a prefix, from its first quote to its last.  The escapes
are those of one letter, octal and hexadecimal numbers, which have to be those of ASCII characters
here since larger ones are bytes of an encoding, and universal character names.  Trigraphs are left
alone, as compilers do unless they are told otherwise.

## 2.  Texts that denote themselves

Reading gives no more characters than there are between the quotes, and as many only if there are no
escapes among them (`length_of_readBody`).  So a text denotes itself exactly if all its characters
are plain (`readLiteral_quotes_iff`).
-/

namespace ComHeaders

/-! ## 1.  Reading -/

/-- The escapes of one letter and the characters that they denote. -/
def letterEscapes : List (Char × Char) := [
  ('\'', '\''), ('"', '"'), ('?', '?'), ('\\', '\\'), ('n', '\n'), ('r', '\r'), ('t', '\t'),
  ('a', Char.ofNat 7), ('b', Char.ofNat 8), ('f', Char.ofNat 12), ('v', Char.ofNat 11)]

/-- The ASCII character whose number some digits of a base write. -/
def readCode (b : ℕ) (ds : List Char) : Option Char :=
  (readDigits b ds).bind fun n => if n < 128 then some (Char.ofNat n) else none

/-- The character that a universal name of so many hexadecimal digits denotes.  Few of the
characters that every source can contain have such a name. -/
def readUniversal (count : ℕ) (ds : List Char) : Option Char :=
  (readDigits 16 ds).bind fun n =>
    if ds.length = count ∧ n.isValidChar ∧ (160 ≤ n ∨ n ∈ [36, 64, 96]) then some (Char.ofNat n)
    else none

/-- The escape behind a backslash: the character it denotes, and the characters behind it.  A
hexadecimal number goes on as long as there are digits, an octal one for three digits at most. -/
def readEscape : List Char → Option (Char × List Char)
  | [] => none
  | 'x' :: cs =>
    let ds := cs.takeWhile fun c => (hexValue? c).isSome
    (readCode 16 ds).map fun a => (a, cs.drop ds.length)
  | 'u' :: cs => (readUniversal 4 (cs.take 4)).map fun a => (a, cs.drop 4)
  | 'U' :: cs => (readUniversal 8 (cs.take 8)).map fun a => (a, cs.drop 8)
  | c :: cs =>
    match letterEscapes.lookup c with
    | some a => some (a, cs)
    | none =>
      let ds := ((c :: cs).take 3).takeWhile fun c => '0' ≤ c ∧ c ≤ '7'
      (readCode 8 ds).map fun a => (a, (c :: cs).drop ds.length)

/-- Digits of which there are none write no number. -/
theorem readCode_ne_nil {b : ℕ} {ds : List Char} {a : Char} (h : readCode b ds = some a) :
    ds ≠ [] := by
  rintro rfl
  cases h

/-- An escape is not empty. -/
theorem length_of_readEscape {cs rest : List Char} {a : Char}
    (h : readEscape cs = some (a, rest)) : rest.length < cs.length := by
  rw [readEscape.eq_def] at h
  split at h
  · cases h
  · obtain ⟨_, -, h⟩ := Option.map_eq_some_iff.1 h
    obtain rfl := (Prod.mk.inj h).2
    rw [List.length_drop, List.length_cons]
    omega
  · obtain ⟨_, -, h⟩ := Option.map_eq_some_iff.1 h
    obtain rfl := (Prod.mk.inj h).2
    rw [List.length_drop, List.length_cons]
    omega
  · obtain ⟨_, -, h⟩ := Option.map_eq_some_iff.1 h
    obtain rfl := (Prod.mk.inj h).2
    rw [List.length_drop, List.length_cons]
    omega
  · split at h
    · obtain rfl := (Prod.mk.inj (Option.some.inj h)).2
      exact Nat.lt_succ_self _
    · obtain ⟨_, hcode, h⟩ := Option.map_eq_some_iff.1 h
      obtain rfl := (Prod.mk.inj h).2
      have hpos := List.length_pos_of_ne_nil (readCode_ne_nil hcode)
      rw [List.length_drop, List.length_cons]
      omega

/-- A string literal behind its first quote, up to its last one, with which the text ends. -/
def readBody : List Char → Option (List Char)
  | [] => none
  | c :: cs =>
    if c = '"' then if cs.isEmpty then some [] else none
    else if c = '\n' ∨ c = '\r' then none
    else if c = '\\' then
      match h : readEscape cs with
      | none => none
      | some (a, rest) =>
        have : rest.length < cs.length := length_of_readEscape h
        (readBody rest).map (a :: ·)
    else (readBody cs).map (c :: ·)
termination_by cs => cs.length

/-- The text that a string literal denotes. -/
def readLiteral (text : String) : Option String :=
  match text.toList with
  | '"' :: cs => (readBody cs).map String.ofList
  | _ => none

/-! ## 2.  Texts that denote themselves -/

/-- A character that means itself in a string literal. -/
def IsPlain (c : Char) : Prop := c ≠ '"' ∧ c ≠ '\\' ∧ c ≠ '\n' ∧ c ≠ '\r'

instance (c : Char) : Decidable (IsPlain c) := inferInstanceAs (Decidable (_ ∧ _))

theorem readBody_cons_of_isPlain {c : Char} (hc : IsPlain c) (cs : List Char) :
    readBody (c :: cs) = (readBody cs).map (c :: ·) := by
  obtain ⟨hquote, hescape, hfeed, hreturn⟩ := hc
  rw [readBody, if_neg hquote, if_neg (by simp [hfeed, hreturn]), if_neg hescape]

theorem readBody_of_isPlain {m : List Char} (h : ∀ c ∈ m, IsPlain c) :
    readBody (m ++ ['"']) = some m := by
  induction m with
  | nil => simp [readBody]
  | cons c m ih =>
    obtain ⟨hc, hm⟩ := List.forall_mem_cons.1 h
    rw [List.cons_append, readBody_cons_of_isPlain hc, ih hm]
    rfl

/-- **Escapes are longer than what they denote.**  A literal has at least as many characters between
its quotes as it denotes, and if it has no more then they are plain. -/
theorem length_of_readBody {cs m : List Char} (h : readBody cs = some m) :
    m.length + 1 < cs.length ∨ (cs = m ++ ['"'] ∧ ∀ c ∈ m, IsPlain c) := by
  fun_induction readBody cs generalizing m with
  | case1 => cases h
  | case2 cs hempty =>
    obtain rfl := Option.some.inj h
    rw [List.isEmpty_iff.1 hempty]
    exact .inr ⟨rfl, by simp⟩
  | case3 => cases h
  | case4 => cases h
  | case5 => cases h
  | case6 cs _ _ a rest hescape hshorter ih =>
    obtain ⟨m, hm, rfl⟩ := Option.map_eq_some_iff.1 h
    left
    rw [List.length_cons, List.length_cons]
    rcases ih hm with hlength | ⟨hrest, -⟩
    · omega
    · have hcount := congrArg List.length hrest
      rw [List.length_append, List.length_singleton] at hcount
      omega
  | case7 c cs hquote hbreak hescape ih =>
    obtain ⟨m, hm, rfl⟩ := Option.map_eq_some_iff.1 h
    rcases ih hm with hlength | ⟨rfl, hplain⟩
    · left
      rw [List.length_cons, List.length_cons]
      omega
    · rw [not_or] at hbreak
      exact .inr ⟨rfl, List.forall_mem_cons.2 ⟨⟨hquote, hescape, hbreak⟩, hplain⟩⟩

/-- **A text between quotes denotes itself exactly if all its characters are plain.** -/
theorem readLiteral_quotes_iff (m : String) :
    readLiteral ("\"" ++ m ++ "\"") = some m ↔ ∀ c ∈ m.toList, IsPlain c := by
  have hlist : ("\"" ++ m ++ "\"").toList = '"' :: (m.toList ++ ['"']) := by
    rw [String.toList_append, String.toList_append]
    rfl
  rw [readLiteral, hlist]
  show (readBody (m.toList ++ ['"'])).map String.ofList = some m ↔ _
  constructor
  · intro h
    obtain ⟨cs, hcs, rfl⟩ := Option.map_eq_some_iff.1 h
    rw [String.toList_ofList] at hcs ⊢
    rcases length_of_readBody hcs with hlength | ⟨-, hplain⟩
    · rw [List.length_append, List.length_singleton] at hlength
      omega
    · exact hplain
  · intro h
    rw [readBody_of_isPlain h, Option.map_some, String.ofList_toList]

/-- A literal with escapes of all forms. -/
example : readLiteral "\"\\\"\\n\\101\\x42\\u00e9\"" = some "\"\nABé" := by decide +kernel

end ComHeaders
