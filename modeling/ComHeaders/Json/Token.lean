import ComHeaders.Value

/-!
# Tokens of a JSON text

A text is first cut into tokens: brackets, colons and commas, strings, numbers, and six
names.  A number goes on as long as it can, and whatever stands behind it is a token of
its own.  A text that cannot be cut gets a `bad` token at the place of its fault.  So the
reader of the token sequence meets all faults, its own and these, in the order of their
places.

Numbers without point and exponent are integers of any size up to a limit on their
digits; the others are doubles.  Besides the three constants the names of the values
that are no real numbers are accepted.

Strings are written in code units, of which a pair can make up one character.  A string may
write half of such a pair alone.  That is no character, so such a string is told apart.
-/

namespace ComHeaders.Json

/-- A token. -/
inductive Token where
  | openList
  | closeList
  | openObject
  | closeObject
  | colon
  | comma
  | str (s : String)
  /-- A string with half a character in it. -/
  | halfString
  /-- A number or a constant. -/
  | atom (v : Value)
  /-- An integer with more digits than are read. -/
  | hugeInteger
  /-- The rest of the text is no token. -/
  | bad

namespace Token

def isHalf : Token → Bool
  | halfString => true
  | _ => false

end Token

/-! ## Strings -/

/-- The value of a hexadecimal digit. -/
def hexValue? (c : Char) : Option Nat :=
  if '0' ≤ c ∧ c ≤ '9' then some (c.toNat - 48)
  else if 'a' ≤ c ∧ c ≤ 'f' then some (c.toNat - 87)
  else if 'A' ≤ c ∧ c ≤ 'F' then some (c.toNat - 55)
  else none

/-- The character an escape of one letter stands for. -/
def escapeLetter? : Char → Option Nat
  | '"' => some 0x22
  | '\\' => some 0x5c
  | '/' => some 0x2f
  | 'b' => some 0x08
  | 'f' => some 0x0c
  | 'n' => some 0x0a
  | 'r' => some 0x0d
  | 't' => some 0x09
  | _ => none

/-- Goes through a string behind its opening quote.  Returns its code units, latest first,
and what follows the closing quote; control characters have to be escaped. -/
def scanString (acc : List Nat) : List Char → Option (List Nat × List Char)
  | [] => none
  | '"' :: rest => some (acc, rest)
  | '\\' :: 'u' :: a :: b :: c :: d :: rest =>
    match hexValue? a, hexValue? b, hexValue? c, hexValue? d with
    | some a, some b, some c, some d =>
      scanString ((((a * 16 + b) * 16 + c) * 16 + d) :: acc) rest
    | _, _, _, _ => none
  | '\\' :: c :: rest =>
    match escapeLetter? c with
    | some n => scanString (n :: acc) rest
    | none => none
  | c :: rest => if c.toNat < 0x20 then none else scanString (c.toNat :: acc) rest

/-- What follows a string is shorter than what its opening quote stands in front of. -/
theorem length_of_scanString {acc : List Nat} {s : List Char} {r : List Nat × List Char}
    (h : scanString acc s = some r) : r.2.length < s.length := by
  fun_induction scanString acc s <;> simp_all <;> grind

/-- Two units of a surrogate pair, in either order of the list, as one code point. -/
def joinPair (high low : Nat) : Nat := 0x10000 + (high - 0xd800) * 0x400 + (low - 0xdc00)

/-- Half of a surrogate pair. -/
def IsHalf (unit : Nat) : Prop := 0xd800 ≤ unit ∧ unit < 0xe000

instance (unit : Nat) : Decidable (IsHalf unit) := inferInstanceAs (Decidable (_ ∧ _))

/-- The characters of a list of code units that has the latest unit first; none if one of them is
half a character.  A pair of surrogate units becomes one character. -/
def charsOfUnits? (acc : List Char) : List Nat → Option (List Char)
  | low :: high :: rest =>
    if 0xdc00 ≤ low ∧ low < 0xe000 ∧ 0xd800 ≤ high ∧ high < 0xdc00 then
      charsOfUnits? (Char.ofNat (joinPair high low) :: acc) rest
    else if IsHalf low then none
    else charsOfUnits? (Char.ofNat low :: acc) (high :: rest)
  | [unit] => if IsHalf unit then none else some (Char.ofNat unit :: acc)
  | [] => some acc

/-- The token of a string. -/
def stringToken (units : List Nat) : Token :=
  match charsOfUnits? [] units with
  | some s => .str (String.ofList s)
  | none => .halfString

/-! ## Numbers -/

/-- The digits of a number before its point, and what follows them: a single zero, or digits
with no zero in front. -/
def cutWhole : List Char → Option (List Nat × List Char)
  | '0' :: rest => some ([0], rest)
  | s => match spanDigits s with
    | ([], _) => none
    | r => some r

/-- The digits behind a point, and what follows them.  A point without digits is no part of
the number. -/
def cutFraction : List Char → List Nat × List Char
  | '.' :: rest => match spanDigits rest with
    | ([], _) => ([], '.' :: rest)
    | r => r
  | s => ([], s)

/-- The exponent, if there is one, and what follows it.  A letter without digits is no part of
the number. -/
def cutExponent : List Char → Option Int × List Char
  | [] => (none, [])
  | c :: rest =>
    if c = 'e' || c = 'E' then
      match spanDigits (splitSign rest).2 with
      | ([], _) => (none, c :: rest)
      | (ds, behind) =>
        (some (if (splitSign rest).1 then -(ofDigits ds : Int) else ofDigits ds), behind)
    else (none, c :: rest)

/-- The token of a number, from its parts. -/
def numberToken (negative : Bool) (whole fraction : List Nat) (exponent : Option Int) : Token :=
  if fraction.isEmpty && exponent.isNone then
    if maxIntegerDigits < whole.length then .hugeInteger
    else
      let n : Int := ofDigits whole
      .atom (.int (if negative then -n else n))
  else
    let d : Decimal := ⟨ofDigits (whole ++ fraction), exponent.getD 0 - fraction.length⟩
    .atom (.float (d.toDouble negative))

/-- The number without a sign at the start of a text, and what follows it. -/
def cutUnsigned (negative : Bool) (s : List Char) : Option (Token × List Char) :=
  match cutWhole s with
  | none => none
  | some (whole, rest) =>
    let (fraction, rest) := cutFraction rest
    let (exponent, rest) := cutExponent rest
    some (numberToken negative whole fraction exponent, rest)

/-- The number at the start of a text, and what follows it. -/
def cutNumber : List Char → Option (Token × List Char)
  | '-' :: rest => cutUnsigned true rest
  | s => cutUnsigned false s

theorem length_of_spanDigits {s rest : List Char} {ds : List Nat}
    (h : spanDigits s = (ds, rest)) : rest.length + ds.length = s.length := by
  have := congrArg List.length (List.takeWhile_append_dropWhile (p := Char.isDigit) (l := s))
  simp only [spanDigits, Prod.mk.injEq] at h
  simp only [List.length_append] at this
  rw [← h.1, ← h.2, List.length_map]
  omega

theorem length_of_splitSign (s : List Char) : (splitSign s).2.length ≤ s.length := by
  unfold splitSign
  split <;> simp

theorem length_of_cutWhole {s : List Char} {r : List Nat × List Char} (h : cutWhole s = some r) :
    r.2.length < s.length := by
  unfold cutWhole at h
  split at h
  · simp only [Option.some.injEq] at h
    simp [← h]
  · rcases hs : spanDigits s with ⟨_ | ⟨d, ds⟩, rest⟩
    · simp [hs] at h
    · simp only [hs, Option.some.injEq] at h
      have := length_of_spanDigits hs
      simp only [List.length_cons] at this
      simp only [← h]
      omega

theorem length_of_cutFraction (s : List Char) : (cutFraction s).2.length ≤ s.length := by
  unfold cutFraction
  split
  · rename_i rest
    rcases hs : spanDigits rest with ⟨_ | ⟨d, ds⟩, behind⟩
    · simp
    · have := length_of_spanDigits hs
      simp only [List.length_cons] at this ⊢
      omega
  · simp

theorem length_of_cutExponent (s : List Char) : (cutExponent s).2.length ≤ s.length := by
  unfold cutExponent
  split
  · simp
  · rename_i c rest
    split
    · split
      · simp
      · rename_i h
        have := length_of_spanDigits h
        have := length_of_splitSign rest
        simp only [List.length_cons]
        omega
    · simp

/-- What follows a number is shorter than what the number stands in front of. -/
theorem length_of_cutNumber {s : List Char} {r : Token × List Char} (h : cutNumber s = some r) :
    r.2.length < s.length := by
  have unsigned {negative : Bool} {s : List Char} (h : cutUnsigned negative s = some r) :
      r.2.length < s.length := by
    unfold cutUnsigned at h
    split at h
    · simp at h
    · rename_i whole rest heq
      have := length_of_cutWhole heq
      have := length_of_cutFraction rest
      have := length_of_cutExponent (cutFraction rest).2
      simp only [Option.some.injEq] at h
      rw [← h]
      simp only at *
      omega
  unfold cutNumber at h
  split at h
  · have := unsigned h
    simp only [List.length_cons]
    omega
  · exact unsigned h

/-! ## Names -/

/-- The names that are values, without their first letters. -/
def valueNames : List (Char × String × Value) := [
  ('n', "ull", .null),
  ('t', "rue", .bool true),
  ('f', "alse", .bool false),
  ('N', "aN", .float (Double.nan false)),
  ('I', "nfinity", .float (Double.infinity false)),
  ('-', "Infinity", .float (Double.infinity true))]

/-- The name that a letter and what follows it begin with, and what follows the name. -/
def cutName (c : Char) (rest : List Char) : Option (Token × List Char) :=
  (valueNames.find? fun n => n.1 = c && n.2.1.toList.isPrefixOf rest).map fun n =>
    (.atom n.2.2, rest.drop n.2.1.length)

theorem length_of_cutName {c : Char} {rest : List Char} {r : Token × List Char}
    (h : cutName c rest = some r) : r.2.length ≤ rest.length := by
  obtain ⟨n, _, rfl⟩ := Option.map_eq_some_iff.1 h
  simp

/-! ## Cutting -/

/-- The token of a character that is one by itself. -/
def markToken? : Char → Option Token
  | '[' => some .openList
  | ']' => some .closeList
  | '\x7b' => some .openObject
  | '\x7d' => some .closeObject
  | ':' => some .colon
  | ',' => some .comma
  | _ => none

/-- The four characters allowed between tokens. -/
def isSpace (c : Char) : Bool := c == ' ' || c == '\t' || c == '\n' || c == '\r'

/-- Cuts a text into tokens; `acc` holds those before it, latest first. -/
def tokensAfter (acc : List Token) (s : List Char) : List Token :=
  match s with
  | [] => acc.reverse
  | c :: rest =>
    if isSpace c then tokensAfter acc rest
    else match markToken? c with
      | some t => tokensAfter (t :: acc) rest
      | none =>
        if c = '"' then
          match h : scanString [] rest with
          | some (units, rest') =>
            have := length_of_scanString h
            tokensAfter (stringToken units :: acc) rest'
          | none => (Token.bad :: acc).reverse
        else match h : cutName c rest with
          | some (t, rest') =>
            have := length_of_cutName h
            tokensAfter (t :: acc) rest'
          | none => match h : cutNumber (c :: rest) with
            | some (t, rest') =>
              have := length_of_cutNumber h
              tokensAfter (t :: acc) rest'
            | none => (Token.bad :: acc).reverse
termination_by s.length
decreasing_by all_goals simp_all <;> omega

/-- The tokens of a text. -/
def tokens (s : String) : List Token := tokensAfter [] s.toList

end ComHeaders.Json
