import ComHeaders.Number.Decimal
import ComHeaders.Text.Digit

/-!
# Numbers written as text

People write numbers with blanks around them, a sign in front, and single underscores
between the digits.  Both readers below allow exactly that and refuse everything else.
The digits may come from any script: they are first replaced by their values, so the
grammar proper sees only values, signs, points and the letters of an exponent.
-/

namespace ComHeaders

/-- The value of a digit sequence, most significant digit first. -/
def ofDigits (ds : List Nat) : Nat := ds.foldl (fun n d => 10 * n + d) 0

/-- The plain digit for a value below ten. -/
def plainDigit (d : Nat) : Char := Char.ofNat (48 + d)

/-- Digits of any script as plain ones, other characters as they are. -/
def plainDigits (s : List Char) : List Char :=
  s.map fun c => match digitValue? c with
    | some d => plainDigit d
    | none => c

/-- The text without its underscores, if each of them stands between two digits.  The
flag tells whether the character in front was a digit. -/
def dropUnderscores : Bool → List Char → Option (List Char)
  | _, [] => some []
  | afterDigit, c :: rest =>
    if c = '_' then
      match rest with
      | d :: _ => if afterDigit && d.isDigit then dropUnderscores false rest else none
      | [] => none
    else (dropUnderscores c.isDigit rest).map (c :: ·)

/-- The sign in front, and what follows it. -/
def splitSign : List Char → Bool × List Char
  | '-' :: rest => (true, rest)
  | '+' :: rest => (false, rest)
  | s => (false, s)

/-- The digits in front, as values, and what follows them. -/
def spanDigits (s : List Char) : List Nat × List Char :=
  ((s.takeWhile Char.isDigit).map fun c => c.toNat - 48, s.dropWhile Char.isDigit)

/-- Integers of more digits than this are refused, whatever writes them. -/
def maxIntegerDigits : Nat := 4300

/-- The text of a number with blanks, scripts and underscores taken away. -/
def bareNumber? (s : List Char) : Option (List Char) :=
  dropUnderscores false (plainDigits (trimBlanks s))

/-- The integer a text writes. -/
def readInteger? (s : String) : Option Int := do
  let bare ← bareNumber? s.toList
  let (negative, rest) := splitSign bare
  let (ds, rest) := spanDigits rest
  if ds.isEmpty || !rest.isEmpty || maxIntegerDigits < ds.length then none
  else
    let n : Int := ofDigits ds
    some (if negative then -n else n)

/-- The exponent at the end of a number: a letter, a sign and digits, or nothing at all. -/
def readExponent? : List Char → Option Int
  | [] => some 0
  | c :: rest =>
    if c = 'e' || c = 'E' then
      let (negative, rest) := splitSign rest
      let (ds, rest) := spanDigits rest
      if ds.isEmpty || !rest.isEmpty then none
      else some (if negative then -(ofDigits ds : Int) else ofDigits ds)
    else none

/-- The decimal an unsigned text writes: digits with at most one point among or beside
them, then perhaps an exponent. -/
def readDecimal? (s : List Char) : Option Decimal := do
  let (whole, rest) := spanDigits s
  let (fraction, rest) := match rest with
    | '.' :: rest => spanDigits rest
    | rest => ([], rest)
  if whole.isEmpty && fraction.isEmpty then none
  else
    let e ← readExponent? rest
    some ⟨ofDigits (whole ++ fraction), e - fraction.length⟩

/-- The double a text writes, the words for infinity and not-a-number included. -/
def readDouble? (s : String) : Option Double := do
  let bare ← bareNumber? s.toList
  let (negative, rest) := splitSign bare
  let word := String.ofList (rest.map Char.toLower)
  if word = "inf" || word = "infinity" then some (Double.infinity negative)
  else if word = "nan" then some (Double.nan negative)
  else (readDecimal? rest).map (Decimal.toDouble negative)

end ComHeaders
