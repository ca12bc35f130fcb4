import ComHeaders.Text.Printable

/-!
# Quoted text

Inside a message a text is shown between quotes.  Single quotes are the rule; a text
that contains a single quote and no double quote is shown between double quotes.  The
chosen quote and the backslash are escaped, the three usual control characters get
their letters, and any other character that is not printable is written by its number.
-/

namespace ComHeaders

/-- A number in lower-case hexadecimal, padded with zeros to a least width. -/
def hexDigits (width n : Nat) : List Char :=
  let ds := Nat.toDigits 16 n
  List.replicate (width - ds.length) '0' ++ ds

namespace Quoted

/-- The quote a text is shown with. -/
def quoteFor (s : List Char) : Char :=
  if s.contains '\'' && !s.contains '"' then '"' else '\''

/-- An unprintable character by its number: two, four or eight hexadecimal digits. -/
def escapeNumber (c : Char) : List Char :=
  let n := c.toNat
  if n < 0x100 then '\\' :: 'x' :: hexDigits 2 n
  else if n < 0x10000 then '\\' :: 'u' :: hexDigits 4 n
  else '\\' :: 'U' :: hexDigits 8 n

/-- How one character is shown inside the given quotes. -/
def escape (quote c : Char) : List Char :=
  if c = quote || c = '\\' then ['\\', c]
  else if c = '\n' then ['\\', 'n']
  else if c = '\r' then ['\\', 'r']
  else if c = '\t' then ['\\', 't']
  else if isPrintable c then [c]
  else escapeNumber c

end Quoted

/-- A text between quotes. -/
def quoted (s : String) : String :=
  let cs := s.toList
  let q := Quoted.quoteFor cs
  String.ofList (q :: cs.flatMap (Quoted.escape q) ++ [q])

end ComHeaders
