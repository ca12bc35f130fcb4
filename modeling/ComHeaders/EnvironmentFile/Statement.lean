import ComHeaders.Settings

/-!
# Statements of environment files

An environment file assigns values to variables, one assignment a line.  The word `export`
may stand in front.  A value may stand in single or double quotes, which are then no part of
it and let it go on over line breaks; escapes are resolved inside quotes only.  Without
quotes a value ends with its line, or at a number sign behind a blank.  A quote behind a
backslash does not end a value, and a value whose quote is never closed makes its line
unreadable.

A line that cannot be read is no reason to stop: reading goes on with the line behind the
place where it failed.
-/

namespace ComHeaders

namespace EnvironmentFile

/-- Blanks, line breaks and separators. -/
def isSpace (c : Char) : Bool := isBlank c || (0x1c ≤ c.toNat && c.toNat ≤ 0x1f)

/-- Blanks within a line. -/
def isLineSpace (c : Char) : Bool := isSpace c && c ≠ '\n'

/-- The text with all line breaks written in one way. -/
def unifyBreaks : List Char → List Char
  | [] => []
  | '\r' :: '\n' :: rest => '\n' :: unifyBreaks rest
  | '\r' :: rest => '\n' :: unifyBreaks rest
  | c :: rest => c :: unifyBreaks rest

/-! ## Quotes and escapes -/

/-- The text up to the closing quote and what follows it.  A quote behind a backslash does not
close the text. -/
def quotedText (quote : Char) : List Char → Option (List Char × List Char)
  | [] => none
  | '\\' :: c :: rest =>
    (quotedText quote rest).map fun (text, behind) => ('\\' :: c :: text, behind)
  | c :: rest =>
    if c = quote then some ([], rest)
    else (quotedText quote rest).map fun (text, behind) => (c :: text, behind)

/-- The characters that single-quoted texts write behind a backslash. -/
def singleEscape? : Char → Option Char
  | '\\' => some '\\'
  | '\'' => some '\''
  | _ => none

/-- The characters that double-quoted texts write behind a backslash. -/
def doubleEscape? : Char → Option Char
  | '\\' => some '\\'
  | '\'' => some '\''
  | '"' => some '"'
  | 'a' => some '\x07'
  | 'b' => some '\x08'
  | 'f' => some '\x0c'
  | 'n' => some '\n'
  | 'r' => some '\r'
  | 't' => some '\t'
  | 'v' => some '\x0b'
  | _ => none

/-- The text with its escapes resolved.  A backslash that escapes nothing stays. -/
def unescape (escape? : Char → Option Char) : List Char → List Char
  | [] => []
  | '\\' :: c :: rest => match escape? c with
    | some d => d :: unescape escape? rest
    | none => '\\' :: unescape escape? (c :: rest)
  | c :: rest => c :: unescape escape? rest

/-! ## Parts of a line -/

/-- What stands behind the word that may open a line. -/
def behindExport (s : List Char) : List Char :=
  let word := "export".toList
  if word.isPrefixOf s then
    match s.drop word.length with
    | c :: rest => if isLineSpace c then rest.dropWhile isLineSpace else s
    | [] => s
  else s

/-- The name of a variable and what follows it.  A line has none if it is a comment; a line
that cannot be read is given back from where reading stopped. -/
def name : List Char → Except (List Char) (Option String × List Char)
  | '#' :: rest => .ok (none, '#' :: rest)
  | '\'' :: rest =>
    let name := rest.takeWhile (· ≠ '\'')
    match name, rest.drop name.length with
    | _ :: _, _ :: behind => .ok (some (String.ofList name), behind)
    | _, _ => .error ('\'' :: rest)
  | s =>
    let inName := fun c => c ≠ '=' && c ≠ '#' && !isSpace c
    match s.takeWhile inName with
    | [] => .error s
    | name => .ok (some (String.ofList name), s.dropWhile inName)

/-- The text in front of a comment. -/
def beforeComment : List Char → List Char
  | [] => []
  | c :: rest =>
    if isSpace c && (rest.dropWhile isSpace).head? = some '#' then [] else c :: beforeComment rest

/-- A value without quotes: the line behind the equals sign, without a comment and the blanks
at both ends. -/
def plainValue (line : List Char) : String :=
  String.ofList (((beforeComment line).dropWhile isSpace).reverse.dropWhile isSpace).reverse

/-- A value and what follows it, from what stands behind the equals sign. -/
def value (s : List Char) : Except (List Char) (String × List Char) :=
  match s.dropWhile isLineSpace with
  | '\'' :: rest => match quotedText '\'' rest with
    | some (text, behind) => .ok (String.ofList (unescape singleEscape? text), behind)
    | none => .error ('\'' :: rest)
  | '"' :: rest => match quotedText '"' rest with
    | some (text, behind) => .ok (String.ofList (unescape doubleEscape? text), behind)
    | none => .error ('"' :: rest)
  | _ =>
    let line := s.takeWhile (· ≠ '\n')
    .ok (plainValue line, s.drop line.length)

/-- What follows a line of which nothing but a comment is left. -/
def behindLine (s : List Char) : Except (List Char) (List Char) :=
  match s.dropWhile isLineSpace with
  | '#' :: rest => .ok ((rest.dropWhile (· ≠ '\n')).drop 1)
  | '\n' :: rest => .ok rest
  | [] => .ok []
  | _ => .error s

/-- What an environment file says in a place. -/
inductive Statement where
  /-- A variable gets a value, or is named without one. -/
  | assignment (name : String) (value? : Option String)
  /-- What cannot be read, by its first line. -/
  | unreadable (line : String)
  deriving DecidableEq, Repr

/-- The assignment that opens some lines, if it is not a comment, and the lines behind it. -/
def assignment (s : List Char) : Except (List Char) (Option Statement × List Char) := do
  let (name?, rest) ← name (behindExport s)
  let (value?, rest) ← match rest.dropWhile isLineSpace with
    | '=' :: rest => do
      let (v, rest) ← value rest
      pure (some v, rest)
    | rest => pure (none, rest)
  let rest ← behindLine rest
  return (name?.map fun n => .assignment n value?, rest)

/-- The statements of some lines, in their order.  Each round takes a character at least. -/
def statementsWithin : Nat → List Char → List Statement
  | 0, _ => []
  | fuel + 1, s =>
    match s.dropWhile isSpace with
    | [] => []
    | s => match assignment s with
      | .ok (a, rest) => a.toList ++ statementsWithin fuel rest
      | .error rest =>
        .unreadable (String.ofList (s.takeWhile (· ≠ '\n'))) ::
          statementsWithin fuel ((rest.dropWhile (· ≠ '\n')).drop 1)

/-- The text without the mark that may tell the order of its bytes. -/
def withoutMark : List Char → List Char
  | '\ufeff' :: rest => rest
  | s => s

/-- The statements of a file, in their order. -/
def statements (text : String) : List Statement :=
  let s := unifyBreaks (withoutMark text.toList)
  statementsWithin (s.length + 1) s

end EnvironmentFile

end ComHeaders
