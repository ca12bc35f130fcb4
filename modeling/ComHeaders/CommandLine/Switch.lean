import ComHeaders.Text.Digit

/-!
# Words of a command line

A word of a command line is a value, the two dashes that end the switches, or a switch.
A switch may be named in full, a long name may be shortened as long as one switch alone
has a name that begins so, and a value may be joined to the name.  A word that begins
with a dash and names no switch is still a value if it looks like a negative number or
contains a blank.
-/

namespace ComHeaders

/-- The switches of the command line. -/
inductive Switch where
  | help
  /-- The directory for the headers. -/
  | output
  | verbose
  /-- A namespace to make a header for. -/
  | namespaceName
  /-- Asks for the namespaces of the metadata. -/
  | listNamespaces
  deriving DecidableEq, Repr

namespace Switch

/-- Whether a value belongs to a switch. -/
def takesValue : Switch → Bool
  | output | namespaceName => true
  | help | verbose | listNamespaces => false

/-- The letters that name switches behind one dash. -/
def ofLetter? : Char → Option Switch
  | 'h' => some help
  | 'o' => some output
  | 'v' => some verbose
  | _ => none

/-- The names of switches behind two dashes. -/
def longNames : List (String × Switch) := [
  ("help", help),
  ("output", output),
  ("verbose", verbose),
  ("namespace", namespaceName),
  ("list-namespaces", listNamespaces)]

end Switch

/-- Why a command line is not followed. -/
inductive Refusal where
  /-- It asks how the command line is used. -/
  | help
  /-- It is used in the wrong way. -/
  | usage
  deriving DecidableEq, Repr

/-- A word of a command line. -/
inductive Word where
  | value (s : String)
  /-- The two dashes behind which every word is a value. -/
  | dashes
  /-- A switch named by its letter, and the text joined to it. -/
  | short (switch : Switch) (joined : Option (List Char))
  /-- A switch named by its long name, and the text joined to it. -/
  | long (switch : Switch) (joined : Option (List Char))
  /-- A word that looks like a switch and is none. -/
  | unknown
  deriving DecidableEq, Repr

namespace Word

/-- Parts a word at its first equals sign. -/
def partAtSign (s : List Char) : List Char × Option (List Char) :=
  match s.dropWhile (· ≠ '=') with
  | [] => (s, none)
  | _ :: rest => (s.takeWhile (· ≠ '='), some rest)

/-- Whether digits of any script fill a text that is not empty. -/
def isDigits (s : List Char) : Bool := !s.isEmpty && s.all fun c => (digitValue? c).isSome

/-- Whether the text behind a dash is that of a number, a line break at its end being
allowed. -/
def isNumeral (s : List Char) : Bool :=
  let s := if s.getLast? = some '\n' then s.dropLast else s
  let whole := s.takeWhile fun c => (digitValue? c).isSome
  match s.drop whole.length with
  | [] => isDigits whole
  | '.' :: fraction => isDigits fraction
  | _ => false

/-- A word with a dash that names no switch. -/
def nameless (s : List Char) : Word :=
  if isNumeral s.tail || s.contains ' ' then .value (String.ofList s) else .unknown

/-- A word behind whose one dash stands a text.  An equals sign between the letter and the
text belongs to neither. -/
def ofShort (c : Char) (rest : List Char) : Word :=
  match Switch.ofLetter? c, rest with
  | none, _ => nameless ('-' :: c :: rest)
  | some switch, [] => .short switch none
  | some switch, '=' :: text => .short switch (some text)
  | some switch, rest => .short switch (some rest)

/-- A word behind whose two dashes stands a text.  A full name counts before the names
that begin with it. -/
def ofLong (rest : List Char) : Except Refusal Word :=
  let (name, joined) := partAtSign rest
  match Switch.longNames.lookup (String.ofList name) with
  | some switch => .ok (.long switch joined)
  | none => match Switch.longNames.filter fun e => name.isPrefixOf e.1.toList with
    | [] => .ok (nameless ('-' :: '-' :: rest))
    | [(_, switch)] => .ok (.long switch joined)
    | _ => .error .usage

/-- What a word is, in front of two dashes that stand alone. -/
def ofString (s : String) : Except Refusal Word :=
  match s.toList with
  | '-' :: '-' :: rest => ofLong rest
  | '-' :: c :: rest => .ok (ofShort c rest)
  | _ => .ok (.value s)

/-- The words of a command line. -/
def ofStrings : List String → Except Refusal (List Word)
  | [] => .ok []
  | s :: rest =>
    if s = "--" then .ok (.dashes :: rest.map .value)
    else do return (← ofString s) :: (← ofStrings rest)

end Word

end ComHeaders
