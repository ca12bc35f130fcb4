import ComHeaders.CommandLine.Switch
import ComHeaders.Files.Path

/-!
# Arguments

The arguments are what a command line asks for.  Its words are followed from left to right.
A switch takes the value joined to it, or else the next word.  Several switches that are
named by letters may share a word.  One value stands on its own: the metadata file.  Words
that are left over make the command line wrong, but a question for help in front of the
place where it goes wrong is answered first.

Two dashes that stand alone are never a value.  Where they are joined to a switch, it depends on
the host: they are its value, or the switch is used but names nothing.
-/

namespace ComHeaders

/-- What a command line asks for. -/
structure Arguments where
  metadataFile : Option Path := none
  /-- The directory for the headers, if one is asked for; the inner option is empty if nothing
  is named. -/
  output : Option (Option Path) := none
  isVerbose : Bool := false
  /-- The namespaces asked for, if any. -/
  namespaces : Option (List (Option String)) := none
  listsNamespaces : Bool := false
  deriving DecidableEq, Repr

namespace Arguments

/-- A switch and the value it was given. -/
abbrev Use := Switch × String

/-- What a value names; two dashes name nothing unless they are kept. -/
def named? (keepsDashes : Bool) (v : String) : Option String :=
  if v = "--" && !keepsDashes then none else some v

/-- The arguments with one more switch. -/
def apply (keepsDashes : Bool) (a : Arguments) : Use → Except Refusal Arguments
  | (.help, _) => .error .help
  | (.output, v) => .ok { a with output := some ((named? keepsDashes v).map .ofString) }
  | (.verbose, _) => .ok { a with isVerbose := true }
  | (.namespaceName, v) =>
    .ok { a with namespaces := some (a.namespaces.getD [] ++ [named? keepsDashes v]) }
  | (.listNamespaces, _) => .ok { a with listsNamespaces := true }

/-- How the switches of one word end. -/
inductive Tail where
  /-- With a switch that takes no value, or with one that has its value. -/
  | complete
  /-- With a switch that takes the next word. -/
  | wants (switch : Switch)
  /-- With no switch: the word looks like one but names none. -/
  | unknown
  deriving DecidableEq, Repr

/-- The switches of a word that begins with a switch named by its letter, from the text joined
to it.  The text is the value of a switch that takes one.  Behind another switch it goes on
with the letter of the next one. -/
def cluster (switch : Switch) : List Char → Except Refusal (List Use × Tail)
  | [] => if switch.takesValue then .ok ([(switch, "")], .complete) else .error .usage
  | c :: rest =>
    if switch.takesValue then .ok ([(switch, String.ofList (c :: rest))], .complete)
    else
      match Switch.ofLetter? c, rest with
      | none, _ => .error .usage
      | some next, [] =>
        if next.takesValue then .ok ([(switch, "")], .wants next)
        else .ok ([(switch, ""), (next, "")], .complete)
      | some next, d :: rest => do
        let (uses, tail) ← cluster next (d :: rest)
        return ((switch, "") :: uses, tail)

/-- The switches of a word; none for a word that is no switch. -/
def usesOf : Word → Except Refusal (List Use × Tail)
  | .value _ | .dashes => .ok ([], .complete)
  | .unknown => .ok ([], .unknown)
  | .short switch none | .long switch none =>
    if switch.takesValue then .ok ([], .wants switch) else .ok ([(switch, "")], .complete)
  | .short switch (some joined) => cluster switch joined
  | .long switch (some joined) =>
    if switch.takesValue then .ok ([(switch, String.ofList joined)], .complete)
    else .error .usage

/-- How far a command line has been followed. -/
structure Progress where
  arguments : Arguments := {}
  /-- Whether the value that stands on its own is still to come. -/
  awaitsFile : Bool := true
  /-- Whether words are left over. -/
  hasExtras : Bool := false

namespace Progress

def applyAll (keepsDashes : Bool) (p : Progress) (uses : List Use) : Except Refusal Progress := do
  return { p with arguments := ← uses.foldlM (Arguments.apply keepsDashes) p.arguments }

/-- Follows words.  The two dashes belong to the value beside them. -/
def follow (keepsDashes : Bool) : Progress → List Word → Except Refusal Progress
  | p, [] => .ok p
  | p, .dashes :: .value s :: rest =>
    if p.awaitsFile then
      follow keepsDashes
        { p with arguments.metadataFile := some (.ofString s), awaitsFile := false } rest
    else .ok { p with hasExtras := true }
  | p, [.dashes] => .ok (if p.awaitsFile then p else { p with hasExtras := true })
  | p, [.value s, .dashes] =>
    if p.awaitsFile then
      .ok { p with arguments.metadataFile := some (.ofString s), awaitsFile := false }
    else .ok { p with hasExtras := true }
  | p, .value s :: rest =>
    if p.awaitsFile then
      follow keepsDashes
        { p with arguments.metadataFile := some (.ofString s), awaitsFile := false } rest
    else follow keepsDashes { p with hasExtras := true } rest
  | p, word :: rest => do
    match ← usesOf word, rest with
    | (uses, .complete), rest => follow keepsDashes (← p.applyAll keepsDashes uses) rest
    | (uses, .unknown), rest =>
      follow keepsDashes { ← p.applyAll keepsDashes uses with hasExtras := true } rest
    | (uses, .wants switch), .value v :: rest =>
      follow keepsDashes (← p.applyAll keepsDashes (uses ++ [(switch, v)])) rest
    | _, _ => throw .usage

end Progress

/-- What the words of a command line ask for. -/
def ofStrings (keepsDashes : Bool) (words : List String) : Except Refusal Arguments := do
  let p ← Progress.follow keepsDashes {} (← Word.ofStrings words)
  if p.hasExtras then throw .usage
  return p.arguments

end Arguments

end ComHeaders
