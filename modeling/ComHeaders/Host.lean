import ComHeaders.EnvironmentFile.Extension
import ComHeaders.Files.Tree

/-!
# Hosts

A run depends on things around it that are not its own.  It has environment files read for it,
and its command line parsed; it shows lines on a console; and the machine has room for texts up
to some length.  A host says how these things are, and the run takes them as they come.
-/

namespace ComHeaders

/-- A reader of environment files. -/
structure EnvironmentReader where
  /-- The environment with the variables of the file at a path added. -/
  load : Environment → FileTree → Path → Except Fault Environment
  /-- A variable that the environment has already keeps its value. -/
  keeps : ∀ {env files p extended n v},
    load env files p = .ok extended → env.lookup n = some v → extended.lookup n = some v

/-- What is around a run. -/
structure Host where
  environmentFiles : EnvironmentReader
  /-- Whether the console can show a text. -/
  displays : String → Bool
  /-- The length of the longest text there is room for. -/
  room : Nat
  /-- Whether two dashes that are joined to a switch are its value. -/
  keepsDashes : Bool

/-! ## A host -/

/-- The text of the file at a path, if there is a file. -/
def FileTree.text? (files : FileTree) (p : Path) : Except Fault (Option String) :=
  match files.find? p with
  | some (.file _) => match files.read p with
    | .ok data => match String.fromUTF8? data with
      | some text => .ok (some text)
      | none => .error .badEncoding
    | .error f => .error f
  | _ => .ok none

namespace Environment

/-- The environment with the variables of the file at a path added. -/
def extendFrom (env : Environment) (files : FileTree) (p : Path) : Except Fault Environment :=
  match files.text? p with
  | .ok (some text) => env.extend text
  | .ok none => .ok env
  | .error f => .error f

theorem lookup_extendFrom {env extended : Environment} {files : FileTree} {p : Path}
    {n v : String} (he : env.extendFrom files p = .ok extended) (h : env.lookup n = some v) :
    extended.lookup n = some v := by
  rw [extendFrom] at he
  split at he
  · exact lookup_extend he h
  · cases he
    exact h
  · cases he

end Environment

/-- The reader that knows assignments and references to variables. -/
def EnvironmentFile.reader : EnvironmentReader :=
  ⟨Environment.extendFrom, Environment.lookup_extendFrom⟩

/-- What that reader says about the file at a path before anything else. -/
def EnvironmentFile.warningsAt (files : FileTree) (p : Path) : List String :=
  match files.text? p with
  | .ok (some text) => warnings text
  | _ => []

/-- A host with that reader, with a console that can show everything, and with the usual room. -/
def Host.common : Host where
  environmentFiles := EnvironmentFile.reader
  displays _ := true
  room := usualRoom
  keepsDashes := false

end ComHeaders
