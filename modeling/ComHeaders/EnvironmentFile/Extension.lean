import ComHeaders.EnvironmentFile.Reference
import ComHeaders.EnvironmentFile.Statement
import ComHeaders.Fault
import ComHeaders.Table

/-!
# Environments and environment files

The assignments of an environment file take effect in their order.  A value can refer to the
variables of the environment and to those assigned before it, and the last assignment to a
variable counts.  A variable that the environment has already keeps its value, also where
another value refers to it (`lookup_extend`).
-/

namespace ComHeaders

namespace EnvironmentFile

/-- The values of the variables of a file, for a given environment. -/
def values (env : Environment) (text : String) : Table (Option String) :=
  (statements text).foldl (fun known s => match s with
    | .assignment name value? =>
      let valueOf? := fun n => (env.lookup n).or ((known.lookup n).map (·.getD ""))
      known.set name (value?.map fun v => String.ofList (expand valueOf? v.toList))
    | .unreadable _ => known) ([] : Table (Option String))

/-- What is said about the statements of a file that cannot be read. -/
def warnings (text : String) : List String :=
  (statements text).filterMap fun s => match s with
    | .assignment .. => none
    | .unreadable line => some s!"Cannot read a line of the environment file: {line}"

end EnvironmentFile

namespace Environment

/-- The variables that an environment file adds to an environment. -/
def added (env : Environment) (text : String) : Environment :=
  (EnvironmentFile.values env text).filterMap fun (n, v) =>
    if (env.lookup n).isSome then none else v.map (n, ·)

/-- Why an environment cannot hold a variable: null characters have no place in it, and an
equals sign would end the name. -/
def refusal? (name value : String) : Option Fault :=
  if name.contains '\x00' || value.contains '\x00' then some .nullCharacter
  else if name.contains '=' then some .illegalName
  else none

/-- The environment with the variables of an environment file added. -/
def extend (env : Environment) (text : String) : Except Fault Environment :=
  let added := env.added text
  match added.findSome? fun (n, v) => refusal? n v with
  | some f => .error f
  | none => .ok (env ++ added)

/-- The environment keeps its variables when a file is added. -/
theorem lookup_extend {env extended : Environment} {text n v : String}
    (he : env.extend text = .ok extended) (h : env.lookup n = some v) :
    extended.lookup n = some v := by
  simp only [extend] at he
  split at he
  · cases he
  · injection he with he
    rw [← he, List.lookup_append, h, Option.some_or]

end Environment

end ComHeaders
