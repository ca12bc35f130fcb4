import ComHeaders.Classify.Interface
import ComHeaders.Naming
import ComHeaders.Settings
import ComHeaders.Text.Column

/-!
# Dispatch wrappers

A method of an interface is called through the interface's dispatch table.  The header
has one inline function for each slot of the table: it casts the entry to a function
pointer of the exact signature and calls it.

## Slots

The table of an interface starts with the table of its base.  So the slots are numbered
along the chain of bases, the root first, each interface's methods in their order.  The
chain is walked by looking bases up; every step takes one name out of those that were not
visited, and a base that was visited before closes a cycle.

## Names

Two methods of a chain can have one name.  The later one gets the smallest numeric suffix
that makes it new.

## Aggregates

The native convention returns an aggregate through a hidden pointer behind the receiver.
The wrapper hides that again.  A method that also takes parameters is only wrapped if the
settings allow it.
-/

namespace ComHeaders

/-- A wrapper, with the slot it calls. -/
structure Wrapper where
  /-- The interface that declares the method. -/
  interfaceName : String
  methodName : String
  wrapperName : String
  slot : Nat
  lines : List String
  deriving DecidableEq, Repr

/-- How wrappers are laid out, and which are allowed. -/
structure WrapperStyle where
  returnWidth : Int := 33
  nameWidth : Int := 61
  generalize : Bool := false
  /-- The length of the longest text there is room for. -/
  room : Nat := usualRoom

namespace Wrapper

/-- The base chain of an interface, the root first.  `unvisited` holds the names of the
repository's definitions that the walk has not come to. -/
def chainFrom (r : Repository) (unvisited : List String) (i : InterfaceDecl) :
    Pass (List InterfaceDecl) :=
  match i.base with
  | none => return [i]
  | some b => do
    let base ← InterfaceDecl.lookup r b
    if h : base.fullName ∈ unvisited then
      have : (unvisited.erase base.fullName).length < unvisited.length := by
        have := List.length_pos_of_mem h
        rw [List.length_erase_of_mem h]
        omega
      return (← chainFrom r (unvisited.erase base.fullName) base) ++ [i]
    else throw (.unsupportedShape base.fullName .cyclicBases)
termination_by unvisited.length

/-- The base chain of an interface. -/
def chain (r : Repository) (i : InterfaceDecl) : Pass (List InterfaceDecl) :=
  chainFrom r (r.index.keys.erase i.fullName) i

/-- The methods of a chain in the order of their slots, each with the interface that
declares it. -/
def table (is : List InterfaceDecl) : List (String × MethodDecl) :=
  is.flatMap fun i => i.methods.map fun m => (i.name, m)

/-- The name itself if it is new, or else the name with the smallest positive number behind
it that makes it new.  One more number than there are names is always enough. -/
def freshName (taken : List String) (name : String) : String :=
  if taken.contains name then
    match (List.range (taken.length + 1)).find? fun (k : Nat) =>
        !taken.contains (name ++ toString (k + 1)) with
    | some k => name ++ toString (k + 1)
    | none => name
  else name

/-! ## The text of a wrapper -/

/-- What the text of a wrapper is made of, in the names of the header. -/
structure Call where
  receiver : String
  wrapperName : String
  slot : Nat
  returnName : String
  /-- The parameters, each with its type and its name. -/
  parameters : List (String × String)
  /-- Whether the result comes back through the hidden pointer. -/
  viaPointer : Bool
  deriving DecidableEq, Repr

namespace Call

/-- The parameters of the wrapper itself. -/
def declared (c : Call) : List String :=
  (c.receiver ++ "* this") :: c.parameters.map fun p => p.1 ++ " " ++ p.2

/-- The parameter types of the function pointer. -/
def castTypes (c : Call) : List String :=
  (c.receiver ++ "*") :: (if c.viaPointer then [c.returnName ++ "*"] else []) ++
    c.parameters.map (·.1)

/-- The arguments of the call. -/
def arguments (c : Call) : List String :=
  "this" :: (if c.viaPointer then ["&_return"] else []) ++ c.parameters.map (·.2)

/-- The cast entry of the table, called. -/
def invocation (c : Call) : String :=
  let result := if c.viaPointer then "void" else c.returnName
  s!"(({result} (WINAPI*)(" ++ ", ".intercalate c.castTypes ++
    s!"))this->v->tbl[{c.slot}])(" ++ ", ".intercalate c.arguments ++ ");"

/-- The body between the braces. -/
def body (c : Call) : String :=
  if c.viaPointer then s!" {c.returnName} _return; " ++ c.invocation ++ " return _return;"
  else if c.returnName = "void" then " " ++ c.invocation
  else " return " ++ c.invocation

/-- The whole line, with the two columns in front of the parameters. -/
def line (c : Call) (returnColumn nameColumn : String) : String :=
  s!"static inline {returnColumn} {nameColumn}(" ++ ", ".intercalate c.declared ++ ") \x7b" ++
    c.body ++ " \x7d"

end Call

/-- The mark in front of a wrapper of an obsolete method. -/
def deprecationLine (message : String) : String := "__declspec(deprecated(\"" ++ message ++ "\"))"

/-- The lines of the wrapper of a method at a slot. -/
def render (n : Naming) (style : WrapperStyle) (receiver wrapperName : String) (m : MethodDecl)
    (slot : Nat) : Pass (List String) := do
  let returnName ← n.name m.returnType
  let types ← m.parameters.mapM fun p => n.parameterName p.type p.isConst
  let returnColumn ← Pass.ofExcept (valueColumn style.room style.returnWidth returnName)
  let nameColumn ← Pass.ofExcept (column style.room style.nameWidth wrapperName)
  let viaPointer ← n.returnsAggregate m.returnType
  if viaPointer && !m.parameters.isEmpty && !style.generalize then
    throw (.aggregateReturn receiver m.name m.parameters.length)
  let typeNames ← Pass.ofExcept (faulty (types.mapM Value.asText))
  let call : Call := {
    receiver, wrapperName, slot, viaPointer
    returnName := returnName.text
    parameters := typeNames.zip (m.parameters.map (·.name)) }
  return (m.deprecation.map deprecationLine).toList ++ [call.line returnColumn nameColumn]

/-- The wrappers of some slots, from a slot on, when some names are taken. -/
def renderFrom (n : Naming) (style : WrapperStyle) (receiver : String) (slot : Nat)
    (taken : List String) : List (String × MethodDecl) → Pass (List Wrapper)
  | [] => return []
  | (declaring, m) :: rest => do
    let member := freshName taken m.name
    if member ≠ m.name then
      note (.plain .dispatch .info s!"Renaming {receiver}_{m.name} to {receiver}_{member}")
    let wrapperName := receiver ++ "_" ++ member
    let lines ← render n style receiver wrapperName m slot
    let more ← renderFrom n style receiver (slot + 1) (member :: taken) rest
    return ⟨declaring, m.name, wrapperName, slot, lines⟩ :: more

/-- The wrappers of an interface, those of its root first. -/
def ofInterface (n : Naming) (style : WrapperStyle) (i : InterfaceDecl) : Pass (List Wrapper) := do
  let is ← chain n.repository i
  let wrappers ← renderFrom n style i.name 0 [] (table is)
  note (.plain .dispatch .debug s!"{i.name}: {wrappers.length} dispatch slots")
  return wrappers

end Wrapper

end ComHeaders
