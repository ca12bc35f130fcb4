import ComHeaders.Classify.Constant
import ComHeaders.Metadata.Repository
import ComHeaders.Pass

/-!
# Interfaces

An interface has at most one base, and keeps it by name.  A pass describes each interface
once: chains of bases meet, and what was described is looked up again.
-/

namespace ComHeaders

namespace InterfaceDecl

/-- The base among the interfaces of a definition: the first, if it has a name. -/
def baseOf : List TypeRef → Except Failure (Option Value)
  | [] => .ok none
  | r :: _ => do
    match ← faulty r.fullName with
    | .null => return none
    | name => return some name

/-- An interface from its definition. -/
def ofDefinition (d : TypeDef) : Except Failure InterfaceDecl :=
  if 1 < d.interfaces.length then
    .error (.unsupportedShape d.fullName (.manyBases d.interfaces.length))
  else do
    let base ← baseOf d.interfaces
    let guid ← readGuid d.attributes d.name
    return {
      name := d.name
      fullName := d.fullName
      methods := d.methods.map MethodDecl.describe
      base
      guid }

/-- The interface of a definition: the one described before under its full name, or else
the one described now. -/
def describe (d : TypeDef) : Pass InterfaceDecl := do
  match (← get).interfaces.lookup d.fullName with
  | some i => return i
  | none =>
    let i ← Pass.ofExcept (ofDefinition d)
    modify fun s => { s with interfaces := s.interfaces.set d.fullName i }
    return i

/-- The interface of a full name, wherever it is defined.  A full name that is no text is
that of no interface. -/
def lookup (r : Repository) : Value → Pass InterfaceDecl
  | .str fullName => do
    match (← get).interfaces.lookup fullName with
    | some i => return i
    | none => match r.find? fullName with
      | some d => if d.isInterface then describe d else throw (.unknownInterface fullName)
      | none => throw (.unknownInterface fullName)
  | v => if v.isKey then throw (.unknownInterface v.text) else throw (.fault .wrongKind)

end InterfaceDecl

end ComHeaders
