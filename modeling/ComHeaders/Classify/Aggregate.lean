import ComHeaders.Classify.Bitfield
import ComHeaders.Metadata.Repository

/-!
# Structs and unions

A field whose type is a nested definition is declared in place, with the fields of that
definition, and so on inward.  Every step inward takes one more definition out of those
that have not been entered yet, so the description ends.  A definition that would have to be
entered again on the way inward leads on to itself for ever; following it exhausts whatever
there is to follow it with.
-/

namespace ComHeaders

namespace FieldDecl

/-- A field of an aggregate.  `enterable` holds the full names of the definitions that have
not been entered on the way to the field. -/
def describe (r : Repository) (enterable : List String) (owner : String) (f : Field) :
    Except Failure FieldDecl :=
  match f.type with
  | .array element length => .ok (.array f.name element length)
  | .named _ _ _ _ =>
    match r.resolve f.type with
    | .error e => .error (.fault e)
    | .ok none => do return .plain f.name f.type (← BitGroup.read owner f)
    | .ok (some d) =>
      if d.isNested then
        if h : d.fullName ∈ enterable then do
          have : (enterable.erase d.fullName).length < enterable.length := by
            have := List.length_pos_of_mem h
            rw [List.length_erase_of_mem h]
            omega
          let fields ← d.fields.mapM (describe r (enterable.erase d.fullName) d.name)
          return .aggregate f.name f.type ⟨d.name, d.fullName, d.explicitLayout⟩ fields
        else .error (.fault .tooDeep)
      else do return .plain f.name f.type (← BitGroup.read owner f)
  | _ => do return .plain f.name f.type (← BitGroup.read owner f)
termination_by enterable.length

end FieldDecl

namespace StructDecl

/-- The full names of the definitions of a repository, each once. -/
def enterableNames (r : Repository) : List String := r.index.keys

/-- A struct, or a union if the definition lays its fields over each other. -/
def describe (r : Repository) (d : TypeDef) : Except Failure StructDecl := do
  let fields ← d.fields.mapM (FieldDecl.describe r (enterableNames r) d.name)
  return ⟨⟨d.name, d.fullName, d.explicitLayout⟩, fields⟩

end StructDecl

end ComHeaders
