import ComHeaders.Failure
import ComHeaders.Metadata.Definition

/-!
# Definitions from values

A metadata document is an object with a list of types, each of them an object of its own.
Members may be left out; what they then stand for is written beside each of them.  A
member that is there and null is not left out.

Flags are read by their truth: any value that counts as true sets them.  Lists may be
anything one can go through.  Names are taken as they are.  A reference that is no reference is
reported with the value that stands in its place; any other fault inside a definition is reported
under the label of the definition.
-/

namespace ComHeaders

/-- The member of an entry, which has to be there. -/
def memberOf (entry : Value) (key : String) : Except Failure Value := faulty (entry.member key)

/-- The member of an entry, or a default. -/
def optionalMember (entry : Value) (key : String) (default : Value) : Except Failure Value :=
  faulty (entry.memberD key default)

/-- A flag of an entry; unset if left out. -/
def flagOf (entry : Value) (key : String) : Except Failure Bool :=
  return (← optionalMember entry key (.bool false)).truthy

/-- The items of a member; none if left out. -/
def itemsOf (entry : Value) (key : String) : Except Failure (List Value) := do
  faulty (← optionalMember entry key (.list [])).items

namespace TypeRef

/-- The member by which references differ in kind, if the entry has one that is a text. -/
def kindOf? (entry : Value) : Option String :=
  match entry with
  | .object members => match members.lookup "kind" with
    | some (.str k) => some k
    | _ => none
  | _ => none

/-- A member found in an object is smaller than the object. -/
theorem sizeOf_lookup_lt {key : String} {members : List (String × Value)} {v : Value}
    (h : members.lookup key = some v) : sizeOf v < 1 + sizeOf members := by
  induction members with
  | nil => simp at h
  | cons m rest ih =>
    obtain ⟨k, w⟩ := m
    rw [List.lookup_cons] at h
    split at h
    · simp only [Option.some.injEq] at h
      subst h
      simp only [List.cons.sizeOf_spec, Prod.mk.sizeOf_spec]
      omega
    · have := ih h
      simp only [List.cons.sizeOf_spec]
      omega

/-- A reference from its entry. -/
def decode (entry : Value) : Except Failure TypeRef :=
  match kindOf? entry, entry with
  | some "void", _ => .ok .void
  | some "primitive", e => do return .primitive (← memberOf e "name")
  | some "pointer", .object members =>
    match h : members.lookup "element" with
    | none => .error (.fault (.missingKey "element"))
    | some e =>
      have := sizeOf_lookup_lt h
      do return .pointer (← decode e)
  | some "array", .object members =>
    match h : members.lookup "element" with
    | none => .error (.fault (.missingKey "element"))
    | some e =>
      have := sizeOf_lookup_lt h
      do
        let element ← decode e
        let length ← memberOf (.object members) "length"
        return .array element (← faulty length.toInteger)
  | some "named", e => do
    let ns ← optionalMember e "namespace" (.str "")
    let name ← memberOf e "name"
    let isValueType ← flagOf e "value_type"
    let declaring ← optionalMember e "declaring_type" .null
    return .named ns name declaring isValueType
  | _, e => .error (.invalidReference e)
termination_by sizeOf entry

end TypeRef

/-- The attributes of an entry. -/
def decodeAttributes (entry : Value) : Except Failure (List Attribute) := do
  (← itemsOf entry "attributes").mapM fun a => do
    let typeName ← memberOf a "type"
    let arguments ← itemsOf a "args"
    return ⟨typeName, arguments⟩

namespace Field

/-- The literal of a field: none if left out or null. -/
def decodeLiteral (entry : Value) : Except Failure (Option Literal) := do
  match ← optionalMember entry "constant" .null with
  | .null => return none
  | constant =>
    let elementType ← memberOf constant "type"
    let value ← memberOf constant "value"
    return some ⟨elementType, value⟩

/-- A field from its entry. -/
def decode (entry : Value) : Except Failure (Field Value) := do
  let literal ← decodeLiteral entry
  let name ← memberOf entry "name"
  let type ← TypeRef.decode (← memberOf entry "type")
  let isSpecialName ← flagOf entry "special_name"
  let attributes ← decodeAttributes entry
  return ⟨name, type, literal, isSpecialName, attributes⟩

end Field

/-- A parameter from its entry. -/
def Parameter.decode (entry : Value) : Except Failure (Parameter Value) := do
  let name ← memberOf entry "name"
  let type ← TypeRef.decode (← memberOf entry "type")
  let attributes ← decodeAttributes entry
  return ⟨name, type, attributes⟩

/-- A method from its entry. -/
def Method.decode (entry : Value) : Except Failure (Method Value) := do
  let name ← memberOf entry "name"
  let returnType ← TypeRef.decode (← memberOf entry "return_type")
  let parameters ← (← itemsOf entry "parameters").mapM Parameter.decode
  let attributes ← decodeAttributes entry
  return ⟨name, returnType, parameters, attributes⟩

namespace TypeDef

/-- The label under which failures inside an entry are reported. -/
def label (entry : Value) : Except Failure String := do
  let ns ← optionalMember entry "namespace" (.str "?")
  let name ← optionalMember entry "name" (.str "?")
  return s!"{ns.text}.{name.text}"

/-- The members of a definition. -/
def decodeMembers (entry : Value) : Except Failure (TypeDef Value) := do
  let namespaceName ← optionalMember entry "namespace" (.str "")
  let name ← memberOf entry "name"
  let isInterface ← flagOf entry "interface"
  let baseType ← optionalMember entry "base_type" .null
  let declaringType ← optionalMember entry "declaring_type" .null
  let explicitLayout ← flagOf entry "explicit_layout"
  let interfaces ← (← itemsOf entry "interfaces").mapM TypeRef.decode
  let fields ← (← itemsOf entry "fields").mapM Field.decode
  let methods ← (← itemsOf entry "methods").mapM Method.decode
  let attributes ← decodeAttributes entry
  return ⟨namespaceName, name, isInterface, baseType, declaringType, explicitLayout, interfaces,
    fields, methods, attributes⟩

/-- The faults that count as a malformed definition.  A number out of range does not. -/
def countsAsMalformed : Fault → Bool
  | .missingKey _ | .wrongKind | .unreadableNumber | .notAnObject => true
  | _ => false

/-- A failure inside a definition, reported under the label of the definition. -/
def blame (label : String) : Failure → Failure
  | .fault f => if countsAsMalformed f then .malformedType label f else .fault f
  | f => .inType label f

/-- A definition from its entry. -/
def decode (entry : Value) : Except Failure (TypeDef Value) := do
  let l ← label entry
  (decodeMembers entry).mapError (blame l)

end TypeDef

/-- The definitions of a document. -/
def decodeDocument (document : Value) : Except Failure (List (TypeDef Value)) :=
  match document with
  | .object members => match members.lookup "types" with
    | some (.list entries) => entries.mapM TypeDef.decode
    | _ => .error .notADocument
  | _ => .error .notADocument

end ComHeaders
