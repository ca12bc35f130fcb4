import ComHeaders.Metadata.Repository
import ComHeaders.Pass

/-!
# Names of types

A reference in metadata becomes a name in C.  Pointers add a star to the name of their
element, and arrays take it as it is, since their extent belongs to the declarator.  What
is left when these layers are gone is named by the first rule that applies:

1. void is `void`;
2. `System.Guid` is `GUID`;
3. a type called `PWSTR` is `WCHAR*`;
4. a primitive has a fixed-width alias, or no name at all;
5. an enum of the tag set is named with its tag;
6. an interface is only ever used through a pointer to it;
7. everything else goes by its own name.

The own name of a type may be no text, since the metadata may have written anything in its
place; so the name of a reference is a value.  Nothing but a text can get a star.

A pass remembers the names it has found, except for null, which is no name.  The rules
never change during a pass, so a name that is remembered is the name that would be found
again.
-/

namespace ComHeaders

/-- What the names of a header depend on: the metadata, which tells interfaces apart, and
the enums that are named with their tag. -/
structure Naming where
  repository : Repository
  taggedEnums : List String

/-- The aliases of the primitives. -/
def primitiveAliases : List (String × String) := [
  ("SByte", "INT8"), ("Byte", "UINT8"), ("Int16", "INT16"), ("UInt16", "UINT16"),
  ("Int32", "INT32"), ("UInt32", "UINT32"), ("Int64", "INT64"), ("UInt64", "UINT64"),
  ("Single", "FLOAT"), ("Double", "DOUBLE")]

/-- Return types that are values in the metadata but scalars in C. -/
def scalarHandles : List String := ["HRESULT", "HANDLE", "HDC", "HWND", "BOOL"]

namespace Naming

/-- The alias of a primitive. -/
def aliasOf? : Value → Option String
  | .str n => primitiveAliases.lookup n
  | _ => none

/-- Whether a name is that of an enum that is named with its tag. -/
def isTagged (n : Naming) (name : Value) : Bool := n.taggedEnums.any fun t => name.sameKey (.str t)

/-- Whether one of the rules before the last two names a reference. -/
def isFixed (n : Naming) (r : TypeRef) : Bool :=
  r.isVoid || r.isCalled "System.Guid" || r.name.sameKey (.str "PWSTR") || r.isPrimitive ||
    n.isTagged r.name

/-- The name of a reference without pointer and array layers. -/
def baseName (n : Naming) (r : TypeRef) : Except Failure Value :=
  if r.isVoid then .ok (.str "void")
  else if r.isCalled "System.Guid" then .ok (.str "GUID")
  else if r.name.sameKey (.str "PWSTR") then .ok (.str "WCHAR*")
  else if r.isPrimitive then
    match aliasOf? r.name with
    | some a => .ok (.str a)
    | none => .error (.unsupportedPrimitive r.name)
  else if n.isTagged r.name then .ok (.str ("enum " ++ r.name.text))
  else match n.repository.resolve r with
    | .ok (some d) => .ok (if d.isInterface then .str (r.name.text ++ "*") else r.name)
    | .ok none => .ok r.name
    | .error f => .error (.fault f)

/-- Whether a reference is taken at its word, for lack of a definition. -/
def isUndefined (n : Naming) (r : TypeRef) : Bool :=
  !n.isFixed r &&
    match n.repository.resolve r with
    | .ok none => true
    | _ => false

/-- The name of a pointer, from that of its element. -/
def starred (name : Value) : Except Failure Value := faulty (TypeRef.marked name "*")

/-- The name of a reference, found by the rules alone. -/
def plainName (n : Naming) : TypeRef → Except Failure Value
  | .pointer element => do starred (← n.plainName element)
  | .array element _ => n.plainName element
  | r => n.baseName r

/-- The remembered name of a reference. -/
def remembered? (s : Session) (r : TypeRef) : Option Value :=
  (s.names.find? fun e => e.1.sameKey r).map (·.2)

/-- Remembers the name of a reference. -/
def remember (r : TypeRef) : Value → Pass Unit
  | .null => pure ()
  | name => modify fun s => { s with names := (r, name) :: s.names }

/-- The entry that says that a reference without layers is taken at its word. -/
def undefinedNote (r : TypeRef) : Entry :=
  let shown := match r.fullName with
    | .ok v => v.text
    | .error _ => ""
  .plain .naming .debug s!"No definition for {shown}, using its name verbatim"

/-- The name of a reference, remembered or found. -/
def name (n : Naming) (r : TypeRef) : Pass Value := do
  if !r.isKey then throw (.fault .wrongKind)
  match remembered? (← get) r with
  | some found => return found
  | none =>
    let found ← match r with
      | .pointer element => do Pass.ofExcept (starred (← n.name element))
      | .array element _ => n.name element
      | r => do
        if n.isUndefined r then note (undefinedNote r)
        Pass.ofExcept (n.baseName r)
    remember r found
    return found

/-- The name of a parameter's type, with its qualifier. -/
def parameterName (n : Naming) (r : TypeRef) (isConst : Bool) : Pass Value := do
  let found ← n.name r
  return if isConst then .str ("const " ++ found.text) else found

/-- The name of a reference where it has to be a text. -/
def nameText (n : Naming) (r : TypeRef) : Pass String := do
  Pass.ofExcept (faulty (← n.name r).asText)

/-- Whether a reference leads to an enum without any layers. -/
def isEnum (n : Naming) (r : TypeRef) : Except Failure Bool :=
  if r.isNamed then do return (← faulty (n.repository.resolve r)).any TypeDef.isEnum
  else .ok false

/-- Whether a return type is a value aggregate, which the native calling convention returns
through a hidden pointer. -/
def returnsAggregate (n : Naming) (r : TypeRef) : Pass Bool := do
  if r.isVoid || r.isPrimitive || r.isPointer then return false
  if !r.isValueType then return false
  let found ← n.name r
  if scalarHandles.any fun h => found.sameKey (.str h) then return false
  return !(← Pass.ofExcept (n.isEnum r))

end Naming

end ComHeaders
