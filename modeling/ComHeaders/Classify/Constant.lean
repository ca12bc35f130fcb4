import ComHeaders.Declaration.Basic
import ComHeaders.Metadata.Decode

/-!
# Constants, enums and signatures

Whatever has a value in the metadata is described here: constants, the members of enums,
GUIDs.  So are signatures, which interfaces, delegates and free functions share.
-/

namespace ComHeaders

/-- The attribute that holds a GUID. -/
def guidAttribute : String := "Windows.Win32.Foundation.Metadata.GuidAttribute"

/-- The attribute that marks a parameter as constant. -/
def constAttribute : String := "Windows.Win32.Foundation.Metadata.ConstAttribute"

/-- The attribute that describes one group of bits. -/
def bitfieldAttribute : String := "Windows.Win32.Foundation.Metadata.NativeBitfieldAttribute"

/-- The attribute that marks a method as obsolete. -/
def obsoleteAttribute : String := "System.ObsoleteAttribute"

/-- The GUID among some attributes, if there is one.  Arguments that are no integers are
reported as the fault of the owner. -/
def readGuid (attributes : List Attribute) (owner : String) : Except Failure (Option Guid) :=
  match findAttribute guidAttribute attributes with
  | none => .ok none
  | some a => match Guid.ofArguments a.arguments with
    | .ok g => .ok (some g)
    | .error .outOfRange => .error (.fault .outOfRange)
    | .error f => .error (.missing (.wellFormedGuid owner f))

/-- The low thirty-two bits of an integer. -/
def lowWord (i : Int) : Int := i % 0x100000000

/-- Whether the type of a literal is the given one.  A type that is no key is none at all. -/
def isElementType (t : Value) (name : String) : Except Failure Bool :=
  if t.isKey then .ok (t.sameKey (.str name)) else .error (.fault .wrongKind)

namespace ConstantDecl

/-- The integer a literal stands for, as a value. -/
def integerValue (v : Value) : Except Failure Value := do return .int (← faulty v.toInteger)

/-- The body of a constant that is no GUID. -/
def describeLiteral (f : Field) (l : Literal) : Except Failure ConstantBody := do
  if f.type.isNamed && f.type.name.sameKey (.str "HRESULT") then
    return .resultCode (some (.int (lowWord (← faulty l.value.toInteger))))
  if ← isElementType l.elementType "Int32" then
    return .signed (some (← integerValue l.value))
  if ← isElementType l.elementType "UInt32" then
    return .unsigned (some (← integerValue l.value))
  if ← isElementType l.elementType "Single" then
    return .float (some (.float (← faulty l.value.toDouble)))
  throw (.literal (.constantType f.name l.elementType))

/-- The constant of a field of the globals container. -/
def describe (f : Field) : Except Failure ConstantDecl := do
  if (← faulty f.type.fullName).sameKey (.str "System.Guid") then
    match ← readGuid f.attributes f.name with
    | some g => return ⟨f.name, .guid (some g)⟩
    | none => throw (.missing (.guidOfConstant f.name))
  match f.literal with
  | none => throw (.missing (.constantValue f.name))
  | some l => return ⟨f.name, ← describeLiteral f l⟩

end ConstantDecl

namespace EnumDecl

/-- One member of an enum. -/
def describeMember (enum : String) (f : Field) : Except Failure EnumMember := do
  match f.literal with
  | none => throw (.missing (.memberValue enum f.name))
  | some l =>
    let isSigned ← isElementType l.elementType "Int32"
    let isUnsigned ← isElementType l.elementType "UInt32"
    if !isSigned && !isUnsigned then throw (.literal (.memberType enum f.name l.elementType))
    return ⟨f.name, ← faulty l.value.toInteger, isUnsigned⟩

/-- An enum, with its members in the order of the metadata.  Fields with a special name
are no members. -/
def describe (d : TypeDef) : Except Failure EnumDecl := do
  let members ← (d.fields.filter fun f => !f.isSpecialName).mapM (describeMember d.name)
  return ⟨d.name, members⟩

end EnumDecl

namespace MethodDecl

/-- The text of a deprecation mark: the first argument of the attribute, or nothing. -/
def deprecationText (a : Attribute) : String :=
  match a.arguments with
  | m :: _ => m.text
  | [] => ""

/-- A signature. -/
def describe (m : Method) : MethodDecl where
  name := m.name
  returnType := m.returnType
  parameters := m.parameters.map fun p => ⟨p.name, p.type, hasAttribute constAttribute p.attributes⟩
  deprecation := (findAttribute obsoleteAttribute m.attributes).map deprecationText

/-- The signature of a delegate, which its `Invoke` method carries. -/
def describeDelegate (d : TypeDef) : Except Failure MethodDecl :=
  match d.findMethod "Invoke" with
  | some m => .ok (describe m)
  | none => .error (.unsupportedShape d.fullName .noSignature)

end MethodDecl

end ComHeaders
