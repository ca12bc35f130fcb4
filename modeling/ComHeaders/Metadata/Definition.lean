import ComHeaders.Metadata.TypeRef

/-!
# Definitions

The entities of a metadata set.  What kind of entity a type definition is, is not
written down in it: it follows from the interface flag and from the base type.

Entities have names.  A name should be a text, and is one wherever nothing else is said; but
what a document writes in its place may be any value, and nothing looks at it when the entity
is read.  So the records leave open what a name is.
-/

namespace ComHeaders

/-- An attribute of a type, field, method or parameter. -/
structure Attribute where
  typeName : Value
  arguments : List Value
  deriving Repr

/-- A literal of a field, with the primitive type it is stored as. -/
structure Literal where
  elementType : Value
  value : Value
  deriving Repr

/-- A field of a struct, an enum or a globals container. -/
structure Field (Name : Type := String) where
  name : Name
  type : TypeRef
  literal : Option Literal
  isSpecialName : Bool
  attributes : List Attribute
  deriving Repr

/-- A parameter of a method. -/
structure Parameter (Name : Type := String) where
  name : Name
  type : TypeRef
  attributes : List Attribute
  deriving Repr

/-- An interface method, the signature of a delegate, or a free function. -/
structure Method (Name : Type := String) where
  name : Name
  returnType : TypeRef
  parameters : List (Parameter Name)
  attributes : List Attribute
  deriving Repr

/-- A type definition. -/
structure TypeDef (Name : Type := String) where
  namespaceName : Value
  name : Name
  isInterface : Bool
  baseType : Value
  declaringType : Value
  explicitLayout : Bool
  interfaces : List TypeRef
  fields : List (Field Name)
  methods : List (Method Name)
  attributes : List Attribute
  deriving Repr

/-! ## Other names -/

section

variable {Name Name' : Type} (f : Name → Name')

def Field.mapNames (d : Field Name) : Field Name' := { d with name := f d.name }

def Parameter.mapNames (p : Parameter Name) : Parameter Name' := { p with name := f p.name }

def Method.mapNames (m : Method Name) : Method Name' :=
  { m with name := f m.name, parameters := m.parameters.map (Parameter.mapNames f) }

/-- The definition with other names, at every depth. -/
def TypeDef.mapNames (d : TypeDef Name) : TypeDef Name' :=
  { d with
    name := f d.name
    fields := d.fields.map (Field.mapNames f)
    methods := d.methods.map (Method.mapNames f) }

end

/-- The first attribute of the given type. -/
def findAttribute (typeName : String) (attributes : List Attribute) : Option Attribute :=
  attributes.find? fun a => a.typeName.sameKey (.str typeName)

def hasAttribute (typeName : String) (attributes : List Attribute) : Bool :=
  (findAttribute typeName attributes).isSome

namespace TypeDef

/-- The full name: behind the declaring type, or else behind the namespace, or else alone. -/
def fullName (d : TypeDef) : String :=
  (TypeRef.qualify d.namespaceName (.str d.name) d.declaringType).text

/-- The full name of a definition with the name that was written, by which it is indexed.  It
is no text only if the name stands alone. -/
def key (d : TypeDef Value) : Value := TypeRef.qualify d.namespaceName d.name d.declaringType

/-- A definition with a declaring type, whichever it is, is nested. -/
def isNested (d : TypeDef) : Bool :=
  match d.declaringType with
  | .null => false
  | _ => true

def isEnum (d : TypeDef) : Bool := d.baseType.sameKey (.str "System.Enum")

def isValueType (d : TypeDef) : Bool :=
  d.baseType.sameKey (.str "System.ValueType") || d.isEnum

def isDelegate (d : TypeDef) : Bool := d.baseType.sameKey (.str "System.MulticastDelegate")

/-- Whatever is not flagged as an interface is a class. -/
def isClass (d : TypeDef) : Bool := !d.isInterface

/-- The first method of the given name. -/
def findMethod (d : TypeDef) (name : String) : Option Method :=
  d.methods.find? fun m => m.name = name

end TypeDef

end ComHeaders
