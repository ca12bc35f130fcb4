import ComHeaders.Declaration.Guid
import ComHeaders.Metadata.TypeRef
import ComHeaders.Table

/-!
# Declarations

What a header declares: constants, function types, enums, structs and unions, interfaces
and functions.  Declarations are made from definitions by classification and written by
the sections of a header.

A field has one of three forms.  It is a plain member, possibly carved up into bit groups;
an array, whose extent stands behind its name; or an aggregate that is declared in place.
-/

namespace ComHeaders

/-- A parameter with its qualifier. -/
structure ParameterDecl where
  name : String
  type : TypeRef
  isConst : Bool
  deriving Repr

/-- A signature with a name: an interface method, a function type or a free function. -/
structure MethodDecl where
  name : String
  returnType : TypeRef
  parameters : List ParameterDecl
  /-- The text of the deprecation mark, if there is one. -/
  deprecation : Option String
  deriving Repr

/-- An enum member, with the value as stored and its signedness. -/
structure EnumMember where
  name : String
  value : Int
  isUnsigned : Bool
  deriving DecidableEq, Repr

/-- An enum; its members are written in their order. -/
structure EnumDecl where
  name : String
  members : List EnumMember
  deriving Repr

/-- A group of bits inside a backing field. -/
structure BitGroup where
  name : String
  start : Int
  length : Int
  deriving DecidableEq, Repr

/-- What an aggregate is called, and whether its fields overlap. -/
structure AggregateHead where
  name : String
  fullName : String
  isUnion : Bool
  deriving DecidableEq, Repr

namespace AggregateHead

def keyword (h : AggregateHead) : String := if h.isUnion then "union" else "struct"

end AggregateHead

/-- A field of an aggregate. -/
inductive FieldDecl where
  /-- A member of a type, with the groups it is carved up into, if any. -/
  | plain (name : String) (type : TypeRef) (groups : List BitGroup)
  /-- An array of elements of a type. -/
  | array (name : String) (element : TypeRef) (length : Int)
  /-- An aggregate declared in place. -/
  | aggregate (name : String) (type : TypeRef) (head : AggregateHead) (fields : List FieldDecl)
  deriving Repr

namespace FieldDecl

def name : FieldDecl → String
  | plain n _ _ | array n _ _ | aggregate n _ _ _ => n

/-- The type of a field; for an array that of its elements. -/
def type : FieldDecl → TypeRef
  | plain _ t _ | array _ t _ | aggregate _ t _ _ => t

end FieldDecl

/-- A struct or union; the order of its fields is their layout. -/
structure StructDecl where
  head : AggregateHead
  fields : List FieldDecl
  deriving Repr

namespace StructDecl

def name (s : StructDecl) : String := s.head.name

def fullName (s : StructDecl) : String := s.head.fullName

end StructDecl

/-- An interface.  Its base is kept by its full name, which is ordinarily a text; the chain of
bases is walked by looking up. -/
structure InterfaceDecl where
  name : String
  fullName : String
  methods : List MethodDecl
  base : Option Value
  guid : Option Guid
  deriving Repr

/-- What a constant stands for, which decides how it is written. -/
inductive ConstantBody where
  | guid (value : Option Guid)
  | signed (value : Option Value)
  | unsigned (value : Option Value)
  | float (value : Option Value)
  /-- A result code, written in its thirty-two bits. -/
  | resultCode (value : Option Value)
  /-- A kind that no header can write. -/
  | other (kind : String) (value : Option Value)
  deriving Repr

/-- A constant. -/
structure ConstantDecl where
  name : String
  body : ConstantBody
  deriving Repr

/-- Everything one header declares, by name. -/
structure Declarations where
  namespaceName : String
  constants : Table ConstantDecl := []
  delegates : Table MethodDecl := []
  enums : Table EnumDecl := []
  structs : Table StructDecl := []
  interfaces : Table InterfaceDecl := []
  functions : Table MethodDecl := []

namespace Declarations

/-- The number of declarations. -/
def count (d : Declarations) : Nat :=
  d.constants.length + d.delegates.length + d.enums.length + d.structs.length +
    d.interfaces.length + d.functions.length

end Declarations

end ComHeaders
