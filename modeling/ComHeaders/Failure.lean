import ComHeaders.Value

/-!
# Failures

Everything that can stop the generation of a header is a failure.  The output feeds
compilers, so an assumption about the metadata that does not hold ends the run instead
of being covered up by a malformed header.

A failure is a cause: it holds the parts its message is made of, and `Failure.text?`
makes the message.  The kinds group the causes under the names by which a run reports
them.  Faults of the surroundings are failures too; they keep their own tags.
-/

namespace ComHeaders

/-- Why an entity has none of the shapes a header can declare. -/
inductive ShapeProblem where
  /-- The base type is none of the three that decide the kind. -/
  | unknownBase (base : Value)
  /-- An entity taken from the shared namespace is no enum, interface or struct. -/
  | notShareable
  /-- An interface with more than one base. -/
  | manyBases (count : Nat)
  /-- A delegate without the method that carries its signature. -/
  | noSignature
  /-- The chain of bases comes back to the interface. -/
  | cyclicBases
  deriving Repr

namespace ShapeProblem

def text : ShapeProblem → String
  | unknownBase base => s!"base type {base.shown} is not recognised"
  | notShareable => "shared entities must be enums, interfaces or structs"
  | manyBases n => s!"{n} base interfaces; only single inheritance is supported"
  | noSignature => "delegate has no Invoke method"
  | cyclicBases => "base interface chain is cyclic"

end ShapeProblem

/-- Why the bit groups of a field do not fill it from its first bit on. -/
inductive BitProblem where
  /-- Groups on a field other than the backing field. -/
  | notBacking (location backing : String)
  /-- The backing field has no integer type. -/
  | notInteger (location typeName : String)
  /-- A group that does not start where the last one ended. -/
  | gap (location group : String) (start expected : Int)
  /-- A group without bits, or with bits beyond the width. -/
  | overflow (location group : String) (start length : Int) (width : Nat)
  deriving Repr

namespace BitProblem

def text : BitProblem → String
  | notBacking location backing =>
    s!"Bitfield groups on {location}; expected backing field {backing}"
  | notInteger location typeName =>
    s!"Bitfield backing field {location} has non-integer type {typeName}"
  | gap location group start expected =>
    s!"Bitfield {location}.{group} starts at bit {start}, expected {expected}"
  | overflow location group start length width =>
    s!"Bitfield {location}.{group} ({start}+{length}) does not fit into {width} bits"

end BitProblem

/-- What the metadata lacks although every header needs it. -/
inductive MissingPart where
  /-- A constant of GUID type without the attribute that holds its value. -/
  | guidOfConstant (name : String)
  /-- A constant that was described as a GUID and has none. -/
  | guidValue (name : String)
  | constantValue (name : String)
  | memberValue (enum member : String)
  | guidOfInterface (name : String)
  /-- A GUID attribute whose arguments are no GUID. -/
  | wellFormedGuid (owner : String) (fault : Fault)
  deriving Repr

namespace MissingPart

def text : MissingPart → String
  | guidOfConstant name => s!"GUID constant {name} has no GuidAttribute"
  | guidValue name => s!"GUID constant {name} has no value"
  | constantValue name => s!"Constant {name} has no value"
  | memberValue enum member => s!"Enum member {enum}.{member} has no value"
  | guidOfInterface name => s!"Interface {name} has no GuidAttribute"
  | wellFormedGuid owner fault => s!"Malformed GuidAttribute on {owner}" ++
    match fault.text? with
    | some t => ": " ++ t
    | none => ""

end MissingPart

/-- Why a constant cannot be written as a literal. -/
inductive LiteralProblem where
  | constantType (name : String) (elementType : Value)
  | memberType (enum member : String) (elementType : Value)
  /-- A constant of a kind that has no literals. -/
  | unknownKind (name kind : String)
  /-- A number too large for single precision. -/
  | beyondSingle (x : Double)
  /-- An infinity or a not-a-number. -/
  | notFinite (x : Double)
  deriving Repr

namespace LiteralProblem

def text : LiteralProblem → String
  | constantType name t => s!"Constant {name} has unsupported element type {t.text}"
  | memberType enum member t => s!"Enum member {enum}.{member} has element type {t.text}"
  | unknownKind name kind => s!"Constant {name} has unsupported kind {kind}"
  | beyondSingle x => s!"Float constant {x.text} overflows single precision"
  | notFinite x => s!"Float constant {x.text} has no C literal form"

end LiteralProblem

/-- Why a header is not generated. -/
inductive Failure where
  | fault (f : Fault)
  /-- The document is no object with a list of types. -/
  | notADocument
  /-- A file does not hold a JSON text. -/
  | notJson (path : String)
  | invalidReference (entry : Value)
  /-- A failure inside the definition with the given label. -/
  | inType (label : String) (cause : Failure)
  /-- A definition that lacks a member or has one of the wrong kind. -/
  | malformedType (label : String) (fault : Fault)
  /-- A base name that denotes no interface. -/
  | unknownInterface (fullName : String)
  | unsupportedShape (entity : String) (problem : ShapeProblem)
  | unsupportedPrimitive (name : Value)
  /-- An array field whose elements are no primitives. -/
  | aggregateArray (owner field element : String)
  /-- An aggregate is returned by a method that takes parameters. -/
  | aggregateReturn (receiver method : String) (parameters : Nat)
  | bitfields (problem : BitProblem)
  | missing (part : MissingPart)
  | literal (problem : LiteralProblem)
  deriving Repr, Inhabited

namespace Failure

/-- The name under which a failure is reported. -/
def kind : Failure → String
  | fault f => f.tag
  | notADocument | notJson _ | invalidReference _ | inType _ _ | malformedType _ _ =>
    "MetadataFormatError"
  | unknownInterface _ => "UnknownTypeError"
  | unsupportedShape _ _ => "UnsupportedEntityShape"
  | unsupportedPrimitive _ => "UnsupportedPrimitive"
  | aggregateArray _ _ _ => "UnexpectedAggregateArray"
  | aggregateReturn _ _ _ => "UnsupportedAggregateReturnSignature"
  | bitfields _ => "InvalidBitfieldLayout"
  | missing _ => "MissingMetadataError"
  | literal _ => "UnsupportedConstantKind"

/-- The message of a failure.  Of the faults only some have a fixed wording. -/
def text? : Failure → Option String
  | fault f => f.text?
  | notADocument => some "Metadata document must be an object with a 'types' list"
  | notJson path => some s!"{path} is not a JSON metadata document"
  | invalidReference entry => some s!"Invalid type reference: {entry.shown}"
  | inType label cause => some (s!"In type {label}: " ++ cause.text?.getD "")
  | malformedType label f => some s!"Malformed type {label}: {f.citation}"
  | unknownInterface n => some s!"Base interface not found: {n}"
  | unsupportedShape entity p => some s!"Unsupported entity shape for {entity}: {p.text}"
  | unsupportedPrimitive name => some s!"Unsupported primitive type: {name.text}"
  | aggregateArray owner field element =>
    some s!"Array field {owner}.{field} has non-primitive element type {element}"
  | aggregateReturn receiver method n =>
    some (s!"{receiver}::{method} returns an aggregate by value and takes " ++
      s!"{n} parameter(s); only parameterless aggregate returns are supported")
  | bitfields p => some p.text
  | missing p => some p.text
  | literal p => some p.text

/-- The failures of the rules of generation, as opposed to faults of the surroundings. -/
def isGeneration : Failure → Bool
  | fault _ => false
  | _ => true

end Failure

/-- Lets a fault count as a failure. -/
def faulty {α : Type} (x : Except Fault α) : Except Failure α := x.mapError Failure.fault

end ComHeaders
