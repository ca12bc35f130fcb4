import ComHeaders.Declaration.Basic
import ComHeaders.Text.Column

/-!
# Literals

Values are written as they are stored.  Only the spelling changes: a negative enum member
becomes its pattern of thirty-two bits, a large unsigned value becomes hexadecimal, and a
single-precision number gets the fewest digits that denote it.
-/

namespace ComHeaders

/-- The thirty-two bits of an integer as eight hexadecimal digits. -/
def wordDigits (i : Int) : String := hexInteger 8 (i % 0x100000000)

/-! ## Single precision -/

namespace Single

/-- The single-precision value nearest to a finite double, unless it would be infinite. -/
def ofDouble? (x : Double) : Option Dyadic := BinaryFormat.single.roundDyadic x.magnitude

/-- The first number of the given counts of digits that still denotes the value `d`, as the
double its text would be read as.  A rounded number may leave the range of single precision
upward, and then no further count is tried. -/
def shortestFrom (negative : Bool) (d : Dyadic) : List Nat → Except Fault Double
  | [] => .ok (Double.ofQuotient negative d.numerator d.denominator)
  | digits :: more =>
    let x := (Decimal.significant digits d.numerator d.denominator).toDouble negative
    match ofDouble? x with
    | none => .error .outOfRange
    | some s => if s.sameMagnitude d then .ok x else shortestFrom negative d more

/-- Nine digits are enough for any single-precision value. -/
def digitCounts : List Nat := [1, 2, 3, 4, 5, 6, 7, 8, 9]

/-- The text of a number behind which the suffix stands; a zero behind the point is dropped. -/
def withSuffix (text : String) : String :=
  match text.toList.reverse with
  | '0' :: '.' :: rest => String.ofList (('.' :: rest).reverse ++ ['f'])
  | cs => String.ofList (cs.reverse ++ ['f'])

/-- The literal of a double in single precision. -/
def literal (x : Double) : Except Failure String :=
  if !x.isFinite then .error (.literal (.notFinite x))
  else match ofDouble? x with
    | none => .error (.literal (.beyondSingle x))
    | some d => match shortestFrom x.negative d digitCounts with
      | .ok y => .ok (withSuffix y.text)
      | .error f => .error (.fault f)

end Single

/-! ## Constants -/

namespace Guid

/-- A definition; the width of the name's column includes the comma behind the name. -/
def defineLine (room : Nat) (name : String) (g : Guid) (width : Int) : Except Failure String := do
  let label ← column room width (name ++ ",")
  return s!"DEFINE_GUID({label} {g.defineArguments});"

end Guid

namespace ConstantDecl

/-- The value of a constant, which has to be there. -/
def present (name : String) (value : Option Value) : Except Failure Value :=
  match value with
  | some v => .ok v
  | none => .error (.missing (.constantValue name))

/-- The lines that define a constant. -/
def lines (room : Nat) (c : ConstantDecl) (guidWidth : Int) : Except Failure (List String) :=
  match c.body with
  | .guid none => .error (.missing (.guidValue c.name))
  | .guid (some g) => do return [← g.defineLine room c.name guidWidth]
  | .resultCode v => do
    let code ← faulty (← present c.name v).toInteger
    return [s!"#ifndef {c.name}", s!"#define {c.name} ((HRESULT)0x{wordDigits code}L)", "#endif"]
  | .signed v => do
    let i ← faulty (← present c.name v).toInteger
    return [s!"#define {c.name} {i}"]
  | .unsigned v => do
    let i ← faulty (← present c.name v).toInteger
    if i < 0x80000000 then return [s!"#define {c.name} {i}"]
    else return [s!"#define {c.name} 0x{hexInteger 8 i}"]
  | .float v => do
    let x ← faulty (← present c.name v).toDouble
    let text ← Single.literal x
    return [s!"#define {c.name} {text}"]
  | .other kind v => do
    let _ ← present c.name v
    throw (.literal (.unknownKind c.name kind))

end ConstantDecl

namespace EnumMember

/-- The literal of a member: eight digits for an unsigned or a negative one. -/
def literal (m : EnumMember) : String :=
  if m.isUnsigned then "0x" ++ wordDigits m.value
  else if m.value < 0 then "0x" ++ wordDigits m.value ++ "L"
  else toString m.value

end EnumMember

end ComHeaders
