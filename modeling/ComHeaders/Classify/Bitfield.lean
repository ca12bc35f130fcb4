import ComHeaders.Classify.Constant

/-!
# Bit groups

A backing field is carved up into groups of bits, each described by an attribute with a
name, a first bit and a length.  The attributes may come in any order; the groups are put
in the order of their first bits.  They then have to start at bit zero, follow each other
without a gap, and end within the width of the backing integer.
-/

namespace ComHeaders

namespace BitGroup

/-- The name that a backing field has to bear. -/
def backingField : String := "_bitfield"

/-- The argument of an attribute at a position. -/
def argument (a : Attribute) (i : Nat) : Except Fault Value :=
  match a.arguments[i]? with
  | some v => .ok v
  | none => .error .missingArgument

/-- The group an attribute describes. -/
def ofAttribute (a : Attribute) : Except Fault BitGroup := do
  let name := (← argument a 0).text
  let start ← (← argument a 1).toInteger
  let length ← (← argument a 2).toInteger
  return ⟨name, start, length⟩

/-- The groups of a field in the order of their first bits; groups that start at the same bit
stay in the order of their attributes. -/
def ofAttributes (attributes : List Attribute) : Except Fault (List BitGroup) := do
  let groups ← (attributes.filter fun a => a.typeName.sameKey (.str bitfieldAttribute)).mapM
    ofAttribute
  return groups.mergeSort fun a b => a.start ≤ b.start

/-- Checks that groups continue from a bit on without a gap and stay within a width. -/
def checkFrom (location : String) (width : Nat) (next : Int) : List BitGroup → Except Failure Unit
  | [] => .ok ()
  | g :: rest =>
    if g.start ≠ next then .error (.bitfields (.gap location g.name g.start next))
    else if g.length ≤ 0 || width < g.start + g.length then
      .error (.bitfields (.overflow location g.name g.start g.length width))
    else checkFrom location width (g.start + g.length) rest

/-- The groups of a field of an aggregate, if they fill it as they should. -/
def read (owner : String) (f : Field) : Except Failure (List BitGroup) := do
  let groups ← faulty (ofAttributes f.attributes)
  if groups.isEmpty then return []
  let location := owner ++ "." ++ f.name
  if f.name ≠ backingField then throw (.bitfields (.notBacking location backingField))
  match ← faulty f.type.integerWidth? with
  | none => throw (.bitfields (.notInteger location (← faulty f.type.fullName).text))
  | some width =>
    checkFrom location width 0 groups
    return groups

end BitGroup

end ComHeaders
