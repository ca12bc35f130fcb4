import ComHeaders.Value

/-!
# GUIDs

A GUID is written in three fields and eight bytes.  In metadata it is an attribute with
eleven arguments; in a header it is the argument list of a definition.
-/

namespace ComHeaders

/-- A GUID, split the way its definition writes it. -/
structure Guid where
  data1 : Int
  data2 : Int
  data3 : Int
  data4 : List Int
  deriving DecidableEq, Repr

/-- An integer in lower-case hexadecimal, padded with zeros to a least width.  A sign takes
one place of the width. -/
def hexInteger (width : Nat) (i : Int) : String :=
  if i < 0 then String.ofList ('-' :: hexDigits (width - 1) i.natAbs)
  else String.ofList (hexDigits width i.natAbs)

namespace Guid

/-- The GUID of an attribute's eleven arguments. -/
def ofArguments (arguments : List Value) : Except Fault Guid :=
  if arguments.length = 11 then do
    match ← arguments.mapM Value.toInteger with
    | a :: b :: c :: rest => return ⟨a, b, c, rest⟩
    | few => throw (.guidArity few.length)
  else .error (.guidArity arguments.length)

/-- The value part of a definition. -/
def defineArguments (g : Guid) : String :=
  let tail := g.data4.map fun b => "0x" ++ hexInteger 2 b
  ", ".intercalate (["0x" ++ hexInteger 8 g.data1, "0x" ++ hexInteger 4 g.data2,
    "0x" ++ hexInteger 4 g.data3, ", ".intercalate tail])

end Guid

end ComHeaders
