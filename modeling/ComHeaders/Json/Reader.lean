import ComHeaders.Json.Token

/-!
# Reading a value from its tokens

The reader goes through the tokens once.  Containers that are not complete yet wait in
a list of frames, innermost first, and a small state says what may come next.  So the
nesting of a text costs list cells and no call stack, and termination is the length
of the token list.

A name that is repeated in an object keeps its first place and gets its last value.

There is no value for a string with half a character in it.  The reader goes on behind such a
string, since something may be wrong with the text behind it, and reports it in the end.
-/

namespace ComHeaders.Json

/-- Why a text is no value. -/
inductive ReadError where
  /-- The text breaks the grammar. -/
  | syntaxError
  /-- An integer has more digits than are read. -/
  | hugeInteger
  /-- A string holds half a character. -/
  | halfCharacter
  deriving DecidableEq, Repr

/-- A container that is not complete. -/
inductive Frame where
  /-- A list, with its items so far, latest first. -/
  | list (items : List Value)
  /-- An object, with its members so far in order and the name of the next one. -/
  | object (members : List (String × Value)) (name : String)

/-- What may come next. -/
inductive Expect where
  | value
  /-- A first item, or the end of the list. -/
  | itemOrEnd
  /-- A first name, or the end of the object. -/
  | nameOrEnd
  | name
  | colon
  | commaOrEnd
  /-- Nothing: the value is complete. -/
  | done

/-- How far the reader has come. -/
structure Reading where
  frames : List Frame
  expect : Expect
  /-- The value, once it is complete. -/
  result : Value

/-- Sets a member: in its old place if the name is there, else at the end. -/
def setMember (name : String) (v : Value) : List (String × Value) → List (String × Value)
  | [] => [(name, v)]
  | m :: rest => if m.1 = name then (name, v) :: rest else m :: setMember name v rest

/-- Hands a complete value to the innermost frame. -/
def Reading.deliver (v : Value) : List Frame → Reading
  | [] => ⟨[], .done, v⟩
  | .list items :: frames => ⟨.list (v :: items) :: frames, .commaOrEnd, .null⟩
  | .object members name :: frames =>
    ⟨.object (setMember name v members) "" :: frames, .commaOrEnd, .null⟩

/-- A token at a place where a value may start. -/
def Reading.startValue (frames : List Frame) : Token → Except ReadError Reading
  | .openList => .ok ⟨.list [] :: frames, .itemOrEnd, .null⟩
  | .openObject => .ok ⟨.object [] "" :: frames, .nameOrEnd, .null⟩
  | .str s => .ok (deliver (.str s) frames)
  | .halfString => .ok (deliver .null frames)
  | .atom v => .ok (deliver v frames)
  | .hugeInteger => .error .hugeInteger
  | _ => .error .syntaxError

/-- Takes one token. -/
def Reading.step (r : Reading) (t : Token) : Except ReadError Reading :=
  match r.expect, t, r.frames with
  | .value, t, frames => startValue frames t
  | .itemOrEnd, .closeList, .list items :: frames => .ok (deliver (.list items.reverse) frames)
  | .itemOrEnd, t, frames => startValue frames t
  | .nameOrEnd, .closeObject, .object members _ :: frames =>
    .ok (deliver (.object members) frames)
  | .nameOrEnd, .str s, .object members _ :: frames =>
    .ok ⟨.object members s :: frames, .colon, .null⟩
  | .nameOrEnd, .halfString, .object members _ :: frames =>
    .ok ⟨.object members "" :: frames, .colon, .null⟩
  | .name, .str s, .object members _ :: frames =>
    .ok ⟨.object members s :: frames, .colon, .null⟩
  | .name, .halfString, .object members _ :: frames =>
    .ok ⟨.object members "" :: frames, .colon, .null⟩
  | .colon, .colon, frames => .ok ⟨frames, .value, .null⟩
  | .commaOrEnd, .comma, .list items :: frames => .ok ⟨.list items :: frames, .value, .null⟩
  | .commaOrEnd, .comma, .object members n :: frames =>
    .ok ⟨.object members n :: frames, .name, .null⟩
  | .commaOrEnd, .closeList, .list items :: frames => .ok (deliver (.list items.reverse) frames)
  | .commaOrEnd, .closeObject, .object members _ :: frames =>
    .ok (deliver (.object members) frames)
  | _, _, _ => .error .syntaxError

/-- The value a text writes. -/
def read (s : String) : Except ReadError Value := do
  let ts := tokens s
  let r ← ts.foldlM Reading.step ⟨[], .value, .null⟩
  match r.expect with
  | .done => if ts.any Token.isHalf then throw .halfCharacter else return r.result
  | _ => throw .syntaxError

end ComHeaders.Json
