import ComHeaders.Fault
import ComHeaders.Number.FloatText
import ComHeaders.Number.Reading

/-!
# Dynamic values

Metadata arrives as values whose kind is only known when they are looked at.  Most of
them are turned into definitions at once; the arguments of attributes, the values of
constants and the parts of a reference's name stay values until a rule asks for a
number, a truth value or a text.

An object keeps its members in order, and no name occurs in it twice.
-/

namespace ComHeaders

/-- A value of a metadata document. -/
inductive Value where
  | null
  | bool (b : Bool)
  | int (i : Int)
  | float (x : Double)
  | str (s : String)
  | list (items : List Value)
  | object (members : List (String × Value))
  deriving Repr, Inhabited

namespace Value

/-- Null, false, the zeros and everything empty do not count as true. -/
def truthy : Value → Bool
  | null => false
  | bool b => b
  | int i => i != 0
  | float x => !x.isZero
  | str s => s != ""
  | list items => !items.isEmpty
  | object members => !members.isEmpty

/-- Lists and objects cannot serve as keys. -/
def isKey : Value → Bool
  | list _ | object _ => false
  | _ => true

mutual

/-- Whether one value can stand for another.  Truth values count as the numbers zero and one,
numbers are compared by value, and what is no number stands for itself.  Lists are compared
item by item, and objects name by name in whatever order. -/
def sameKey : Value → Value → Bool
  | null, null => true
  | str a, str b => a == b
  | bool a, bool b => a == b
  | int a, int b => a == b
  | bool a, int b | int b, bool a => a.toInt == b
  | float a, float b => a.valueEq b || (a.isNaN && b.isNaN)
  | float a, int b | int b, float a => a.eqInt b
  | float a, bool b | bool b, float a => a.eqInt b.toInt
  | list as, list bs => sameItems as bs
  | object as, object bs => as.length == bs.length && sameMembers as bs
  | _, _ => false

def sameItems : List Value → List Value → Bool
  | [], [] => true
  | a :: as, b :: bs => a.sameKey b && sameItems as bs
  | _, _ => false

def sameMembers : List (String × Value) → List (String × Value) → Bool
  | [], _ => true
  | (k, a) :: as, bs =>
    (match bs.lookup k with
      | some b => a.sameKey b
      | none => false) && sameMembers as bs

end

/-- Whether two values are equal.  That what is no number is not, not even to itself. -/
def equals (a b : Value) : Bool :=
  match a with
  | float x => !x.isNaN && a.sameKey b
  | _ => a.sameKey b

/-! ## Shown inside messages -/

mutual

/-- The value as it is shown inside another one: texts stand between quotes. -/
def shown : Value → String
  | null => "None"
  | bool true => "True"
  | bool false => "False"
  | int i => toString i
  | float x => x.text
  | str s => quoted s
  | list items => "[" ++ ", ".intercalate (shownItems items) ++ "]"
  | object members => "\x7b" ++ ", ".intercalate (shownMembers members) ++ "\x7d"

def shownItems : List Value → List String
  | [] => []
  | v :: rest => v.shown :: shownItems rest

def shownMembers : List (String × Value) → List String
  | [] => []
  | (k, v) :: rest => (quoted k ++ ": " ++ v.shown) :: shownMembers rest

end

/-- The value as it is inserted into a text: a text as it is, anything else as shown. -/
def text : Value → String
  | str s => s
  | v => v.shown

@[simp] theorem text_str (s : String) : (str s).text = s := rfl

/-! ## Conversions -/

/-- The text that a value has to be. -/
def asText : Value → Except Fault String
  | str s => .ok s
  | _ => .error .wrongKind

@[simp] theorem asText_str (s : String) : (str s).asText = .ok s := rfl

/-- The integer a value stands for.  Numbers lose their fraction, texts are read. -/
def toInteger : Value → Except Fault Int
  | int i => .ok i
  | bool b => .ok b.toInt
  | float x =>
    if x.isNaN then .error .unreadableNumber
    else if x.isInfinite then .error .outOfRange
    else .ok x.truncate
  | str s => match readInteger? s with
    | some i => .ok i
    | none => .error .unreadableNumber
  | _ => .error .wrongKind

/-- The double a value stands for. -/
def toDouble : Value → Except Fault Double
  | float x => .ok x
  | bool b => match Double.ofInt? b.toInt with
    | some x => .ok x
    | none => .error .outOfRange
  | int i => match Double.ofInt? i with
    | some x => .ok x
    | none => .error .outOfRange
  | str s => match readDouble? s with
    | some x => .ok x
    | none => .error .unreadableNumber
  | _ => .error .wrongKind

/-- The items one gets by going through a value: of a list its items, of a text its
characters, of an object its names. -/
def items : Value → Except Fault (List Value)
  | list vs => .ok vs
  | str s => .ok (s.toList.map fun c => str (String.singleton c))
  | object members => .ok (members.map fun m => str m.1)
  | _ => .error .wrongKind

/-- The member of an object, which has to be there. -/
def member (key : String) : Value → Except Fault Value
  | object members => match members.lookup key with
    | some v => .ok v
    | none => .error (.missingKey key)
  | _ => .error .wrongKind

/-- The member of an object, or nothing. -/
def member? (key : String) : Value → Except Fault (Option Value)
  | object members => .ok (members.lookup key)
  | _ => .error .notAnObject

/-- The member of an object, or a default in its place. -/
def memberD (v : Value) (key : String) (default : Value) : Except Fault Value := do
  return (← v.member? key).getD default

/-! ## Order -/

/-- Whether one value comes before another: texts by code points, numbers by value.  No
other two kinds have an order. -/
def before? : Value → Value → Option Bool
  | str a, str b => some (a < b)
  | int a, int b => some (a < b)
  | bool a, bool b => some (a.toInt < b.toInt)
  | bool a, int b => some (a.toInt < b)
  | int a, bool b => some (a < b.toInt)
  | float a, float b => some (a.valueLt b)
  | float a, int b => some (floatBeforeInt a b)
  | float a, bool b => some (floatBeforeInt a b.toInt)
  | int a, float b => some (intBeforeFloat a b)
  | bool a, float b => some (intBeforeFloat a.toInt b)
  | _, _ => none
where
  /-- A double is below an integer if its floor is. -/
  floatBeforeInt (x : Double) (i : Int) : Bool :=
    if x.isNaN then false
    else if x.isInfinite then x.negative
    else x.truncate < i || (x.truncate == i && x.negative && !x.eqInt i)
  intBeforeFloat (i : Int) (x : Double) : Bool :=
    if x.isNaN then false
    else if x.isInfinite then !x.negative
    else i < x.truncate || (x.truncate == i && !x.negative && !x.eqInt i)

end Value

end ComHeaders
