import ComHeaders.Value

/-!
# Type references

A signature mentions a type by a reference: void, a primitive, a named type, or a
pointer to or an array of such.  A named type is identified by its namespace and its
name, or by the type that declares it and its name.

The parts of a name are values as the metadata wrote them.  Ordinarily they are texts,
and an absent declaring type is null; for such references the full name is the dotted
name one expects.  A bare name that is no text is its own full name, and then nothing can
be put behind it.
-/

namespace ComHeaders

/-- A reference to a type. -/
inductive TypeRef where
  | void
  | primitive (name : Value)
  | pointer (element : TypeRef)
  | array (element : TypeRef) (length : Int)
  | named (namespaceName name declaringType : Value) (isValueType : Bool)
  deriving Repr, Inhabited

namespace TypeRef

/-- The name behind its declaring type, or else behind its namespace, or else alone. -/
def qualify (namespaceName name declaringType : Value) : Value :=
  if declaringType.truthy then .str (declaringType.text ++ "/" ++ name.text)
  else if namespaceName.truthy then .str (namespaceName.text ++ "." ++ name.text)
  else name

/-- Where the name is a text, so is the full name. -/
theorem qualify_str (namespaceName declaringType : Value) (name : String) :
    qualify namespaceName (.str name) declaringType =
      .str (qualify namespaceName (.str name) declaringType).text := by
  rw [qualify]
  split
  · rfl
  · split <;> rfl

/-- A text with a mark behind it. -/
def marked (name : Value) (mark : String) : Except Fault Value := do
  return .str ((← name.asText) ++ mark)

/-- The full name of a reference in metadata notation. -/
def fullName : TypeRef → Except Fault Value
  | void => .ok (.str "System.Void")
  | primitive name => .ok (.str ("System." ++ name.text))
  | pointer element => do marked (← element.fullName) "*"
  | array element _ => do marked (← element.fullName) "[]"
  | named ns name declaring _ => .ok (qualify ns name declaring)

/-- Whether a reference bears a full name. -/
def isCalled (r : TypeRef) (name : String) : Bool :=
  match r.fullName with
  | .ok v => v.sameKey (.str name)
  | .error _ => false

/-- The name of a reference, behind which its namespace and declaring type stand back. -/
def name : TypeRef → Value
  | void => .str "Void"
  | primitive n => n
  | pointer _ | array _ _ => .str ""
  | named _ n _ _ => n

/-- What remains when all pointer and array layers are taken off. -/
def innermost : TypeRef → TypeRef
  | pointer element => element.innermost
  | array element _ => element.innermost
  | r => r

def isVoid : TypeRef → Bool
  | void => true
  | _ => false

def isPrimitive : TypeRef → Bool
  | primitive _ => true
  | _ => false

def isPointer : TypeRef → Bool
  | pointer _ => true
  | _ => false

def isNamed : TypeRef → Bool
  | named _ _ _ _ => true
  | _ => false

/-- Whether a reference is marked as one to a value type.  Primitives are. -/
def isValueType : TypeRef → Bool
  | primitive _ => true
  | named _ _ _ v => v
  | _ => false

/-- The innermost element is neither a pointer nor an array. -/
theorem innermost_innermost (r : TypeRef) : r.innermost.innermost = r.innermost := by
  induction r with
  | pointer _ ih => simpa [innermost] using ih
  | array _ _ ih => simpa [innermost] using ih
  | _ => rfl

/-! ## References as keys -/

/-- A reference can serve as a key if the parts of its name can. -/
def isKey : TypeRef → Bool
  | void => true
  | primitive n => n.isKey
  | pointer element => element.isKey
  | array element _ => element.isKey
  | named ns n d _ => ns.isKey && n.isKey && d.isKey

/-- Whether two references are the same key. -/
def sameKey : TypeRef → TypeRef → Bool
  | void, void => true
  | primitive a, primitive b => a.sameKey b
  | pointer a, pointer b => a.sameKey b
  | array a n, array b m => a.sameKey b && n == m
  | named ns a d v, named ns' a' d' v' => ns.sameKey ns' && a.sameKey a' && d.sameKey d' && v == v'
  | _, _ => false

/-! ## Integers -/

/-- The widths of the integer primitives in bits. -/
def integerWidths : List (String × Nat) := [
  ("SByte", 8), ("Byte", 8), ("Int16", 16), ("UInt16", 16), ("Int32", 32), ("UInt32", 32),
  ("Int64", 64), ("UInt64", 64)]

/-- The width of a primitive integer; nothing for any other type. -/
def integerWidth? : TypeRef → Except Fault (Option Nat)
  | primitive (.str n) => .ok (integerWidths.lookup n)
  | primitive n => if n.isKey then .ok none else .error .wrongKind
  | _ => .ok none

end TypeRef

end ComHeaders
