import ComHeaders.Journal
import ComHeaders.Metadata.Decode
import ComHeaders.Table

/-!
# Repositories

A repository holds the definitions of a metadata set in their order and answers three
questions: which top-level definitions a namespace has, which definition bears a full
name, and which namespaces there are.

The second question is answered by an index.  If several definitions bear one name the
index keeps the first, and the others are announced in the journal.
-/

namespace ComHeaders

/-- A metadata set, with the index of its definitions by full name. -/
structure Repository where
  definitions : List TypeDef
  index : Table TypeDef

namespace Repository

/-- The index of some definitions behind an index that is already there.  A name that is
taken keeps its definition. -/
def extendIndex (index : Table TypeDef) : List TypeDef → Table TypeDef
  | [] => index
  | d :: rest =>
    if (index.lookup d.fullName).isSome then extendIndex index rest
    else extendIndex (index ++ [(d.fullName, d)]) rest

/-- The repository of some definitions. -/
def ofList (definitions : List TypeDef) : Repository :=
  ⟨definitions, extendIndex [] definitions⟩

/-- The definition that bears a full name. -/
def find? (r : Repository) (fullName : String) : Option TypeDef := r.index.lookup fullName

/-- The number of definitions, repeated ones included. -/
def size (r : Repository) : Nat := r.definitions.length

/-- The top-level definitions of a namespace, in their order, repeated ones included. -/
def typesIn (r : Repository) (namespaceName : Value) : List TypeDef :=
  r.definitions.filter fun d => d.namespaceName.equals namespaceName && !d.isNested

/-- The definition that bears a full name which may be no text.  Then there is none, but one
can ask for a key only. -/
def findKey (r : Repository) : Value → Except Fault (Option TypeDef)
  | .str n => .ok (r.find? n)
  | v => if v.isKey then .ok none else .error .wrongKind

/-- The definition a reference leads to when all its layers are taken off.  Void and
primitives lead to none. -/
def resolve (r : Repository) (ref : TypeRef) : Except Fault (Option TypeDef) :=
  match ref.innermost with
  | .named ns name declaring _ => r.findKey (TypeRef.qualify ns name declaring)
  | _ => .ok none

/-! ## Looking up behind the index -/

theorem lookup_extendIndex (n : String) (index : Table TypeDef) (ds : List TypeDef) :
    (extendIndex index ds).lookup n =
      (index.lookup n).or (ds.find? fun d => d.fullName = n) := by
  induction ds generalizing index with
  | nil => simp [extendIndex]
  | cons d rest ih =>
    rw [extendIndex]
    split
    · rename_i taken
      rw [ih, List.find?_cons]
      split
      · rename_i same
        simp only [decide_eq_true_eq] at same
        subst same
        obtain ⟨e, he⟩ := Option.isSome_iff_exists.1 taken
        simp [he]
      · rfl
    · rename_i free
      rw [ih, List.lookup_append, List.find?_cons]
      by_cases same : d.fullName = n
      · subst same
        simp_all
      · simp [List.lookup_cons, same, beq_eq_false_iff_ne.2 (Ne.symm same)]

/-- The index leads to the first definition of a name. -/
theorem find?_ofList (ds : List TypeDef) (n : String) :
    (ofList ds).find? n = ds.find? fun d => d.fullName = n := by
  simp [find?, ofList, lookup_extendIndex]

/-- A reference leads to what is found under the full name of its innermost element. -/
theorem resolve_of_innermost (r : Repository) {ref : TypeRef} {ns declaring : Value} {name : String}
    {isValueType : Bool} (h : ref.innermost = .named ns (.str name) declaring isValueType) :
    r.resolve ref = .ok (r.find? (TypeRef.qualify ns (.str name) declaring).text) := by
  rw [resolve, h]
  show r.findKey (TypeRef.qualify ns (.str name) declaring) = _
  rw [TypeRef.qualify_str, findKey]
  rfl

/-! ## Namespaces -/

/-- Adds a value to a list of distinct keys unless it is there. -/
def insertKey (keys : List Value) (v : Value) : List Value :=
  if keys.any (v.sameKey ·) then keys else keys ++ [v]

/-- Puts a value in front of the first one it comes before. -/
def insertOrdered (v : Value) : List Value → Except Fault (List Value)
  | [] => .ok [v]
  | w :: rest => match v.before? w with
    | some true => .ok (v :: w :: rest)
    | some false => do return w :: (← insertOrdered v rest)
    | none => .error .wrongKind

/-- The values in order; only values of comparable kinds have one. -/
def orderValues (vs : List Value) : Except Fault (List Value) :=
  vs.foldlM (fun sorted v => insertOrdered v sorted) []

/-- The namespaces of the top-level definitions, each once and in order. -/
def namespaces (r : Repository) : Except Fault (List Value) := do
  let all := (r.definitions.filter fun d => !d.isNested).map (·.namespaceName)
  if all.any fun v => !v.isKey then throw .wrongKind
  orderValues (all.foldl insertKey [])

/-! ## Building -/

/-- Goes through the keys of definitions, behind keys that are known.  Announces those that are
taken, and gives all that are known then.  Of what can be no key one cannot say whether it is
taken. -/
def announceDuplicates (known : List Value) : List Value → Logged (List Value)
  | [] => return known
  | key :: rest => do
    if !key.isKey then throw (.fault .wrongKind)
    if known.any (key.sameKey ·) then
      note (.plain .repository .warning s!"Duplicate type definition ignored: {key.text}")
    announceDuplicates (insertKey known key) rest

/-- The repository of some definitions, with what its building says.  From here on a name is a
text; what else was written in its place stays as it is shown. -/
def build (definitions : List (TypeDef Value)) : Logged Repository := do
  let keys ← announceDuplicates [] (definitions.map TypeDef.key)
  note (.plain .repository .debug s!"Indexed {keys.length} type definitions")
  return ofList (definitions.map (TypeDef.mapNames Value.text))

/-- The repository of a document. -/
def ofDocument (document : Value) : Logged Repository := do
  build (← liftExcept (decodeDocument document))
where
  liftExcept {α : Type} (x : Except Failure α) : Logged α := ExceptT.mk (pure x)

end Repository

end ComHeaders
