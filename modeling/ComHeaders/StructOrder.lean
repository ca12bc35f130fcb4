import ComHeaders.Declaration.Basic
import ComHeaders.Pass

/-!
# The order of structs

C wants the type of a member to be complete before the aggregate that holds it.  Structs
are therefore put in an order that is found depth first: candidates are taken by name, and
what a struct refers to is declared before the struct itself.  References through pointers
count as well.

## Demands

What a struct asks for is a list of demands, one for each of its fields in layout order,
those of aggregates declared in place included.  A demand is a reference to a type by
name, or an array that cannot be declared because its elements are no primitives.  A type
can have a name by which nothing can be looked up or said; then the demand is a fault.
The list depends on the struct alone.

## The walk

The walk over the demands is a loop.  It keeps the structs that were not entered yet, the
ones that are entered and not finished, each with its open demands, and the finished ones.
A struct is taken out of the first when it is entered, so a reference that leads back to
a struct that is open or finished is passed over, and cycles end.  Every turn of the loop
enters a struct, finishes one or settles a demand, which is the measure of termination.
-/

namespace ComHeaders

/-- What a field asks for before its aggregate can be declared. -/
inductive Demand where
  /-- The type of that name, if the header declares it. -/
  | reference (field target : String)
  /-- An array whose elements are no primitives. -/
  | forbidden (field element : String)
  /-- A type whose name is of no use. -/
  | unusable (fault : Fault)
  deriving DecidableEq, Repr

/-- The demand of a reference at the end of all layers; only named types are asked for. -/
def TypeRef.demand (field : String) (r : TypeRef) : List Demand :=
  match r.innermost with
  | .named _ (.str target) _ _ => [.reference field target]
  | .named _ name _ _ => if name.isKey then [] else [.unusable .wrongKind]
  | _ => []

/-- The demand of an array of elements of a type; primitives are not asked for. -/
def TypeRef.arrayDemand (field : String) (element : TypeRef) : List Demand :=
  if element.isPrimitive then []
  else match element.fullName with
    | .ok name => [.forbidden field name.text]
    | .error f => [.unusable f]

namespace FieldDecl

mutual

/-- The demands of a field. -/
def demands : FieldDecl → List Demand
  | plain name type _ => type.demand name
  | array name element _ => element.arrayDemand name
  | aggregate _ _ _ fields => demandsOf fields

/-- The demands of some fields, in their order. -/
def demandsOf : List FieldDecl → List Demand
  | [] => []
  | f :: rest => f.demands ++ demandsOf rest

end

end FieldDecl

/-- The demands of a struct. -/
def StructDecl.demands (s : StructDecl) : List Demand := FieldDecl.demandsOf s.fields

namespace StructOrder

/-- A struct that is entered and not finished, with its open demands. -/
structure OpenStruct where
  owner : StructDecl
  pending : List Demand

/-- How far the walk has come. -/
structure Walk where
  /-- The structs that were not entered yet, by name. -/
  remaining : List StructDecl
  /-- The structs that are entered and not finished, the latest first. -/
  opened : List OpenStruct
  /-- The finished structs, the latest first. -/
  finished : List StructDecl
  /-- What the journal will say, the latest first. -/
  notes : List Entry

/-- Takes the struct of a name out of a list. -/
def take? (name : String) : List StructDecl → Option (StructDecl × List StructDecl)
  | [] => none
  | s :: rest =>
    if s.name = name then some (s, rest)
    else (take? name rest).map fun (t, others) => (t, s :: others)

/-- The turns that a struct costs before it is finished. -/
def cost (s : StructDecl) : Nat := s.demands.length + 2

/-- The turns that some structs cost. -/
def totalCost (l : List StructDecl) : Nat := l.foldr (fun s n => cost s + n) 0

/-- A bound on the turns that are left. -/
def Walk.turns (w : Walk) : Nat :=
  totalCost w.remaining + w.opened.foldr (fun o n => o.pending.length + 1 + n) 0

/-- Taking a struct out takes its cost out. -/
theorem totalCost_of_take? {name : String} {l : List StructDecl} {s : StructDecl}
    {rest : List StructDecl} (h : take? name l = some (s, rest)) :
    totalCost l = cost s + totalCost rest := by
  induction l generalizing rest with
  | nil => simp [take?] at h
  | cons t l ih =>
    rw [take?] at h
    split at h
    · simp only [Option.some.injEq, Prod.mk.injEq] at h
      simp [totalCost, h.1, h.2]
    · obtain ⟨⟨u, others⟩, hu, heq⟩ := Option.map_eq_some_iff.1 h
      simp only [Prod.mk.injEq] at heq
      obtain ⟨rfl, rfl⟩ := heq
      have := ih hu
      simp only [totalCost, List.foldr_cons] at this ⊢
      omega

/-- The note that a struct is entered for the sake of another one. -/
def requirement (owner : StructDecl) (field target : String) : Entry :=
  .plain .structOrder .debug s!"{owner.name}.{field} requires {target} first"

/-- Walks on to the end.  Returns the finished structs in their order, with the notes. -/
def run (w : Walk) : Except Failure (List StructDecl) × List Entry :=
  match _h : w.opened with
  | [] =>
    match _hr : w.remaining with
    | [] => (.ok w.finished.reverse, w.notes.reverse)
    | s :: rest => run { w with remaining := rest, opened := [⟨s, s.demands⟩] }
  | ⟨owner, []⟩ :: outer => run { w with opened := outer, finished := owner :: w.finished }
  | ⟨owner, .forbidden field element :: _⟩ :: _ =>
    (.error (.aggregateArray owner.name field element), w.notes.reverse)
  | ⟨_, .unusable f :: _⟩ :: _ => (.error (.fault f), w.notes.reverse)
  | ⟨owner, .reference field target :: pending⟩ :: outer =>
    match _ht : take? target w.remaining with
    | none => run { w with opened := ⟨owner, pending⟩ :: outer }
    | some (s, rest) =>
      run { w with
        remaining := rest
        opened := ⟨s, s.demands⟩ :: ⟨owner, pending⟩ :: outer
        notes := requirement owner field target :: w.notes }
termination_by w.turns
decreasing_by
  · simp only [Walk.turns, totalCost, _h, _hr, cost, List.foldr_cons, List.foldr_nil]
    omega
  · simp [Walk.turns, _h]
  · simp [Walk.turns, _h]
  · simp only [Walk.turns, _h, totalCost_of_take? _ht, cost, List.foldr_cons, List.length_cons]
    omega

/-- The structs of a table, each before those that refer to it as far as cycles allow. -/
def order (structs : Table StructDecl) : Except Failure (List StructDecl) × List Entry :=
  run ⟨structs.sorted.values, [], [], []⟩

/-- Orders the structs of a header and says how. -/
def resolve (structs : Table StructDecl) : Pass (List StructDecl) :=
  timed .structOrder "StructDependencyResolver.resolve_order" do
    let (result, notes) := order structs
    notes.forM note
    let ordered ← Pass.ofExcept result
    let names := Value.list (ordered.map fun s => .str s.name)
    note (.plain .structOrder .debug s!"Struct order: {names.shown}")
    return ordered

end StructOrder

end ComHeaders
