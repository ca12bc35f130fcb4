import ComHeaders.StructOrder
import Mathlib.Data.List.Basic
import Mathlib.Logic.Relation

/-!
# References between structs

What it means that a struct refers to another one is said here without the walk: by the
members it has, at any depth of the aggregates declared in place.  The walk never looks at
members; it works off a list of demands.  `reference_mem_demands` joins the two: a name is
on the list exactly when a member leads to it.

## Members by value and members that lead somewhere

A member whose type is the named type itself holds it by value (`StructDecl.Holds`), and C
wants that type to be complete.  A member whose type names the struct behind any number of
pointers and arrays refers to it (`StructDecl.RefersTo`).  The walk follows both alike, so
holding matters to it only as a way of referring (`StructDecl.Holds.refersTo`).

An aggregate that is declared in place has a type of its own as well, and a struct of the
header can have the name of that type.  The walk looks only into such an aggregate, so this is
no reference; `StructDecl.LeadsTo` is the wider relation that counts it.

## Leading around

The walk never enters a struct twice, so while some structs are open it can come only to
what is left when these are taken away.  `LeadsAround structs avoided a b` is a chain of
references from `a` to `b` that keeps clear of `avoided`.

## First chains

The structs that are open form a chain of references, the latest at its end.  Which chain it
is depends on the structs alone: its root is the first struct by name from which the target
can be reached, and each next one is the first in the order of the fields from which it can
still be reached around those that are on the chain already.  `FirstChain structs t chain`
says that, the latest first.
-/

namespace ComHeaders

/-! ## Members at any depth -/

/-- A field that stands among some fields, or inside an aggregate that does. -/
inductive FieldDecl.Within (f : FieldDecl) : List FieldDecl → Prop where
  | among {fields : List FieldDecl} : f ∈ fields → FieldDecl.Within f fields
  | inside {fields inner : List FieldDecl} {name : String} {type : TypeRef}
      {head : AggregateHead} : .aggregate name type head inner ∈ fields →
      FieldDecl.Within f inner → FieldDecl.Within f fields

/-- The type of a member of some fields, at whatever depth; of an array, that of its elements. -/
def FieldDecl.Mentions (fields : List FieldDecl) (r : TypeRef) : Prop :=
  (∃ name groups, (FieldDecl.plain name r groups).Within fields) ∨
    ∃ name length, (FieldDecl.array name r length).Within fields

/-- The type of a field that is no array; of an aggregate declared in place, its own one. -/
def FieldDecl.ownType? : FieldDecl → Option TypeRef
  | plain _ type _ | aggregate _ type _ _ => some type
  | array .. => none

/-- A reference whose innermost element is the named type. -/
def TypeRef.LeadsTo (r : TypeRef) (target : String) : Prop :=
  ∃ ns declaring isValue, r.innermost = .named ns (.str target) declaring isValue

namespace StructDecl

/-- A plain member of the struct, at whatever depth, leads to the name. -/
def RefersTo (s : StructDecl) (target : String) : Prop :=
  ∃ field type groups, (FieldDecl.plain field type groups).Within s.fields ∧
    type.LeadsTo target

/-- A member of the struct that is no array, at whatever depth, leads to the name, be it a
plain one or an aggregate declared in place. -/
def LeadsTo (s : StructDecl) (target : String) : Prop :=
  ∃ (field : FieldDecl) (type : TypeRef), field.Within s.fields ∧ field.ownType? = some type ∧
    type.LeadsTo target

/-- A member of the struct, at whatever depth, is of the named type itself. -/
def Holds (s : StructDecl) (target : String) : Prop :=
  ∃ field ns declaring isValue groups,
    (FieldDecl.plain field (.named ns (.str target) declaring isValue) groups).Within s.fields

theorem Holds.refersTo {s : StructDecl} {target : String} (h : s.Holds target) :
    s.RefersTo target := by
  obtain ⟨field, ns, declaring, isValue, groups, hw⟩ := h
  exact ⟨field, _, groups, hw, ns, declaring, isValue, rfl⟩

end StructDecl

namespace FieldDecl

@[simp] theorem not_within_nil (f : FieldDecl) : ¬ f.Within [] := by
  rintro (h | ⟨h, -⟩) <;> simp at h

/-- A plain field within a row is its first field, inside its first field, or within the
rest. -/
theorem within_cons {f g : FieldDecl} {rest : List FieldDecl} :
    f.Within (g :: rest) ↔ f = g ∨
      (∃ name type head inner, g = .aggregate name type head inner ∧ f.Within inner) ∨
      f.Within rest := by
  constructor
  · rintro (h | ⟨h, hin⟩)
    · rcases List.mem_cons.mp h with h | h
      · exact Or.inl h
      · exact Or.inr (Or.inr (.among h))
    · rcases List.mem_cons.mp h with h | h
      · exact Or.inr (Or.inl ⟨_, _, _, _, h.symm, hin⟩)
      · exact Or.inr (Or.inr (.inside h hin))
  · rintro (rfl | ⟨name, type, head, inner, rfl, hin⟩ | (h | ⟨h, hin⟩))
    · exact .among List.mem_cons_self
    · exact .inside List.mem_cons_self hin
    · exact .among (List.mem_cons_of_mem _ h)
    · exact .inside (List.mem_cons_of_mem _ h) hin

theorem mentions_cons {f : FieldDecl} {rest : List FieldDecl} {r : TypeRef} :
    Mentions (f :: rest) r ↔ Mentions [f] r ∨ Mentions rest r := by
  simp only [Mentions, within_cons, not_within_nil, or_false]
  grind

theorem forall_mentions_cons {P : TypeRef → Prop} {f : FieldDecl} {rest : List FieldDecl} :
    (∀ r, Mentions (f :: rest) r → P r) ↔
      (∀ r, Mentions [f] r → P r) ∧ ∀ r, Mentions rest r → P r := by
  rw [← forall_and]
  exact forall_congr' fun r => by rw [mentions_cons, or_imp]

@[simp] theorem not_mentions_nil (r : TypeRef) : ¬ Mentions [] r := by
  simp [Mentions]

@[simp] theorem mentions_plain {name : String} {type r : TypeRef} {groups : List BitGroup} :
    Mentions [.plain name type groups] r ↔ r = type := by
  simp [Mentions, within_cons]

@[simp] theorem mentions_array {name : String} {element r : TypeRef} {length : Int} :
    Mentions [.array name element length] r ↔ r = element := by
  simp [Mentions, within_cons]

@[simp] theorem mentions_aggregate {name : String} {type r : TypeRef} {head : AggregateHead}
    {inner : List FieldDecl} :
    Mentions [.aggregate name type head inner] r ↔ Mentions inner r := by
  simp [Mentions, within_cons]

/-! ## Demands and members -/

/-- A type asks for a name exactly when it leads to it. -/
theorem reference_mem_demand {field field' target : String} {r : TypeRef} :
    Demand.reference field target ∈ r.demand field' ↔ field = field' ∧ r.LeadsTo target := by
  unfold TypeRef.demand TypeRef.LeadsTo
  split
  · rename_i ns name declaring isValue h
    simp only [List.mem_singleton, Demand.reference.injEq, h, TypeRef.named.injEq]
    constructor
    · rintro ⟨rfl, rfl⟩
      exact ⟨rfl, ns, declaring, isValue, rfl, rfl, rfl, rfl⟩
    · rintro ⟨rfl, _, _, _, -, hname, -⟩
      exact ⟨rfl, (Value.str.inj hname).symm⟩
  · rename_i ns name declaring isValue hstr h
    constructor
    · split <;> simp
    · rintro ⟨-, _, _, _, h'⟩
      rw [h, TypeRef.named.injEq] at h'
      exact absurd h'.2.1 (hstr target)
  · rename_i hnamed
    simp only [List.not_mem_nil, false_iff, not_and]
    rintro - ⟨ns, declaring, isValue, h⟩
    cases hr : r.innermost <;> simp_all

theorem reference_not_mem_arrayDemand {field field' target : String} {r : TypeRef} :
    Demand.reference field target ∉ r.arrayDemand field' := by
  unfold TypeRef.arrayDemand
  split
  · simp
  · split <;> simp

/-- What some fields ask for is what the members among them ask for, at whatever depth. -/
theorem mem_demandsOf {d : Demand} : ∀ fields : List FieldDecl, d ∈ demandsOf fields ↔
    (∃ name type groups, (plain name type groups).Within fields ∧ d ∈ type.demand name) ∨
      ∃ name element length, (array name element length).Within fields ∧
        d ∈ element.arrayDemand name
  | [] => by simp [demandsOf]
  | .plain name type groups :: rest => by
    simp only [demandsOf, demands, List.mem_append, within_cons, mem_demandsOf rest, reduceCtorEq,
      false_and, exists_false, false_or]
    constructor
    · rintro (h | ⟨name', type', groups', hw, h⟩ | h)
      · exact Or.inl ⟨name, type, groups, Or.inl rfl, h⟩
      · exact Or.inl ⟨name', type', groups', Or.inr hw, h⟩
      · exact Or.inr h
    · rintro (⟨name', type', groups', heq | hw, h⟩ | h)
      · obtain ⟨rfl, rfl, rfl⟩ := FieldDecl.plain.inj heq
        exact Or.inl h
      · exact Or.inr (Or.inl ⟨name', type', groups', hw, h⟩)
      · exact Or.inr (Or.inr h)
  | .array name element length :: rest => by
    simp only [demandsOf, demands, List.mem_append, within_cons, mem_demandsOf rest, reduceCtorEq,
      false_and, exists_false, false_or]
    constructor
    · rintro (h | h | ⟨name', element', length', hw, h⟩)
      · exact Or.inr ⟨name, element, length, Or.inl rfl, h⟩
      · exact Or.inl h
      · exact Or.inr ⟨name', element', length', Or.inr hw, h⟩
    · rintro (h | ⟨name', element', length', heq | hw, h⟩)
      · exact Or.inr (Or.inl h)
      · obtain ⟨rfl, rfl, rfl⟩ := FieldDecl.array.inj heq
        exact Or.inl h
      · exact Or.inr (Or.inr ⟨name', element', length', hw, h⟩)
  | .aggregate name type head inner :: rest => by
    simp only [demandsOf, demands, List.mem_append, within_cons, mem_demandsOf rest,
      mem_demandsOf inner, reduceCtorEq, false_or]
    constructor
    · rintro ((⟨name', type', groups', hw, h⟩ | ⟨name', element', length', hw, h⟩) |
        ⟨name', type', groups', hw, h⟩ | ⟨name', element', length', hw, h⟩)
      · exact Or.inl ⟨name', type', groups', Or.inl ⟨_, _, _, _, rfl, hw⟩, h⟩
      · exact Or.inr ⟨name', element', length', Or.inl ⟨_, _, _, _, rfl, hw⟩, h⟩
      · exact Or.inl ⟨name', type', groups', Or.inr hw, h⟩
      · exact Or.inr ⟨name', element', length', Or.inr hw, h⟩
    · rintro (⟨name', type', groups', ⟨_, _, _, _, heq, hw⟩ | hw, h⟩ |
        ⟨name', element', length', ⟨_, _, _, _, heq, hw⟩ | hw, h⟩)
      · obtain ⟨-, -, -, rfl⟩ := FieldDecl.aggregate.inj heq
        exact Or.inl (Or.inl ⟨name', type', groups', hw, h⟩)
      · exact Or.inr (Or.inl ⟨name', type', groups', hw, h⟩)
      · obtain ⟨-, -, -, rfl⟩ := FieldDecl.aggregate.inj heq
        exact Or.inl (Or.inr ⟨name', element', length', hw, h⟩)
      · exact Or.inr (Or.inr ⟨name', element', length', hw, h⟩)

/-- Some fields ask for a name exactly when a plain member among them, at whatever depth,
leads to it. -/
theorem reference_mem_demandsOf {field target : String} {fields : List FieldDecl} :
    Demand.reference field target ∈ demandsOf fields ↔
      ∃ type groups, (plain field type groups).Within fields ∧ type.LeadsTo target := by
  simp only [mem_demandsOf, reference_mem_demand, reference_not_mem_arrayDemand, and_false,
    exists_false, or_false]
  constructor
  · rintro ⟨name, type, groups, hw, rfl, h⟩
    exact ⟨type, groups, hw, h⟩
  · rintro ⟨type, groups, hw, h⟩
    exact ⟨field, type, groups, hw, rfl, h⟩

end FieldDecl

/-- **What a struct asks for is what it refers to.** -/
theorem StructDecl.refersTo_iff {s : StructDecl} {target : String} :
    s.RefersTo target ↔ ∃ field, Demand.reference field target ∈ s.demands := by
  simp only [StructDecl.demands, FieldDecl.reference_mem_demandsOf, StructDecl.RefersTo]

namespace StructOrder

/-! ## References among some structs -/

/-- One of the structs refers to another one, or to itself. -/
def Refers (structs : List StructDecl) (a b : StructDecl) : Prop :=
  a ∈ structs ∧ b ∈ structs ∧ a.RefersTo b.name

/-- One of the structs leads to another one, or to itself, by a member that is no array. -/
def Leads (structs : List StructDecl) (a b : StructDecl) : Prop :=
  a ∈ structs ∧ b ∈ structs ∧ a.LeadsTo b.name

/-- One of the structs holds another one, or itself, by value. -/
def Contains (structs : List StructDecl) (a b : StructDecl) : Prop :=
  a ∈ structs ∧ b ∈ structs ∧ a.Holds b.name

theorem Contains.refers {structs : List StructDecl} {a b : StructDecl}
    (h : Contains structs a b) : Refers structs a b :=
  ⟨h.1, h.2.1, h.2.2.refersTo⟩

theorem Refers.perm {structs structs' : List StructDecl} (hperm : structs.Perm structs')
    {a b : StructDecl} (h : Refers structs a b) : Refers structs' a b :=
  ⟨hperm.mem_iff.mp h.1, hperm.mem_iff.mp h.2.1, h.2.2⟩

/-- A chain of references between structs, with nothing on it that is to be avoided. -/
inductive LeadsAround (structs avoided : List StructDecl) : StructDecl → StructDecl → Prop where
  | here {a : StructDecl} : a ∉ avoided → LeadsAround structs avoided a a
  | step {a b c : StructDecl} : a ∉ avoided → Refers structs a b →
      LeadsAround structs avoided b c → LeadsAround structs avoided a c

namespace LeadsAround

variable {structs avoided : List StructDecl} {a b : StructDecl}

theorem start_not_mem (h : LeadsAround structs avoided a b) : a ∉ avoided := by
  cases h <;> assumption

theorem mono {fewer : List StructDecl} (hsub : fewer ⊆ avoided)
    (h : LeadsAround structs avoided a b) : LeadsAround structs fewer a b := by
  induction h with
  | here ha => exact .here fun hm => ha (hsub hm)
  | step ha hr _ ih => exact .step (fun hm => ha (hsub hm)) hr ih

theorem chain (h : LeadsAround structs avoided a b) :
    Relation.ReflTransGen (Refers structs) a b := by
  induction h with
  | here => exact Relation.ReflTransGen.refl
  | step _ hr _ ih => exact Relation.ReflTransGen.head hr ih

end LeadsAround

/-! ## First chains -/

/-- The structs that a list of demands asks for, in its order. -/
def asked (structs : List StructDecl) (demands : List Demand) : List StructDecl :=
  demands.filterMap fun
    | .reference _ target => structs.find? fun s => s.name = target
    | _ => none

/-- Where a chain can go on: anywhere at its start, and then where its end refers to. -/
def candidates (structs : List StructDecl) : List StructDecl → List StructDecl
  | [] => structs
  | s :: _ => asked structs s.demands

/-- The first candidate behind a chain from which the target is reached around the chain. -/
def IsNext (structs below : List StructDecl) (s t : StructDecl) : Prop :=
  ∃ pre post, candidates structs below = pre ++ s :: post ∧
    LeadsAround structs below s t ∧ ∀ c ∈ pre, ¬ LeadsAround structs below c t

/-- A beginning of the first chain of references to the target, its latest struct first. -/
def FirstChain (structs : List StructDecl) (t : StructDecl) : List StructDecl → Prop
  | [] => True
  | s :: below => IsNext structs below s t ∧ FirstChain structs t below

/-- The struct stands on the first chain of references to the target. -/
def OnFirstChain (structs : List StructDecl) (b t : StructDecl) : Prop :=
  ∃ below, FirstChain structs t (t :: below) ∧ b ∈ t :: below

/-- What comes first is unique. -/
theorem IsNext.unique {structs below : List StructDecl} {s s' t : StructDecl}
    (h : IsNext structs below s t) (h' : IsNext structs below s' t) : s = s' := by
  obtain ⟨pre, post, heq, hs, hpre⟩ := h
  obtain ⟨pre', post', heq', hs', hpre'⟩ := h'
  rw [heq] at heq'
  rcases List.append_eq_append_iff.mp heq' with ⟨mid, rfl, hmid⟩ | ⟨mid, rfl, hmid⟩
  · rcases mid with _ | ⟨c, mid⟩
    · exact (List.cons.inj hmid).1
    · obtain ⟨rfl, -⟩ := List.cons.inj hmid
      exact absurd hs (hpre' _ (by simp))
  · rcases mid with _ | ⟨c, mid⟩
    · exact (List.cons.inj hmid).1.symm
    · obtain ⟨rfl, -⟩ := List.cons.inj hmid
      exact absurd hs' (hpre _ (by simp))

namespace FirstChain

variable {structs : List StructDecl} {s t : StructDecl}

theorem of_suffix {l l' : List StructDecl} (h : FirstChain structs t l) (hsuf : l' <:+ l) :
    FirstChain structs t l' := by
  induction l with
  | nil => rwa [List.suffix_nil.mp hsuf]
  | cons s below ih =>
    rcases List.suffix_cons_iff.mp hsuf with rfl | hsuf
    · exact h
    · exact ih h.2 hsuf

/-- Of two beginnings one continues the other. -/
theorem suffix_or_suffix {l l' : List StructDecl} (h : FirstChain structs t l)
    (h' : FirstChain structs t l') : l <:+ l' ∨ l' <:+ l := by
  induction l with
  | nil => exact Or.inl List.nil_suffix
  | cons s below ih =>
    rcases ih h.2 with ⟨ahead, rfl⟩ | hsuf
    · rcases List.eq_nil_or_concat ahead with rfl | ⟨ahead, s', rfl⟩
      · exact Or.inr (List.suffix_cons s below)
      · have hs' : FirstChain structs t (s' :: below) := h'.of_suffix ⟨ahead, by simp⟩
        obtain rfl : s = s' := h.1.unique hs'.1
        exact Or.inl ⟨ahead, by simp⟩
    · exact Or.inr (hsuf.trans (List.suffix_cons s below))

/-- **There is one first chain to a struct at most.** -/
theorem unique {below below' : List StructDecl} (h : FirstChain structs t (t :: below))
    (h' : FirstChain structs t (t :: below')) : below = below' := by
  -- a chain that went on behind its target would have to avoid it
  have key : ∀ {l l' : List StructDecl}, FirstChain structs t (t :: l') →
      t :: l <:+ t :: l' → l = l' := by
    intro l l' hl' hsuf
    rcases List.suffix_cons_iff.mp hsuf with heq | hsuf
    · exact (List.cons.inj heq).2
    · obtain ⟨⟨_, _, -, hleads, -⟩, -⟩ := hl'
      exact absurd (hsuf.subset List.mem_cons_self) hleads.start_not_mem
  rcases h.suffix_or_suffix h' with hsuf | hsuf
  · exact key h' hsuf
  · exact (key h hsuf).symm

/-- Every struct of a beginning leads on to the target. -/
theorem leads {l : List StructDecl} (h : FirstChain structs t l) (hs : s ∈ l) :
    Relation.ReflTransGen (Refers structs) s t := by
  induction l with
  | nil => simp at hs
  | cons u below ih =>
    obtain ⟨⟨_, _, -, hleads, -⟩, hbelow⟩ := h
    rcases List.mem_cons.mp hs with rfl | hs
    · exact hleads.chain
    · exact ih hbelow hs

end FirstChain

end StructOrder

end ComHeaders
