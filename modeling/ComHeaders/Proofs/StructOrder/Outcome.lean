import ComHeaders.Proofs.StructOrder.Walk
import ComHeaders.Proofs.Tables

/-!
# What comes of the walk

The walk over the structs of a header ends in one of two ways: every struct is in the order once,
or there is an array that C cannot declare, since its elements are no primitives.  Which of the
two it is depends on the structs alone and not on the way that the walk takes through them.

## 1.  Demands that stop the walk

The walk passes over every demand that is a reference and stops at any other one.  The others
belong to arrays, as long as the types of members have texts for their names
(`StructDecl.IsNamedByText`).  Metadata can put something else there that no type can be looked up
by, a list for instance; then the walk stops with a fault of its own.

## 2.  What is behind the walk

A struct that is finished had only references among its demands, and so had a struct that is open
among those that are settled (`Walk.Cleared`).  So a walk with nothing left has met no array that
cannot be declared, wherever in the structs it might have been.

## 3.  The outcome

`order_outcome` is the result.
-/

namespace ComHeaders

/-- A reference whose innermost element has a text for its name. -/
def TypeRef.IsNamedByText (r : TypeRef) : Prop :=
  ∃ n, r.innermost.name = .str n

namespace StructDecl

/-- The types of all members have texts for their names. -/
def IsNamedByText (s : StructDecl) : Prop :=
  ∀ r, FieldDecl.Mentions s.fields r → r.IsNamedByText

/-- A member of the struct, at whatever depth, is an array whose elements are no primitives. -/
def HoldsAggregateArray (s : StructDecl) : Prop :=
  ∃ name element length, (FieldDecl.array name element length).Within s.fields ∧
    element.isPrimitive = false

end StructDecl

/-! ## 1.  Demands that stop the walk -/

/-- A demand that the walk passes over or follows. -/
def Demand.IsReference (d : Demand) : Prop :=
  ∃ field target, d = .reference field target

namespace TypeRef

/-- A type with a text for its name has a text for its full name, whatever its layers. -/
theorem fullName_of_isNamedByText {r : TypeRef} (h : r.IsNamedByText) :
    ∃ n, r.fullName = .ok (.str n) := by
  induction r with
  | void => exact ⟨_, rfl⟩
  | primitive name => exact ⟨_, rfl⟩
  | pointer element ih =>
    obtain ⟨n, hn⟩ := ih h
    exact ⟨n ++ "*", by rw [fullName, hn]; rfl⟩
  | array element length ih =>
    obtain ⟨n, hn⟩ := ih h
    exact ⟨n ++ "[]", by rw [fullName, hn]; rfl⟩
  | named ns name declaring isValue =>
    obtain ⟨n, rfl : name = .str n⟩ := h
    exact ⟨_, congrArg Except.ok (qualify_str ns declaring n)⟩

/-- A member with a type that is named by a text asks for references only. -/
theorem isReference_of_mem_demand {field : String} {r : TypeRef} {d : Demand}
    (h : r.IsNamedByText) (hd : d ∈ r.demand field) : d.IsReference := by
  obtain ⟨n, hn⟩ := h
  unfold demand at hd
  split at hd
  · exact ⟨field, _, List.mem_singleton.mp hd⟩
  · rename_i ns name declaring isValue hstr hr
    rw [hr] at hn
    exact absurd hn (hstr n)
  · simp at hd

theorem arrayDemand_eq_nil_iff {field : String} {element : TypeRef} :
    element.arrayDemand field = [] ↔ element.isPrimitive = true := by
  unfold arrayDemand
  split
  · simp [*]
  · split <;> simp [*]

/-- An array whose elements are named by a text is forbidden or asks for nothing. -/
theorem forbidden_of_mem_arrayDemand {field : String} {element : TypeRef} {d : Demand}
    (h : element.IsNamedByText) (hd : d ∈ element.arrayDemand field) :
    ∃ name, d = .forbidden field name := by
  obtain ⟨n, hn⟩ := fullName_of_isNamedByText h
  unfold arrayDemand at hd
  split at hd
  · simp at hd
  · rw [hn] at hd
    exact ⟨n, List.mem_singleton.mp hd⟩

theorem forbidden_not_mem_demand {field field' name : String} {r : TypeRef} :
    Demand.forbidden field name ∉ r.demand field' := by
  unfold demand
  split
  · simp
  · split <;> simp
  · simp

end TypeRef

namespace StructDecl

variable {s : StructDecl}

/-- **Whatever is forbidden is an array whose elements are no primitives.** -/
theorem holdsAggregateArray_of_forbidden {field name : String}
    (h : Demand.forbidden field name ∈ s.demands) : s.HoldsAggregateArray := by
  rcases (FieldDecl.mem_demandsOf s.fields).mp h with
    ⟨_, _, _, -, hd⟩ | ⟨field', element, length, hw, hd⟩
  · exact absurd hd TypeRef.forbidden_not_mem_demand
  · refine ⟨field', element, length, hw, ?_⟩
    by_contra hprimitive
    rw [Bool.not_eq_false] at hprimitive
    rw [TypeRef.arrayDemand_eq_nil_iff.mpr hprimitive] at hd
    simp at hd

/-- Such an array stops the walk. -/
theorem exists_demand_of_holdsAggregateArray (h : s.HoldsAggregateArray) :
    ∃ d ∈ s.demands, ¬ d.IsReference := by
  obtain ⟨field, element, length, hw, hprimitive⟩ := h
  obtain ⟨d, hd⟩ : ∃ d, d ∈ element.arrayDemand field := by
    refine List.exists_mem_of_ne_nil _ fun hnil => ?_
    rw [TypeRef.arrayDemand_eq_nil_iff.mp hnil] at hprimitive
    cases hprimitive
  refine ⟨d, (FieldDecl.mem_demandsOf s.fields).mpr (.inr ⟨field, element, length, hw, hd⟩), ?_⟩
  rintro ⟨field', target, rfl⟩
  exact FieldDecl.reference_not_mem_arrayDemand hd

/-- In a struct whose types are named by texts nothing else stops the walk. -/
theorem forbidden_of_not_isReference (hs : s.IsNamedByText) {d : Demand} (hd : d ∈ s.demands)
    (h : ¬ d.IsReference) : ∃ field name, d = .forbidden field name := by
  rcases (FieldDecl.mem_demandsOf s.fields).mp hd with
    ⟨field, type, groups, hw, hd⟩ | ⟨field, element, length, hw, hd⟩
  · exact absurd (TypeRef.isReference_of_mem_demand (hs type (.inl ⟨field, groups, hw⟩)) hd) h
  · exact ⟨field, TypeRef.forbidden_of_mem_arrayDemand (hs element (.inr ⟨field, length, hw⟩)) hd⟩

end StructDecl

namespace StructOrder

/-! ## 2.  What is behind the walk -/

/-- Only references are behind the walk. -/
structure Walk.Cleared (w : Walk) : Prop where
  opened : ∀ o ∈ w.opened, ∃ settled, o.owner.demands = settled ++ o.pending ∧
    ∀ d ∈ settled, d.IsReference
  finished : ∀ s ∈ w.finished, ∀ d ∈ s.demands, d.IsReference

namespace Walk.Cleared

theorem start (structs : List StructDecl) : Walk.Cleared ⟨structs, [], [], []⟩ where
  opened := by simp
  finished := by simp

/-- The latest struct settles a reference. -/
theorem settle {owner : StructDecl} {field target : String} {pending : List Demand}
    {outer : List OpenStruct}
    (h : ∀ o ∈ (⟨owner, .reference field target :: pending⟩ :: outer : List OpenStruct),
      ∃ settled, o.owner.demands = settled ++ o.pending ∧ ∀ d ∈ settled, d.IsReference) :
    ∀ o ∈ (⟨owner, pending⟩ :: outer : List OpenStruct),
      ∃ settled, o.owner.demands = settled ++ o.pending ∧ ∀ d ∈ settled, d.IsReference := by
  intro o ho
  rcases List.mem_cons.mp ho with rfl | ho
  · obtain ⟨settled, hdemands, hsettled⟩ := h _ List.mem_cons_self
    refine ⟨settled ++ [.reference field target], by simpa using hdemands, fun d hd => ?_⟩
    rcases List.mem_append.mp hd with hd | hd
    · exact hsettled d hd
    · exact ⟨field, target, List.mem_singleton.mp hd⟩
  · exact h o (List.mem_cons_of_mem _ ho)

/-- **A turn leaves only references behind.** -/
theorem turn {w w' : Walk} (h : w.Cleared) (hturn : Turn w w') : w'.Cleared := by
  cases hturn with
  | enter =>
    refine ⟨fun o ho => ?_, h.finished⟩
    obtain rfl := List.mem_singleton.mp ho
    exact ⟨[], rfl, by simp⟩
  | finish =>
    refine ⟨fun o ho => h.opened o (List.mem_cons_of_mem _ ho), fun s hs => ?_⟩
    rcases List.mem_cons.mp hs with rfl | hs
    · obtain ⟨settled, hdemands, hsettled⟩ := h.opened _ List.mem_cons_self
      rw [List.append_nil] at hdemands
      exact hdemands ▸ hsettled
    · exact h.finished s hs
  | pass => exact ⟨settle h.opened, h.finished⟩
  | descend =>
    refine ⟨fun o ho => ?_, h.finished⟩
    rcases List.mem_cons.mp ho with rfl | ho
    · exact ⟨[], rfl, by simp⟩
    · exact settle h.opened o ho

theorem turns {w w' : Walk} (h : w.Cleared) (hturns : Relation.ReflTransGen Turn w w') :
    w'.Cleared := by
  induction hturns with
  | refl => exact h
  | tail _ hturn ih => exact ih.turn hturn

end Walk.Cleared

/-! ## 3.  The outcome -/

/-- The walk over the structs of a table before its first turn. -/
def Walk.ofTable (structs : Table StructDecl) : Walk :=
  ⟨structs.sorted.values, [], [], []⟩

variable {structs : Table StructDecl} {l : List StructDecl}

theorem all_perm_values {w : Walk}
    (h : Relation.ReflTransGen Turn (Walk.ofTable structs) w) : w.all.Perm structs.values := by
  have hstart : (Walk.ofTable structs).all.Perm structs.values := by
    simpa [Walk.ofTable, Walk.all, owners] using structs.sorted_values_perm
  exact (all_perm_of_turns h).trans hstart

/-- **The order lists the structs of the table, each once.** -/
theorem order_perm (h : (order structs).1 = .ok l) : l.Perm structs.values := by
  obtain ⟨w, hturns, hremaining, hopened, rfl⟩ := exists_turns_of_run h
  have hfinished : w.finished.Perm structs.values := by
    simpa [Walk.all, hremaining, hopened, owners] using all_perm_values hturns
  exact (List.reverse_perm _).trans hfinished

/-- **An order that is found has met every demand.** -/
theorem isReference_of_order (h : (order structs).1 = .ok l) {s : StructDecl}
    (hs : s ∈ structs.values) {d : Demand} (hd : d ∈ s.demands) : d.IsReference := by
  obtain ⟨w, hturns, -, -, rfl⟩ := exists_turns_of_run h
  have hfinished : s ∈ w.finished := List.mem_reverse.mp ((order_perm h).mem_iff.mpr hs)
  exact ((Walk.Cleared.start _).turns hturns).finished s hfinished d hd

theorem not_holdsAggregateArray_of_order (h : (order structs).1 = .ok l) {s : StructDecl}
    (hs : s ∈ structs.values) : ¬ s.HoldsAggregateArray := by
  intro harray
  obtain ⟨d, hd, hstops⟩ := StructDecl.exists_demand_of_holdsAggregateArray harray
  exact hstops (isReference_of_order h hs hd)

/-- What stops the walk is a demand of one of the structs. -/
theorem exists_demand_of_error {e : Failure} (h : (order structs).1 = .error e) :
    ∃ s ∈ structs.values,
      (∃ field name, e = .aggregateArray s.name field name ∧
        Demand.forbidden field name ∈ s.demands) ∨
      ∃ fault, e = .fault fault ∧ Demand.unusable fault ∈ s.demands := by
  obtain ⟨w, hturns, hends⟩ := exists_ends (Walk.ofTable structs)
  have hresult : Ends w (.error e) := h ▸ hends
  have hall := all_perm_values hturns
  have hcleared := (Walk.Cleared.start structs.sorted.values).turns hturns
  cases hresult with
  | @forbidden remaining finished owner field element =>
    refine ⟨owner, hall.subset (by simp [Walk.all, owners]), .inl ⟨field, element, rfl, ?_⟩⟩
    obtain ⟨settled, hdemands, -⟩ := hcleared.opened _ List.mem_cons_self
    simp [hdemands]
  | @unusable remaining finished owner fault =>
    refine ⟨owner, hall.subset (by simp [Walk.all, owners]), .inr ⟨fault, rfl, ?_⟩⟩
    obtain ⟨settled, hdemands, -⟩ := hcleared.opened _ List.mem_cons_self
    simp [hdemands]

/-- Whatever is left can be taken out by its name, and it is the struct of the table under that
name. -/
theorem take?_remaining (hkeys : structs.KeyedBy StructDecl.name) {w : Walk}
    (h : Relation.ReflTransGen Turn (Walk.ofTable structs) w) {name : String}
    (hname : name ∈ w.remaining.map StructDecl.name) :
    ∃ s rest, take? name w.remaining = some (s, rest) ∧ structs.lookup name = some s ∧
      w.remaining.Perm (s :: rest) := by
  rcases htake : take? name w.remaining with _ | ⟨s, rest⟩
  · obtain ⟨s, hs, rfl⟩ := List.mem_map.mp hname
    exact absurd rfl (take?_eq_none htake s hs)
  · obtain ⟨rfl, pre, post, hremaining, rfl⟩ := take?_eq_some htake
    have hs : s ∈ structs.values :=
      (all_perm_values h).subset (by simp [Walk.all, hremaining])
    obtain ⟨⟨key, s'⟩, hentry, rfl : s' = s⟩ := List.mem_map.mp hs
    obtain rfl : key = s'.name := hkeys.key_eq _ hentry
    refine ⟨s', _, rfl, (Table.mem_iff_lookup hkeys.nodup).mp hentry, ?_⟩
    rw [hremaining]
    exact List.perm_middle

/-- **The outcome of the walk.**  The types of all members being named by texts, the order of some
structs fails exactly if one of them has an array, at whatever depth, whose elements are no
primitives, and else every struct is in the order once.  The walk comes to its end after some
turns, and all along it finds under a name that is left the struct of that name. -/
theorem order_outcome {structs : Table StructDecl} (hkeys : structs.KeyedBy StructDecl.name)
    (hnames : ∀ s ∈ structs.values, s.IsNamedByText) :
    ((∃ owner field element, (order structs).1 = .error (.aggregateArray owner field element)) ↔
        ∃ s ∈ structs.values, s.HoldsAggregateArray) ∧
      ((¬ ∃ s ∈ structs.values, s.HoldsAggregateArray) →
        ∃ l, (order structs).1 = .ok l ∧ l.Perm structs.values ∧
          (l.map StructDecl.name).Nodup) ∧
      (∃ last, Relation.ReflTransGen Turn (Walk.ofTable structs) last ∧
        Ends last (order structs).1) ∧
      ∀ w, Relation.ReflTransGen Turn (Walk.ofTable structs) w →
        ∀ name ∈ w.remaining.map StructDecl.name, ∃ s rest,
          take? name w.remaining = some (s, rest) ∧ structs.lookup name = some s ∧
            w.remaining.Perm (s :: rest) := by
  -- An error can only be that of an array, since all types are named by texts.
  have herror : ∀ e, (order structs).1 = .error e → ∃ s ∈ structs.values, ∃ field element,
      e = .aggregateArray s.name field element ∧ s.HoldsAggregateArray := by
    intro e he
    obtain ⟨s, hs, ⟨field, element, rfl, hd⟩ | ⟨fault, rfl, hd⟩⟩ := exists_demand_of_error he
    · exact ⟨s, hs, field, element, rfl, StructDecl.holdsAggregateArray_of_forbidden hd⟩
    · have hstops : ¬ (Demand.unusable fault).IsReference := by
        rintro ⟨_, _, h⟩
        cases h
      obtain ⟨_, _, h⟩ := StructDecl.forbidden_of_not_isReference (hnames s hs) hd hstops
      cases h
  refine ⟨⟨?_, ?_⟩, ?_, exists_ends (Walk.ofTable structs), ?_⟩
  · rintro ⟨owner, field, element, he⟩
    obtain ⟨s, hs, -, -, -, harray⟩ := herror _ he
    exact ⟨s, hs, harray⟩
  · rintro ⟨s, hs, harray⟩
    rcases hresult : (order structs).1 with e | l
    · obtain ⟨s', -, field, element, rfl, -⟩ := herror e hresult
      exact ⟨s'.name, field, element, rfl⟩
    · exact absurd harray (not_holdsAggregateArray_of_order hresult hs)
  · intro hnone
    rcases hresult : (order structs).1 with e | l
    · obtain ⟨s, hs, -, -, -, harray⟩ := herror e hresult
      exact absurd ⟨s, hs, harray⟩ hnone
    · refine ⟨l, rfl, order_perm hresult, ?_⟩
      rw [((order_perm hresult).map StructDecl.name).nodup_iff, hkeys.map_values]
      exact hkeys.nodup
  · intro w hturns name hname
    exact take?_remaining hkeys hturns hname

/-- A pointer to a node. -/
def toNode : TypeRef := .pointer (.named (.str "N") (.str "NODE") .null true)

/-- A node of a linked list, which also points to a struct of another header, with one more
member. -/
def node (member : FieldDecl) : StructDecl :=
  ⟨⟨"NODE", "N.NODE", false⟩, [
    .plain "next" toNode [],
    .plain "owner" (.pointer (.named (.str "M") (.str "OWNER") .null true)) [],
    member]⟩

/-- A union of numbers and of an array of the given elements. -/
def choice (element : TypeRef) : FieldDecl :=
  .aggregate "Anonymous" (.named (.str "N") (.str "U") (.str "N.NODE") true) ⟨"U", "N.NODE/U", true⟩
    [.plain "number" (.primitive (.str "Int32")) [], .array "items" element 4]

/-- The node alone in its table. -/
def nodeTable (element : TypeRef) : Table StructDecl := [("NODE", node (choice element))]

theorem nodeTable_keyedBy (element : TypeRef) : (nodeTable element).KeyedBy StructDecl.name where
  nodup := by simp [nodeTable, Table.keys]
  key_eq := by simp [nodeTable, node, StructDecl.name]

theorem nodeTable_isNamedByText (element : TypeRef) (h : element.IsNamedByText) :
    ∀ s ∈ (nodeTable element).values, s.IsNamedByText := by
  intro s hs r hr
  obtain rfl : s = node (choice element) := by simpa [nodeTable, Table.values] using hs
  rcases hr with ⟨name, groups, hw⟩ | ⟨name, length, hw⟩
  · simp only [node, choice, FieldDecl.within_cons, FieldDecl.plain.injEq, reduceCtorEq,
      FieldDecl.not_within_nil, FieldDecl.aggregate.injEq] at hw
    rcases hw with ⟨-, rfl, -⟩ | h | ⟨-, rfl, -⟩ | hw
    · exact ⟨"NODE", rfl⟩
    · simp at h
    · exact ⟨"OWNER", rfl⟩
    · obtain ⟨-, rfl, -⟩ : name = "number" ∧ r = .primitive (.str "Int32") ∧ groups = [] := by
        simpa [FieldDecl.within_cons] using hw
      exact ⟨"Int32", rfl⟩
  · obtain ⟨-, rfl, -⟩ : name = "items" ∧ r = element ∧ length = 4 := by
      simpa [node, choice, FieldDecl.within_cons] using hw
    exact h

/-- A node with numbers for its items is in the order.  One with pointers for its items is
refused, although they lead back to the node itself. -/
theorem node_outcome :
    (∃ l, (order (nodeTable (.primitive (.str "Byte")))).1 = .ok l ∧ l.length = 1) ∧
      ∃ owner field element,
        (order (nodeTable toNode)).1 =
          .error (.aggregateArray owner field element) := by
  constructor
  · have hnames := nodeTable_isNamedByText (.primitive (.str "Byte")) ⟨"Byte", rfl⟩
    obtain ⟨-, hordered, -, -⟩ := order_outcome (nodeTable_keyedBy _) hnames
    have hnone : ¬ ∃ s ∈ (nodeTable (.primitive (.str "Byte"))).values,
        s.HoldsAggregateArray := by
      simp [nodeTable, Table.values, StructDecl.HoldsAggregateArray, node, choice,
        FieldDecl.within_cons, TypeRef.isPrimitive]
    obtain ⟨l, hl, hperm, -⟩ := hordered hnone
    exact ⟨l, hl, hperm.length_eq⟩
  · have hnames := nodeTable_isNamedByText toNode ⟨"NODE", rfl⟩
    refine (order_outcome (nodeTable_keyedBy _) hnames).1.mpr ⟨_, List.mem_singleton.mpr rfl, ?_⟩
    have hwithin : (FieldDecl.array "items" toNode 4).Within (node (choice toNode)).fields :=
      .inside (List.mem_cons_of_mem _ (List.mem_cons_of_mem _ List.mem_cons_self))
        (.among (List.mem_cons_of_mem _ List.mem_cons_self))
    exact ⟨"items", _, 4, hwithin, rfl⟩

end StructOrder

end ComHeaders
