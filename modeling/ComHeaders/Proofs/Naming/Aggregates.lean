import ComHeaders.Proofs.Naming.Rules

/-!
# What is returned through the hidden pointer

Two things are asked about the type of a result: how it is called, and whether it is an aggregate.
The answers rest on different evidence.  The name comes from the rules, which know wide texts and
tagged enums by their names alone; an aggregate is whatever the reference says is a value, unless
its name is that of a handle or its definition is that of an enum.  This file says where the two
disagree.

## 1.  Aggregates

`returnsAggregate_iff` is the second answer by itself.

## 2.  Disguises

A name tells a pointer by the star at its end and a tagged enum by the tag in front.  There are four
ways in which something that is returned like an aggregate can bear such a name (`Disguise`), and no
other (`returnsAggregate_disguised_iff`).  The first of them is met in practice: wide texts are
values, and their name is that of a pointer.
-/

namespace ComHeaders

namespace Naming

variable {n : Naming} {s : Session} {r : TypeRef} {ns declaring : Value} {name base : String}
  {isValue : Bool}

/-! ## 1.  Aggregates -/

/-- A named reference is that of an enum if it leads to one. -/
theorem isEnum_named (n : Naming) (ns declaring : Value) (name : String) (isValue : Bool) :
    ∃ enum, n.isEnum (.named ns (.str name) declaring isValue) = .ok enum ∧
      (enum = false ↔ ∀ d, LeadsTo n.repository (.named ns (.str name) declaring isValue) d →
        d.isEnum = false) := by
  obtain ⟨found, hresolve, hleads⟩ := resolve_named n.repository ns declaring name isValue
  refine ⟨found.any TypeDef.isEnum, by rw [isEnum, hresolve]; rfl, ?_⟩
  simp only [hleads]
  rcases found with _ | d
  · simp
  · simp

/-- A named reference has a base, since it is no primitive. -/
theorem exists_given_named (n : Naming)
    (hr : (TypeRef.named ns (.str name) declaring isValue).IsTextual) :
    ∃ base, Given n (.named ns (.str name) declaring isValue) base := by
  obtain ⟨base, hbase⟩ | ⟨_, hnone⟩ := given_or_isUnaliased n hr
  · exact ⟨base, hbase⟩
  · cases hnone.primitive

/-- A named reference has no layers, so the rules are all there is to its name. -/
theorem plainName_of_isNamed (hr : r.isNamed = true) : n.plainName r = n.baseName r := by
  cases r <;> first | rfl | cases hr

/-- A value that is referred to by its name is returned like an aggregate unless it is called like a
handle or is an enum. -/
theorem returnsAggregate_named (hs : n.Sound s)
    (hr : (TypeRef.named ns (.str name) declaring true).IsTextual)
    (h : Given n (.named ns (.str name) declaring true) base) :
    ((n.returnsAggregate (.named ns (.str name) declaring true)).perform s).1 = .ok true ↔
      base ∉ scalarHandles ∧
        ∀ d, LeadsTo n.repository (.named ns (.str name) declaring true) d → d.isEnum = false := by
  obtain ⟨enum, henum, hleads⟩ := isEnum_named n ns declaring name true
  have hhandle : (scalarHandles.any fun h => (Value.str base).sameKey (.str h)) = true ↔
      base ∈ scalarHandles := by
    simp [Value.sameKey]
  have hname : ((n.name (.named ns (.str name) declaring true)).perform s).1 = .ok (.str base) :=
    ((namesBy_name n _ s hs).2 hr).trans h.baseName_eq
  rcases hperform : (n.name (.named ns (.str name) declaring true)).perform s with ⟨found, t⟩
  rw [hperform] at hname
  subst hname
  rw [returnsAggregate, if_neg (by simp [TypeRef.isVoid, TypeRef.isPrimitive, TypeRef.isPointer]),
    if_neg (by simp [TypeRef.isValueType]), Pass.perform_bind, hperform, ← hleads]
  simp only [henum]
  by_cases hbase : base ∈ scalarHandles
  · rw [if_pos (hhandle.2 hbase)]
    simp [hbase]
  · rw [if_neg (mt hhandle.1 hbase), Pass.perform_bind, Pass.perform_ofExcept]
    cases enum <;> simp [hbase]

/-- **What is returned like an aggregate**: values that are referred to by a name, whose C name is
that of no handle and whose definition, if there is one, is that of no enum. -/
theorem returnsAggregate_iff (hs : n.Sound s) (hr : r.IsTextual) :
    ((n.returnsAggregate r).perform s).1 = .ok true ↔
      r.isNamed = true ∧ r.isValueType = true ∧
        (∀ d, LeadsTo n.repository r d → d.isEnum = false) ∧
          ∃ base, Given n r base ∧ base ∉ scalarHandles := by
  cases r with
  | void => simp [returnsAggregate, TypeRef.isVoid, TypeRef.isNamed]
  | primitive _ => simp [returnsAggregate, TypeRef.isPrimitive, TypeRef.isNamed]
  | pointer _ => simp [returnsAggregate, TypeRef.isPointer, TypeRef.isNamed]
  | array _ _ => simp [returnsAggregate, TypeRef.isValueType, TypeRef.isNamed, TypeRef.isVoid,
      TypeRef.isPrimitive, TypeRef.isPointer]
  | named ns name declaring isValue =>
    obtain ⟨-, ⟨name, rfl⟩, -⟩ := id hr
    cases isValue with
    | false => simp [returnsAggregate, TypeRef.isValueType, TypeRef.isVoid, TypeRef.isPrimitive,
        TypeRef.isPointer]
    | true =>
      obtain ⟨base, hbase⟩ := exists_given_named n hr
      rw [returnsAggregate_named hs hr hbase]
      constructor
      · rintro ⟨hhandle, hleads⟩
        exact ⟨rfl, rfl, hleads, base, hbase, hhandle⟩
      · rintro ⟨-, -, hleads, base', hbase', hhandle⟩
        have hsame := hbase'.baseName_eq.symm.trans hbase.baseName_eq
        simp only [Except.ok.injEq, Value.str.injEq] at hsame
        exact ⟨hsame ▸ hhandle, hleads⟩

/-! ## 2.  Disguises -/

/-- A name that ends like that of a pointer. -/
def IsPointerName (name : String) : Prop := name.toList.getLast? = some '*'

/-- A name that starts with the tag of an enum. -/
def IsTagName (name : String) : Prop := "enum ".toList <+: name.toList

instance : DecidablePred IsPointerName := fun _ => inferInstanceAs (Decidable (_ = _))

instance : DecidablePred IsTagName := fun _ => inferInstanceAs (Decidable (_ <+: _))

theorem isPointerName_append (name : String) : IsPointerName (name ++ "*") := by
  simp [IsPointerName]

theorem isTagName_append (name : String) : IsTagName ("enum " ++ name) := by
  simp [IsTagName]

/-- How something that is no pointer and no enum comes to be called like one: it is called like wide
texts, or like an enum that is named with its tag; it is said to be a value and leads to an
interface; or the metadata has given it such a name. -/
inductive Disguise (n : Naming) : TypeRef → String → Prop
  | wide {r : TypeRef} (hguid : r.fullName ≠ .ok (.str "System.Guid"))
      (hwide : r.name = .str "PWSTR") : Disguise n r "WCHAR*"
  | tagged {ns declaring : Value} {name : String} {isValue : Bool}
      (hr : IsOrdinary (.named ns (.str name) declaring isValue))
      (htag : name ∈ n.taggedEnums) :
      Disguise n (.named ns (.str name) declaring isValue) ("enum " ++ name)
  | interface {ns declaring : Value} {name : String} {isValue : Bool} {d : TypeDef}
      (hr : IsOrdinary (.named ns (.str name) declaring isValue))
      (htag : name ∉ n.taggedEnums)
      (hd : LeadsTo n.repository (.named ns (.str name) declaring isValue) d)
      (hinterface : d.isInterface = true) :
      Disguise n (.named ns (.str name) declaring isValue) (name ++ "*")
  | own {ns declaring : Value} {name : String} {isValue : Bool}
      (hr : IsOrdinary (.named ns (.str name) declaring isValue))
      (htag : name ∉ n.taggedEnums)
      (hd : ∀ d, LeadsTo n.repository (.named ns (.str name) declaring isValue) d →
        d.isInterface = false)
      (hname : IsPointerName name ∨ IsTagName name) :
      Disguise n (.named ns (.str name) declaring isValue) name

/-- A name that the rules give to a named reference is that of a pointer or of a tagged enum in
these four cases. -/
theorem disguise_iff (hnamed : r.isNamed = true) :
    Disguise n r base ↔ Given n r base ∧ (IsPointerName base ∨ IsTagName base) := by
  constructor
  · intro h
    cases h with
    | wide hguid hwide => exact ⟨.wide hguid hwide, by decide +kernel⟩
    | tagged hr htag => exact ⟨.tagged hr htag, .inr (isTagName_append _)⟩
    | interface hr htag hd hinterface =>
      exact ⟨.interface hr htag hd hinterface, .inl (isPointerName_append _)⟩
    | own hr htag hd hname => exact ⟨.own hr htag hd, hname⟩
  · rintro ⟨h, hname⟩
    cases h with
    | void => cases hnamed
    | guid _ => exact absurd hname (by decide +kernel)
    | wide hguid hwide => exact .wide hguid hwide
    | primitive _ _ => cases hnamed
    | tagged hr htag => exact .tagged hr htag
    | interface hr htag hd hinterface => exact .interface hr htag hd hinterface
    | own hr htag hd => exact .own hr htag hd hname

theorem notMem_scalarHandles (h : IsPointerName base ∨ IsTagName base) : base ∉ scalarHandles := by
  have hhandles : ∀ k ∈ scalarHandles, ¬ (IsPointerName k ∨ IsTagName k) := by decide +kernel
  exact fun hmem => hhandles base hmem h

/-- **Where name and convention disagree.**  Whatever was asked before: a textual reference is
returned like an aggregate and is then called like a pointer or like an enum with its tag if, and
only if, it refers to a value by its name, leads to no enum, and bears one of the four disguises. -/
theorem returnsAggregate_disguised_iff (n : Naming) (queries : List Query) (r : TypeRef)
    (hr : r.IsTextual) (c : String) :
    (((n.returnsAggregate r).perform (queries.foldl (Query.after n) {})).1 = .ok true ∧
        ((n.name r).perform ((queries ++ [Query.returnsAggregate r]).foldl (Query.after n) {})).1 =
          .ok (.str c) ∧
        (IsPointerName c ∨ IsTagName c)) ↔
      r.isNamed = true ∧ r.isValueType = true ∧
        (∀ d, LeadsTo n.repository r d → d.isEnum = false) ∧ Disguise n r c := by
  rw [returnsAggregate_iff (sound_history n queries) hr,
    (namesBy_name n r _ (sound_history n _)).2 hr]
  constructor
  · rintro ⟨⟨hnamed, hvalue, hleads, base, hbase, -⟩, hname, hdisguised⟩
    rw [plainName_of_isNamed hnamed, hbase.baseName_eq] at hname
    obtain rfl : base = c := by simpa using hname
    exact ⟨hnamed, hvalue, hleads, (disguise_iff hnamed).2 ⟨hbase, hdisguised⟩⟩
  · rintro ⟨hnamed, hvalue, hleads, hdisguise⟩
    obtain ⟨hbase, hdisguised⟩ := (disguise_iff hnamed).1 hdisguise
    exact ⟨⟨hnamed, hvalue, hleads, c, hbase, notMem_scalarHandles hdisguised⟩,
      (plainName_of_isNamed hnamed).trans hbase.baseName_eq, hdisguised⟩

theorem wideText_isTextual : wideText.IsTextual :=
  ⟨.inr ⟨_, rfl⟩, ⟨_, rfl⟩, .inl rfl⟩

theorem wideText_disguise : Disguise taggedWide wideText "WCHAR*" :=
  .wide (by simp [wideText, TypeRef.fullName, TypeRef.qualify, Value.truthy]) rfl

theorem wideText_undeclared :
    ∀ d, LeadsTo taggedWide.repository wideText d → d.isEnum = false := by
  rintro d ⟨k, -, hd⟩
  cases hd

/-- A wide text as a result is the case that is met in practice. -/
theorem wideText_disguised :
    wideText.IsTextual ∧
      ((taggedWide.returnsAggregate wideText).perform {}).1 = .ok true ∧
      ((taggedWide.name wideText).perform ((taggedWide.returnsAggregate wideText).perform {}).2).1 =
        .ok (.str "WCHAR*") := by
  obtain ⟨hresult, hname, -⟩ := (returnsAggregate_disguised_iff taggedWide [] wideText
    wideText_isTextual "WCHAR*").2 ⟨rfl, rfl, wideText_undeclared, wideText_disguise⟩
  exact ⟨wideText_isTextual, hresult, hname⟩

/-- **Not only aggregates are returned through the hidden pointer.** -/
theorem returnsAggregate_pointerName :
    ¬ ∀ (n : Naming) (r : TypeRef) (c : String), r.IsTextual →
      ((n.returnsAggregate r).perform {}).1 = .ok true →
        ((n.name r).perform ((n.returnsAggregate r).perform {}).2).1 = .ok (.str c) →
          ¬ IsPointerName c ∧ ¬ IsTagName c := by
  intro h
  obtain ⟨hgiven, hpointer⟩ := (disguise_iff rfl).1 wideText_disguise
  have hresult := (returnsAggregate_iff (sound_history taggedWide []) wideText_isTextual).2
    ⟨rfl, rfl, wideText_undeclared, _, hgiven, notMem_scalarHandles hpointer⟩
  have hname := ((namesBy_name taggedWide wideText _
    (sound_history taggedWide [Query.returnsAggregate wideText])).2 wideText_isTextual).trans
    hgiven.baseName_eq
  obtain ⟨hstar, -⟩ := h taggedWide wideText "WCHAR*" wideText_isTextual hresult hname
  exact hstar (by decide +kernel)

end Naming

end ComHeaders
