import ComHeaders.Metadata.Repository
import ComHeaders.Proofs.Metadata.Reading
import ComHeaders.Proofs.Tables
import Mathlib.Data.List.Perm.Basic

/-!
# What documents write

A document writes definitions as objects.  A definition has many documents: the members of an
object come in any order, and most of them may be left out where they hold what is read in their
place.  This file says which values write a definition, and proves that reading gives back what was
written.

## 1.  Objects

A `Slot` is a place for a member: its key, the values that may stand there, and when it may stay
empty.  An object is `ObjectOf` some slots if its members are those of the slots, as far as they are
not left out, in any order.  Each slot can then be looked up (`ObjectOf.found`).

## 2.  Members

What the readers of members find in a slot of each kind.

## 3.  The format

`Written` says for each kind of record which values write it.  Every record is written by some value
and can be read from all of them.

## 4.  Definitions and documents

`TypeDef.decode_written` and `ofDocument_written` are the results.
-/

namespace ComHeaders

/-! ## 1.  Objects -/

/-- A place for a member of an object. -/
structure Slot where
  key : String
  /-- The values that may stand in the place. -/
  holds : Value → Prop
  /-- Whether the place may stay empty. -/
  mayLack : Prop

namespace Slot

/-- A place that has to be filled. -/
def required (key : String) (holds : Value → Prop) : Slot := ⟨key, holds, False⟩

/-- A place for one value, which may stay empty if it is the default. -/
def optional (key : String) (v default : Value) : Slot := ⟨key, (· = v), v = default⟩

/-- A place for a list, which may stay empty if the list is. -/
def list {α : Type} (key : String) (writes : α → Value → Prop) (as : List α) : Slot :=
  ⟨key, fun v => ∃ vs, v = .list vs ∧ List.Forall₂ writes as vs, as = []⟩

end Slot

/-- Members that fill some slots one after the other, as far as they are not left out. -/
inductive Fills : List Slot → List (String × Value) → Prop
  | nil : Fills [] []
  | filled {slot : Slot} {slots : List Slot} {v : Value} {members : List (String × Value)}
      (hv : slot.holds v) (hrest : Fills slots members) :
      Fills (slot :: slots) ((slot.key, v) :: members)
  | lacking {slot : Slot} {slots : List Slot} {members : List (String × Value)}
      (hlack : slot.mayLack) (hrest : Fills slots members) : Fills (slot :: slots) members

/-- An object whose members fill some slots in any order. -/
def ObjectOf (slots : List Slot) (v : Value) : Prop :=
  ∃ members ordered, v = .object members ∧ members.Perm ordered ∧ Fills slots ordered

/-- An object in which a slot is filled, or lacks where it may. -/
def Slot.Found (slot : Slot) (v : Value) : Prop :=
  ∃ members, v = .object members ∧
    ((∃ w, members.lookup slot.key = some w ∧ slot.holds w) ∨
      members.lookup slot.key = none ∧ slot.mayLack)

namespace Fills

variable {slots : List Slot} {members : List (String × Value)}

theorem keys_sublist (h : Fills slots members) :
    (members.map (·.1)).Sublist (slots.map (·.key)) := by
  induction h with
  | nil => exact .slnil
  | filled _ _ ih => exact ih.cons_cons _
  | lacking _ _ ih => exact ih.cons _

/-- Each slot is filled or may lack. -/
theorem lookup (h : Fills slots members) (hkeys : (slots.map (·.key)).Nodup) :
    ∀ slot ∈ slots, (∃ w, members.lookup slot.key = some w ∧ slot.holds w) ∨
      members.lookup slot.key = none ∧ slot.mayLack := by
  induction h with
  | nil => exact fun slot hslot => absurd hslot List.not_mem_nil
  | @filled first slots v members hv hrest ih =>
    obtain ⟨hfirst, hkeys⟩ := List.nodup_cons.1 hkeys
    refine List.forall_mem_cons.2 ⟨.inl ⟨v, List.lookup_cons_self, hv⟩, fun slot hslot => ?_⟩
    have hne : slot.key ≠ first.key := fun heq => hfirst (List.mem_map.2 ⟨slot, hslot, heq⟩)
    rw [List.lookup_cons, beq_eq_false_iff_ne.2 hne]
    exact ih hkeys slot hslot
  | @lacking first slots members hlack hrest ih =>
    obtain ⟨hfirst, hkeys⟩ := List.nodup_cons.1 hkeys
    refine List.forall_mem_cons.2 ⟨.inr ⟨?_, hlack⟩, fun slot hslot => ih hkeys slot hslot⟩
    -- The keys of the members are those of other slots.
    rw [← Option.not_isSome_iff_eq_none, Table.isSome_lookup_iff]
    exact fun hmem => hfirst (hrest.keys_sublist.subset hmem)

end Fills

theorem lookup_eq_of_perm {members ordered : List (String × Value)}
    (hperm : members.Perm ordered) (hkeys : (ordered.map (·.1)).Nodup) (key : String) :
    members.lookup key = ordered.lookup key := by
  have hkeys' : (Table.keys members).Nodup := (hperm.map _).nodup_iff.2 hkeys
  refine Option.ext fun v => ?_
  rw [← Table.mem_iff_lookup hkeys', ← Table.mem_iff_lookup hkeys]
  exact hperm.mem_iff

namespace ObjectOf

variable {slots : List Slot} {v : Value}

/-- **Each slot of an object can be looked up**, whatever the order of its members is. -/
theorem found (h : ObjectOf slots v) (hkeys : (slots.map (·.key)).Nodup) :
    ∀ slot ∈ slots, slot.Found v := by
  obtain ⟨members, ordered, rfl, hperm, hfills⟩ := h
  have hordered : (ordered.map (·.1)).Nodup := hfills.keys_sublist.nodup hkeys
  intro slot hslot
  refine ⟨members, rfl, ?_⟩
  rw [lookup_eq_of_perm hperm hordered]
  exact hfills.lookup hkeys slot hslot

theorem exists_members (h : ObjectOf slots v) : ∃ members, v = .object members := by
  obtain ⟨members, -, hv, -, -⟩ := h
  exact ⟨members, hv⟩

/-- Slots that can be filled are filled by some object. -/
theorem exists_object (h : ∀ slot ∈ slots, ∃ w, slot.holds w) : ∃ v, ObjectOf slots v := by
  have hfills : ∃ members, Fills slots members := by
    induction slots with
    | nil => exact ⟨[], .nil⟩
    | cons slot slots ih =>
      obtain ⟨⟨w, hw⟩, hrest⟩ := List.forall_mem_cons.1 h
      obtain ⟨members, hmembers⟩ := ih hrest
      exact ⟨(slot.key, w) :: members, .filled hw hmembers⟩
  obtain ⟨members, hmembers⟩ := hfills
  exact ⟨.object members, members, members, rfl, .refl _, hmembers⟩

end ObjectOf

/-! ## 2.  Members -/

namespace Slot.Found

variable {v : Value} {key : String}

theorem memberOf {holds : Value → Prop} (h : (required key holds).Found v) :
    ∃ w, memberOf v key = .ok w ∧ holds w := by
  obtain ⟨members, rfl, ⟨w, hw, hholds⟩ | ⟨-, hlack⟩⟩ := h
  · exact ⟨w, memberOf_of_lookup hw, hholds⟩
  · exact hlack.elim

/-- A member that may be left out is what is found, or what is read in its place. -/
theorem optionalMember {slot : Slot} (h : slot.Found v) (default : Value) :
    (∃ w, ComHeaders.optionalMember v slot.key default = .ok w ∧ slot.holds w) ∨
      ComHeaders.optionalMember v slot.key default = .ok default ∧ slot.mayLack := by
  obtain ⟨members, rfl, ⟨w, hw, hholds⟩ | ⟨hnone, hlack⟩⟩ := h
  · refine .inl ⟨w, ?_, hholds⟩
    simp only [ComHeaders.optionalMember, Value.memberD, Value.member?, hw]
    rfl
  · refine .inr ⟨?_, hlack⟩
    simp only [ComHeaders.optionalMember, Value.memberD, Value.member?, hnone]
    rfl

theorem optional {w default : Value} (h : (Slot.optional key w default).Found v) :
    ComHeaders.optionalMember v key default = .ok w := by
  rcases h.optionalMember default with ⟨_, hread, rfl⟩ | ⟨hread, rfl⟩
  · exact hread
  · exact hread

theorem flag {b : Bool} (h : (Slot.optional key (.bool b) (.bool false)).Found v) :
    flagOf v key = .ok b := by
  rw [flagOf, h.optional]
  rfl

theorem items {α : Type} {writes : α → Value → Prop} {as : List α}
    (h : (Slot.list key writes as).Found v) :
    ∃ vs, itemsOf v key = .ok vs ∧ List.Forall₂ writes as vs := by
  rcases h.optionalMember (.list []) with ⟨_, hread, vs, rfl, hvs⟩ | ⟨hread, rfl⟩
  · refine ⟨vs, ?_, hvs⟩
    rw [itemsOf, show ComHeaders.optionalMember v key (.list []) = _ from hread]
    rfl
  · refine ⟨[], ?_, .nil⟩
    rw [itemsOf, show ComHeaders.optionalMember v key (.list []) = _ from hread]
    rfl

theorem name {n : Value} (h : (Slot.required "name" (· = n)).Found v) :
    ComHeaders.memberOf v "name" = .ok n := by
  obtain ⟨_, hread, rfl⟩ := h.memberOf
  exact hread

end Slot.Found

theorem mapM_written {α : Type} {writes : α → Value → Prop} {decode : Value → Except Failure α}
    {as : List α} {vs : List Value} (h : List.Forall₂ writes as vs)
    (hdecode : ∀ a v, writes a v → decode v = .ok a) : vs.mapM decode = .ok as :=
  Result.mapM_eq_ok.2 (h.flip.imp fun v a hwrites => hdecode a v hwrites)

theorem exists_written_list {α : Type} {writes : α → Value → Prop}
    (h : ∀ a, ∃ v, writes a v) (as : List α) : ∃ vs, List.Forall₂ writes as vs := by
  induction as with
  | nil => exact ⟨[], .nil⟩
  | cons a as ih =>
    obtain ⟨v, hv⟩ := h a
    obtain ⟨vs, hvs⟩ := ih
    exact ⟨v :: vs, .cons hv hvs⟩

/-! ## 3.  The format -/

namespace TypeRef

/-- The values that write a reference. -/
def Written : TypeRef → Value → Prop
  | void => ObjectOf [.required "kind" (· = .str "void")]
  | primitive n => ObjectOf [.required "kind" (· = .str "primitive"), .required "name" (· = n)]
  | pointer element => ObjectOf [.required "kind" (· = .str "pointer"),
      .required "element" element.Written]
  | array element length => ObjectOf [.required "kind" (· = .str "array"),
      .required "element" element.Written, .required "length" (· = .int length)]
  | named ns n declaring isValueType => ObjectOf [.required "kind" (· = .str "named"),
      .optional "namespace" ns (.str ""), .required "name" (· = n),
      .optional "value_type" (.bool isValueType) (.bool false),
      .optional "declaring_type" declaring .null]

theorem kindOf?_of_found {v : Value} {k : String}
    (h : (Slot.required "kind" (· = .str k)).Found v) : kindOf? v = some k := by
  obtain ⟨members, rfl, ⟨w, hw, rfl⟩ | ⟨-, hlack⟩⟩ := h
  · exact kindOf?_of_lookup hw
  · exact hlack.elim

/-- **A reference is read from all that writes it.** -/
theorem decode_written {r : TypeRef} {v : Value} (h : r.Written v) : decode v = .ok r := by
  induction r generalizing v with
  | void =>
    have hfound := h.found (by show ["kind"].Nodup; decide)
    simp only [List.forall_mem_cons] at hfound
    exact decode_void (kindOf?_of_found hfound.1)
  | primitive n =>
    have hfound := h.found (by show ["kind", "name"].Nodup; decide)
    simp only [List.forall_mem_cons] at hfound
    obtain ⟨hkind, hname, -⟩ := hfound
    obtain ⟨w, hread, rfl⟩ := hname.memberOf
    rw [decode_primitive (kindOf?_of_found hkind), hread]
    rfl
  | pointer element ih =>
    have hfound := h.found (by show ["kind", "element"].Nodup; decide)
    simp only [List.forall_mem_cons] at hfound
    obtain ⟨hkind, helement, -⟩ := hfound
    obtain ⟨w, hread, hw⟩ := helement.memberOf
    rw [decode_pointer (kindOf?_of_found hkind), hread]
    show (do return pointer (← decode w)) = _
    rw [ih hw]
    rfl
  | array element length ih =>
    have hfound := h.found (by show ["kind", "element", "length"].Nodup; decide)
    simp only [List.forall_mem_cons] at hfound
    obtain ⟨hkind, helement, hlength, -⟩ := hfound
    obtain ⟨w, hread, hw⟩ := helement.memberOf
    obtain ⟨_, hreadLength, rfl⟩ := hlength.memberOf
    rw [decode_array (kindOf?_of_found hkind), hread, hreadLength]
    show (do return array (← decode w) length) = _
    rw [ih hw]
    rfl
  | named ns n declaring isValueType =>
    have hfound := h.found
      (by show ["kind", "namespace", "name", "value_type", "declaring_type"].Nodup; decide)
    simp only [List.forall_mem_cons] at hfound
    obtain ⟨hkind, hns, hname, hflag, hdeclaring, -⟩ := hfound
    obtain ⟨_, hread, rfl⟩ := hname.memberOf
    rw [decode_named (kindOf?_of_found hkind), hns.optional, hread, hflag.flag,
      hdeclaring.optional]
    rfl

theorem exists_written (r : TypeRef) : ∃ v, r.Written v := by
  induction r with
  | void => exact ObjectOf.exists_object (by simp [Slot.required])
  | primitive n => exact ObjectOf.exists_object (by simp [Slot.required])
  | pointer element ih => exact ObjectOf.exists_object (by simpa [Slot.required] using ih)
  | array element length ih => exact ObjectOf.exists_object (by simpa [Slot.required] using ih)
  | named ns n declaring isValueType =>
    exact ObjectOf.exists_object (by simp [Slot.required, Slot.optional])

end TypeRef

/-- The values that write an attribute. -/
def Attribute.Written (a : Attribute) : Value → Prop :=
  ObjectOf [.required "type" (· = a.typeName), .optional "args" (.list a.arguments) (.list [])]

/-- The place for the attributes of a record. -/
def attributeSlot (attributes : List Attribute) : Slot :=
  .list "attributes" Attribute.Written attributes

theorem decodeAttributes_of_found {attributes : List Attribute} {v : Value}
    (h : (attributeSlot attributes).Found v) : decodeAttributes v = .ok attributes := by
  obtain ⟨vs, hread, hvs⟩ := h.items
  rw [decodeAttributes, hread]
  refine mapM_written hvs fun a w hw => ?_
  have hfound := hw.found (by show ["type", "args"].Nodup; decide)
  simp only [List.forall_mem_cons] at hfound
  obtain ⟨htype, hargs, -⟩ := hfound
  obtain ⟨_, hreadType, rfl⟩ := htype.memberOf
  rw [hreadType, itemsOf, hargs.optional]
  rfl

theorem exists_attributeSlot (attributes : List Attribute) :
    ∃ v, (attributeSlot attributes).holds v := by
  have hattribute (a : Attribute) : ∃ v, a.Written v :=
    ObjectOf.exists_object (by simp [Slot.required, Slot.optional])
  obtain ⟨vs, hvs⟩ := exists_written_list hattribute attributes
  exact ⟨.list vs, vs, rfl, hvs⟩

namespace Field

/-- The values that write a literal. -/
def LiteralWritten (l : Literal) : Value → Prop :=
  ObjectOf [.required "type" (· = l.elementType), .required "value" (· = l.value)]

/-- The place for the literal of a field.  If there is none, it may stay empty or hold null. -/
def literalSlot (literal : Option Literal) : Slot where
  key := "constant"
  holds v := match literal with
    | some l => LiteralWritten l v
    | none => v = .null
  mayLack := literal = none

theorem decodeLiteral_of_found {literal : Option Literal} {v : Value}
    (h : (literalSlot literal).Found v) : decodeLiteral v = .ok literal := by
  rw [decodeLiteral]
  rcases h.optionalMember .null with ⟨w, hread, hw⟩ | ⟨hread, rfl⟩
  · rw [show optionalMember v "constant" .null = _ from hread]
    rcases literal with _ | l
    · obtain rfl : w = .null := hw
      rfl
    · have hfound := ObjectOf.found hw (by show ["type", "value"].Nodup; decide)
      simp only [List.forall_mem_cons] at hfound
      obtain ⟨htype, hvalue, -⟩ := hfound
      obtain ⟨_, hreadType, rfl⟩ := htype.memberOf
      obtain ⟨_, hreadValue, rfl⟩ := hvalue.memberOf
      obtain ⟨members, ordered, rfl, -, -⟩ := hw
      show (do return some (⟨← memberOf (.object members) "type",
        ← memberOf (.object members) "value"⟩ : Literal)) = _
      rw [hreadType, hreadValue]
      rfl
  · rw [show optionalMember v "constant" .null = _ from hread]
    rfl

theorem exists_literalSlot (literal : Option Literal) : ∃ v, (literalSlot literal).holds v := by
  rcases literal with _ | l
  · exact ⟨.null, rfl⟩
  · exact ObjectOf.exists_object (by simp [Slot.required])

/-- The values that write a field. -/
def Written (f : Field Value) : Value → Prop :=
  ObjectOf [.required "name" (· = f.name), .required "type" f.type.Written,
    literalSlot f.literal, .optional "special_name" (.bool f.isSpecialName) (.bool false),
    attributeSlot f.attributes]

theorem decode_written {f : Field Value} {v : Value} (h : f.Written v) : decode v = .ok f := by
  have hfound := h.found
    (by show ["name", "type", "constant", "special_name", "attributes"].Nodup; decide)
  simp only [List.forall_mem_cons] at hfound
  obtain ⟨hname, htype, hliteral, hflag, hattributes, -⟩ := hfound
  obtain ⟨type, hread, hwritten⟩ := htype.memberOf
  rw [decode, decodeLiteral_of_found hliteral, hname.name, hread, hflag.flag,
    decodeAttributes_of_found hattributes]
  show (do return (⟨f.name, ← TypeRef.decode type, f.literal, f.isSpecialName, f.attributes⟩ :
    Field Value)) = _
  rw [TypeRef.decode_written hwritten]
  rfl

theorem exists_written (f : Field Value) : ∃ v, f.Written v := by
  refine ObjectOf.exists_object ?_
  simpa [Slot.required, Slot.optional] using
    ⟨f.type.exists_written, exists_literalSlot f.literal, exists_attributeSlot f.attributes⟩

end Field

namespace Parameter

/-- The values that write a parameter. -/
def Written (p : Parameter Value) : Value → Prop :=
  ObjectOf [.required "name" (· = p.name), .required "type" p.type.Written,
    attributeSlot p.attributes]

theorem decode_written {p : Parameter Value} {v : Value} (h : p.Written v) : decode v = .ok p := by
  have hfound := h.found (by show ["name", "type", "attributes"].Nodup; decide)
  simp only [List.forall_mem_cons] at hfound
  obtain ⟨hname, htype, hattributes, -⟩ := hfound
  obtain ⟨type, hread, hwritten⟩ := htype.memberOf
  rw [decode, hname.name, hread, decodeAttributes_of_found hattributes]
  show (do return (⟨p.name, ← TypeRef.decode type, p.attributes⟩ : Parameter Value)) = _
  rw [TypeRef.decode_written hwritten]
  rfl

theorem exists_written (p : Parameter Value) : ∃ v, p.Written v := by
  refine ObjectOf.exists_object ?_
  simpa [Slot.required] using ⟨p.type.exists_written, exists_attributeSlot p.attributes⟩

end Parameter

namespace Method

/-- The values that write a method. -/
def Written (m : Method Value) : Value → Prop :=
  ObjectOf [.required "name" (· = m.name), .required "return_type" m.returnType.Written,
    .list "parameters" Parameter.Written m.parameters, attributeSlot m.attributes]

theorem decode_written {m : Method Value} {v : Value} (h : m.Written v) : decode v = .ok m := by
  have hfound := h.found
    (by show ["name", "return_type", "parameters", "attributes"].Nodup; decide)
  simp only [List.forall_mem_cons] at hfound
  obtain ⟨hname, htype, hparameters, hattributes, -⟩ := hfound
  obtain ⟨type, hread, hwritten⟩ := htype.memberOf
  obtain ⟨parameters, hreadParameters, hparameters⟩ := hparameters.items
  rw [decode, hname.name, hread, hreadParameters, decodeAttributes_of_found hattributes]
  show (do return (⟨m.name, ← TypeRef.decode type, ← parameters.mapM Parameter.decode,
    m.attributes⟩ : Method Value)) = _
  rw [TypeRef.decode_written hwritten, mapM_written hparameters fun _ _ => Parameter.decode_written]
  rfl

theorem exists_written (m : Method Value) : ∃ v, m.Written v := by
  refine ObjectOf.exists_object ?_
  simpa [Slot.required, Slot.list] using ⟨m.returnType.exists_written,
    exists_written_list Parameter.exists_written m.parameters, exists_attributeSlot m.attributes⟩

end Method

/-! ## 4.  Definitions and documents -/

namespace TypeDef

/-- The values that write a definition. -/
def Written (d : TypeDef Value) : Value → Prop :=
  ObjectOf [.optional "namespace" d.namespaceName (.str ""), .required "name" (· = d.name),
    .optional "interface" (.bool d.isInterface) (.bool false),
    .optional "base_type" d.baseType .null, .optional "declaring_type" d.declaringType .null,
    .optional "explicit_layout" (.bool d.explicitLayout) (.bool false),
    .list "interfaces" TypeRef.Written d.interfaces, .list "fields" Field.Written d.fields,
    .list "methods" Method.Written d.methods, attributeSlot d.attributes]

theorem decodeMembers_written {d : TypeDef Value} {v : Value} (h : d.Written v) :
    decodeMembers v = .ok d := by
  have hfound := h.found (by
    show ["namespace", "name", "interface", "base_type", "declaring_type", "explicit_layout",
      "interfaces", "fields", "methods", "attributes"].Nodup
    decide)
  simp only [List.forall_mem_cons] at hfound
  obtain ⟨hns, hname, hinterface, hbase, hdeclaring, hlayout, hinterfaces, hfields, hmethods,
    hattributes, -⟩ := hfound
  obtain ⟨interfaces, hreadInterfaces, hinterfaces⟩ := hinterfaces.items
  obtain ⟨fields, hreadFields, hfields⟩ := hfields.items
  obtain ⟨methods, hreadMethods, hmethods⟩ := hmethods.items
  rw [decodeMembers, hns.optional, hname.name, hinterface.flag, hbase.optional,
    hdeclaring.optional, hlayout.flag, hreadInterfaces, hreadFields, hreadMethods,
    decodeAttributes_of_found hattributes]
  show (do return (⟨d.namespaceName, d.name, d.isInterface, d.baseType, d.declaringType,
    d.explicitLayout, ← interfaces.mapM TypeRef.decode, ← fields.mapM Field.decode,
    ← methods.mapM Method.decode, d.attributes⟩ : TypeDef Value)) = _
  rw [mapM_written hinterfaces fun _ _ => TypeRef.decode_written,
    mapM_written hfields fun _ _ => Field.decode_written,
    mapM_written hmethods fun _ _ => Method.decode_written]
  rfl

/-- **A definition is read from all that writes it.** -/
theorem decode_of_written {d : TypeDef Value} {v : Value} (h : d.Written v) : decode v = .ok d := by
  obtain ⟨l, hl⟩ := exists_label_iff.2 h.exists_members
  rw [decode, hl]
  show (decodeMembers v).mapError (blame l) = _
  rw [decodeMembers_written h]
  rfl

theorem exists_written (d : TypeDef Value) : ∃ v, d.Written v := by
  refine ObjectOf.exists_object ?_
  simpa [Slot.required, Slot.optional, Slot.list] using
    ⟨exists_written_list TypeRef.exists_written d.interfaces,
      exists_written_list Field.exists_written d.fields,
      exists_written_list Method.exists_written d.methods, exists_attributeSlot d.attributes⟩

end TypeDef

namespace Repository

/-- The values that write a document of some definitions. -/
def DocumentWritten (ds : List (TypeDef Value)) : Value → Prop :=
  ObjectOf [.required "types" fun v => ∃ vs, v = .list vs ∧ List.Forall₂ TypeDef.Written ds vs]

/-- A document is read as the definitions it writes. -/
theorem decodeDocument_written {ds : List (TypeDef Value)} {document : Value}
    (h : DocumentWritten ds document) : decodeDocument document = .ok ds := by
  have hfound := h.found (by show ["types"].Nodup; decide)
  obtain ⟨members, rfl, ⟨_, htypes, vs, rfl, hvs⟩ | ⟨-, hlack⟩⟩ :=
    hfound _ (List.mem_singleton_self _)
  · have hlist : members.lookup "types" = some (.list vs) := htypes
    simp only [decodeDocument, hlist]
    exact mapM_written hvs fun _ _ => TypeDef.decode_of_written
  · exact hlack.elim

theorem exists_documentWritten (ds : List (TypeDef Value)) :
    ∃ document, DocumentWritten ds document := by
  refine ObjectOf.exists_object ?_
  simpa [Slot.required] using exists_written_list TypeDef.exists_written ds

/-- **Reading gives back what was written.**  Every definition can be written, and is read from all
values that write it: in whatever order the members of each object are, and whichever of them are
left out because they hold their defaults.  For this its names may be any values.

Likewise every list of definitions that are named by texts can be written, and the repository of a
document that writes it holds these definitions in their order. -/
theorem written_read :
    (∀ d : TypeDef Value, (∃ v, d.Written v) ∧ ∀ v, d.Written v → TypeDef.decode v = .ok d) ∧
      ∀ ds : List TypeDef, (∃ document, DocumentWritten (ds.map (.mapNames .str)) document) ∧
        ∀ document, DocumentWritten (ds.map (.mapNames .str)) document →
          ∃ r, (ofDocument document).perform.1 = .ok r ∧ r.definitions = ds := by
  refine ⟨fun d => ⟨d.exists_written, fun v hv => TypeDef.decode_of_written hv⟩,
    fun ds => ⟨exists_documentWritten _, fun document hdocument => ⟨ofList ds, ?_, rfl⟩⟩⟩
  rw [ofDocument_perform_fst, decodeDocument_written hdocument]
  exact built_texts ds

/-- An interface with a method that takes a pointer. -/
def counter : TypeDef where
  namespaceName := .str ""
  name := "ICounter"
  isInterface := true
  baseType := .null
  declaringType := .null
  explicitLayout := false
  interfaces := []
  fields := []
  methods := [⟨"Count", .void, [⟨"total", .pointer (.primitive (.str "Int32")), []⟩], []⟩]
  attributes := [⟨.str "GuidAttribute", [.int 1, .null]⟩]

/-- It is written with as few members as possible, and the last ones first. -/
def counterEntry : Value := .object [
  ("attributes", .list [.object [
    ("args", .list [.int 1, .null]), ("type", .str "GuidAttribute")]]),
  ("methods", .list [.object [
    ("parameters", .list [.object [
      ("type", .object [
        ("element", .object [("name", .str "Int32"), ("kind", .str "primitive")]),
        ("kind", .str "pointer")]),
      ("name", .str "total")]]),
    ("return_type", .object [("kind", .str "void")]),
    ("name", .str "Count")]]),
  ("interface", .bool true),
  ("name", .str "ICounter")]

theorem objectOf_reverse {slots : List Slot} {members : List (String × Value)}
    (h : Fills slots members.reverse) : ObjectOf slots (.object members) :=
  ⟨members, members.reverse, rfl, (List.reverse_perm members).symm, h⟩

theorem counter_written : (counter.mapNames .str).Written counterEntry := by
  have hprimitive : (TypeRef.primitive (.str "Int32")).Written
      (.object [("name", .str "Int32"), ("kind", .str "primitive")]) :=
    objectOf_reverse (.filled rfl (.filled rfl .nil))
  have hpointer : (TypeRef.pointer (.primitive (.str "Int32"))).Written
      (.object [("element", .object [("name", .str "Int32"), ("kind", .str "primitive")]),
        ("kind", .str "pointer")]) :=
    objectOf_reverse (.filled rfl (.filled hprimitive .nil))
  have hvoid : TypeRef.void.Written (.object [("kind", .str "void")]) :=
    objectOf_reverse (.filled rfl .nil)
  refine objectOf_reverse (.lacking rfl (.filled rfl (.filled rfl (.lacking rfl (.lacking rfl
    (.lacking rfl (.lacking rfl (.lacking rfl (.filled ?methods (.filled ?attributes
      .nil))))))))))
  case methods =>
    refine ⟨_, rfl, .cons (objectOf_reverse (.filled rfl (.filled hvoid (.filled ?_
      (.lacking rfl .nil))))) .nil⟩
    exact ⟨_, rfl, .cons (objectOf_reverse (.filled rfl (.filled hpointer (.lacking rfl .nil))))
      .nil⟩
  case attributes =>
    exact ⟨_, rfl, .cons (objectOf_reverse (.filled rfl (.filled rfl .nil))) .nil⟩

/-- The interface is read from it, and so is a document with the interface twice. -/
theorem counter_read :
    TypeDef.decode counterEntry = .ok (counter.mapNames .str) ∧
      ∃ r, (ofDocument (.object [("types", .list [counterEntry, counterEntry])])).perform.1 =
        .ok r ∧ r.definitions = [counter, counter] := by
  have hdocument : DocumentWritten ([counter, counter].map (.mapNames .str))
      (.object [("types", .list [counterEntry, counterEntry])]) :=
    objectOf_reverse (.filled ⟨_, rfl, .cons counter_written (.cons counter_written .nil)⟩ .nil)
  exact ⟨(written_read.1 (counter.mapNames .str)).2 counterEntry counter_written,
    (written_read.2 [counter, counter]).2 _ hdocument⟩

end Repository

end ComHeaders
