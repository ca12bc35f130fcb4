import ComHeaders.Proofs.Failures
import ComHeaders.Proofs.Metadata.Reading

/-!
# What is wrong with a document

A document that cannot be read should be reported as malformed, by a failure of one kind.  Nearly
every fault inside a definition is turned into such a failure.  Two are not: the label under which a
fault is reported can itself not be made, and a number can be out of range.  And when all definitions
are read, they still have to be indexed.

## 1.  Entries

The only number that is converted while a definition is read is the length of an array, and only an
infinity is out of range.  `Overflows` finds such a length behind everything that is read before it.

## 2.  Documents

A definition escapes the report if its entry is no object, or if it overflows (`TypeDef.Escapes`).
A document does if the first of its definitions that cannot be read does, or if one of them has a
name that stands alone and is no key (`Document.Escapes`).
-/

namespace ComHeaders

open Result (FailsWith FailsBeyond FirstUnread)

/-! ## 1.  Entries -/

/-- The failures inside an entry that are reported under its label. -/
inductive Failure.IsOfEntry : Failure → Prop
  | fault {f : Fault} (h : TypeDef.countsAsMalformed f = true) : IsOfEntry (.fault f)
  | invalidReference (entry : Value) : IsOfEntry (.invalidReference entry)

open Failure (IsOfEntry)

theorem not_isOfEntry_outOfRange : ¬ IsOfEntry (.fault .outOfRange) := by
  rintro ⟨h⟩
  cases h

section

variable (entry : Value) (key : String)

theorem failsWith_memberOf : FailsWith IsOfEntry (memberOf entry key) := by
  cases entry with
  | object members =>
    rcases hlookup : members.lookup key with _ | v
    · rw [memberOf_of_lookup_none hlookup]
      exact .error (.fault rfl)
    · rw [memberOf_of_lookup hlookup]
      exact .ok v
  | _ => exact .error (.fault rfl)

theorem failsWith_optionalMember (default : Value) :
    FailsWith IsOfEntry (optionalMember entry key default) := by
  cases entry with
  | object members => exact .ok _
  | _ => exact .error (.fault rfl)

theorem failsWith_flagOf : FailsWith IsOfEntry (flagOf entry key) :=
  (failsWith_optionalMember entry key (.bool false)).bind fun _ => .ok _

theorem failsWith_itemsOf : FailsWith IsOfEntry (itemsOf entry key) := by
  refine (failsWith_optionalMember entry key (.list [])).bind fun v => ?_
  cases v with
  | list items => exact .ok _
  | str s => exact .ok _
  | object members => exact .ok _
  | _ => exact .error (.fault rfl)

theorem failsWith_decodeAttributes : FailsWith IsOfEntry (decodeAttributes entry) := by
  refine (failsWith_itemsOf entry "attributes").bind fun items => FailsWith.mapM (fun a => ?_) items
  exact (failsWith_memberOf a "type").bind fun _ => (failsWith_itemsOf a "args").bind fun _ => .ok _

theorem failsWith_decodeLiteral : FailsWith IsOfEntry (Field.decodeLiteral entry) := by
  refine (failsWith_optionalMember entry "constant" .null).bind fun constant => ?_
  split
  · exact .ok none
  · exact (failsWith_memberOf constant "type").bind fun _ =>
      (failsWith_memberOf constant "value").bind fun _ => .ok _

end

/-- Beyond what is reported, reading fails with a number out of range, and exactly under a
condition. -/
def OverflowsIff {α : Type} (x : Except Failure α) (overflows : Prop) : Prop :=
  FailsBeyond IsOfEntry (fun e => e = .fault .outOfRange ∧ overflows) x

namespace OverflowsIff

variable {α β : Type} {x : Except Failure α} {f : α → Except Failure β} {p q : Prop}

theorem congr (hx : OverflowsIff x p) (h : p ↔ q) : OverflowsIff x q :=
  FailsBeyond.congr hx fun _ => and_congr_right fun _ => h

theorem of_failsWith (hx : FailsWith IsOfEntry x) (hp : ¬ p) : OverflowsIff x p :=
  (FailsBeyond.of_failsWith hx).congr fun _ => iff_of_false id fun h => hp h.2

theorem bind {q : α → Prop} (hx : OverflowsIff x p)
    (hf : ∀ a, x = .ok a → OverflowsIff (f a) (q a)) :
    OverflowsIff (x >>= f) (p ∨ ∃ a, x = .ok a ∧ q a) := by
  refine (FailsBeyond.bind hx hf).congr fun e => ?_
  constructor
  · rintro (⟨he, hp⟩ | ⟨a, ha, he, hq⟩)
    · exact ⟨he, .inl hp⟩
    · exact ⟨he, .inr ⟨a, ha, hq⟩⟩
  · rintro ⟨he, hp | ⟨a, ha, hq⟩⟩
    · exact .inl ⟨he, hp⟩
    · exact .inr ⟨a, ha, he, hq⟩

theorem behind {q : α → Prop} (hx : FailsWith IsOfEntry x)
    (hf : ∀ a, x = .ok a → OverflowsIff (f a) (q a)) :
    OverflowsIff (x >>= f) (∃ a, x = .ok a ∧ q a) :=
  ((of_failsWith hx not_false).bind hf).congr (or_iff_right id)

theorem before (hx : OverflowsIff x p) (hf : ∀ a, FailsWith IsOfEntry (f a)) :
    OverflowsIff (x >>= f) p :=
  FailsBeyond.before hx hf

theorem mapM {q : α → Prop} (hf : ∀ a, OverflowsIff (f a) (q a)) (l : List α) :
    OverflowsIff (l.mapM f) (FirstUnread f q l) :=
  (FailsBeyond.mapM hf l).congr fun _ => Result.firstUnread_and

end OverflowsIff

/-- The lengths that are out of range are the infinities. -/
theorem overflowsIff_toInteger (v : Value) :
    OverflowsIff (faulty v.toInteger) (∃ x : Double, v = .float x ∧ x.isInfinite = true) := by
  cases v with
  | float x =>
    rcases hnan : x.isNaN with _ | _
    · rcases hinf : x.isInfinite with _ | _
      · refine .of_failsWith ?_ ?_
        · simp only [Value.toInteger, hnan, hinf]
          exact .ok _
        · rintro ⟨_, ⟨⟩, h⟩
          rw [hinf] at h
          cases h
      · intro e he
        simp only [Value.toInteger, hnan, hinf]
        constructor
        · rintro ⟨⟩
          exact ⟨rfl, x, rfl, hinf⟩
        · rintro ⟨rfl, -⟩
          rfl
    · refine .of_failsWith ?_ ?_
      · simp only [Value.toInteger, hnan]
        exact .error (.fault rfl)
      · rintro ⟨_, ⟨⟩, h⟩
        simp only [Double.isNaN, Double.isInfinite, Bool.and_eq_true, bne_iff_ne, beq_iff_eq]
          at hnan h
        exact hnan.2 h.2
  | str s =>
    refine .of_failsWith ?_ (by rintro ⟨_, ⟨⟩, -⟩)
    rw [Value.toInteger]
    split
    · exact .ok _
    · exact .error (.fault rfl)
  | int i => exact .of_failsWith (.ok i) (by rintro ⟨_, ⟨⟩, -⟩)
  | bool b => exact .of_failsWith (.ok b.toInt) (by rintro ⟨_, ⟨⟩, -⟩)
  | null => exact .of_failsWith (.error (.fault rfl)) (by rintro ⟨_, ⟨⟩, -⟩)
  | list items => exact .of_failsWith (.error (.fault rfl)) (by rintro ⟨_, ⟨⟩, -⟩)
  | object members => exact .of_failsWith (.error (.fault rfl)) (by rintro ⟨_, ⟨⟩, -⟩)

namespace TypeRef

/-- References with an array of infinite length, whose element can be read. -/
inductive Overflows : Value → Prop
  | length {entry element : Value} {r : TypeRef} {x : Double}
    (hkind : kindOf? entry = some "array") (helement : memberOf entry "element" = .ok element)
    (hread : decode element = .ok r) (hlength : memberOf entry "length" = .ok (.float x))
    (hx : x.isInfinite = true) : Overflows entry
  | element {entry element : Value} {kind : String} (hlayer : kind = "pointer" ∨ kind = "array")
    (hkind : kindOf? entry = some kind) (helement : memberOf entry "element" = .ok element)
    (h : Overflows element) : Overflows entry

theorem Overflows.kind {entry : Value} (h : Overflows entry) :
    kindOf? entry = some "pointer" ∨ kindOf? entry = some "array" := by
  cases h with
  | length hkind => exact .inr hkind
  | element hlayer hkind =>
    rcases hlayer with rfl | rfl
    · exact .inl hkind
    · exact .inr hkind

/-- The element of a layer is smaller than the layer. -/
theorem sizeOf_element_lt {entry element : Value} (h : memberOf entry "element" = .ok element) :
    sizeOf element < sizeOf entry := by
  cases entry with
  | object members =>
    rcases hlookup : members.lookup "element" with _ | v
    · rw [memberOf_of_lookup_none hlookup] at h
      cases h
    · rw [memberOf_of_lookup hlookup] at h
      cases h
      have := sizeOf_lookup_lt hlookup
      simpa using this
  | _ => cases h

theorem not_overflows {entry : Value}
    (h : kindOf? entry ≠ some "pointer" ∧ kindOf? entry ≠ some "array") : ¬ Overflows entry :=
  fun hover => hover.kind.elim h.1 h.2

theorem overflows_of_pointer {entry : Value} (hkind : kindOf? entry = some "pointer") :
    (∃ element, memberOf entry "element" = .ok element ∧ Overflows element) ↔ Overflows entry := by
  constructor
  · rintro ⟨element, helement, h⟩
    exact .element (.inl rfl) hkind helement h
  · intro h
    cases h with
    | length harray => exact absurd (hkind.symm.trans harray) (by simp)
    | element _ _ helement h => exact ⟨_, helement, h⟩

theorem overflows_of_array {entry : Value} (hkind : kindOf? entry = some "array") :
    (∃ element, memberOf entry "element" = .ok element ∧ (Overflows element ∨
      ∃ r, decode element = .ok r ∧ ∃ length, memberOf entry "length" = .ok length ∧
        ∃ x : Double, length = .float x ∧ x.isInfinite = true)) ↔ Overflows entry := by
  constructor
  · rintro ⟨element, helement, h | ⟨r, hread, _, hlength, x, rfl, hx⟩⟩
    · exact .element (.inr rfl) hkind helement h
    · exact .length hkind helement hread hlength hx
  · intro h
    cases h with
    | length _ helement hread hlength hx =>
      exact ⟨_, helement, .inr ⟨_, hread, _, hlength, _, rfl, hx⟩⟩
    | element _ _ helement h => exact ⟨_, helement, .inl h⟩

/-- **What a reference can fail with.**  This goes down through the elements. -/
theorem overflowsIff_decode (entry : Value) : OverflowsIff (decode entry) (Overflows entry) := by
  have ih (element : Value) (h : memberOf entry "element" = .ok element) :
      OverflowsIff (decode element) (Overflows element) := by
    have := sizeOf_element_lt h
    exact overflowsIff_decode element
  by_cases hvoid : kindOf? entry = some "void"
  · rw [decode_void hvoid]
    exact .of_failsWith (.ok _) (not_overflows (by simp [hvoid]))
  by_cases hprimitive : kindOf? entry = some "primitive"
  · rw [decode_primitive hprimitive]
    exact .of_failsWith ((failsWith_memberOf entry "name").bind fun _ => .ok _)
      (not_overflows (by simp [hprimitive]))
  by_cases hpointer : kindOf? entry = some "pointer"
  · rw [decode_pointer hpointer]
    refine .congr ?_ (overflows_of_pointer hpointer)
    exact .behind (failsWith_memberOf entry "element") fun element helement =>
      (ih element helement).before fun _ => .ok _
  by_cases harray : kindOf? entry = some "array"
  · rw [decode_array harray]
    refine .congr ?_ (overflows_of_array harray)
    refine .behind (failsWith_memberOf entry "element") fun element helement => ?_
    refine (ih element helement).bind fun r _ => ?_
    refine .behind (failsWith_memberOf entry "length") fun length _ => ?_
    exact (overflowsIff_toInteger length).before fun _ => .ok _
  by_cases hnamed : kindOf? entry = some "named"
  · rw [decode_named hnamed]
    refine .of_failsWith ?_ (not_overflows (by simp [hnamed]))
    exact (failsWith_optionalMember entry _ _).bind fun _ =>
      (failsWith_memberOf entry _).bind fun _ => (failsWith_flagOf entry _).bind fun _ =>
        (failsWith_optionalMember entry _ _).bind fun _ => .ok _
  · refine .of_failsWith ?_ (not_overflows ⟨hpointer, harray⟩)
    rw [decode_of_not_mem]
    · exact .error (.invalidReference entry)
    · intro k hk hmem
      simp only [List.mem_cons, List.not_mem_nil, or_false] at hmem
      rcases hmem with rfl | rfl | rfl | rfl | rfl
      · exact hvoid hk
      · exact hprimitive hk
      · exact hpointer hk
      · exact harray hk
      · exact hnamed hk
termination_by sizeOf entry

end TypeRef

/-- Fields with a type that overflows. -/
def Field.Overflows (entry : Value) : Prop :=
  ∃ literal, Field.decodeLiteral entry = .ok literal ∧ ∃ name, memberOf entry "name" = .ok name ∧
    ∃ type, memberOf entry "type" = .ok type ∧ TypeRef.Overflows type

theorem Field.overflowsIff_decode (entry : Value) :
    OverflowsIff (Field.decode entry) (Field.Overflows entry) := by
  refine .behind (failsWith_decodeLiteral entry) fun _ _ => ?_
  refine .behind (failsWith_memberOf entry "name") fun _ _ => ?_
  refine .behind (failsWith_memberOf entry "type") fun type _ => ?_
  refine (TypeRef.overflowsIff_decode type).before fun _ => ?_
  exact (failsWith_flagOf entry _).bind fun _ =>
    (failsWith_decodeAttributes entry).bind fun _ => .ok _

/-- Parameters with a type that overflows. -/
def Parameter.Overflows (entry : Value) : Prop :=
  ∃ name, memberOf entry "name" = .ok name ∧ ∃ type, memberOf entry "type" = .ok type ∧
    TypeRef.Overflows type

theorem Parameter.overflowsIff_decode (entry : Value) :
    OverflowsIff (Parameter.decode entry) (Parameter.Overflows entry) := by
  refine .behind (failsWith_memberOf entry "name") fun _ _ => ?_
  refine .behind (failsWith_memberOf entry "type") fun type _ => ?_
  refine (TypeRef.overflowsIff_decode type).before fun _ => ?_
  exact (failsWith_decodeAttributes entry).bind fun _ => .ok _

/-- Methods with a result that overflows, or with a parameter that does. -/
def Method.Overflows (entry : Value) : Prop :=
  ∃ name, memberOf entry "name" = .ok name ∧ ∃ type, memberOf entry "return_type" = .ok type ∧
    (TypeRef.Overflows type ∨ ∃ r, TypeRef.decode type = .ok r ∧
      ∃ parameters, itemsOf entry "parameters" = .ok parameters ∧
        FirstUnread Parameter.decode Parameter.Overflows parameters)

theorem Method.overflowsIff_decode (entry : Value) :
    OverflowsIff (Method.decode entry) (Method.Overflows entry) := by
  refine .behind (failsWith_memberOf entry "name") fun _ _ => ?_
  refine .behind (failsWith_memberOf entry "return_type") fun type _ => ?_
  refine (TypeRef.overflowsIff_decode type).bind fun _ _ => ?_
  refine .behind (failsWith_itemsOf entry "parameters") fun parameters _ => ?_
  refine (OverflowsIff.mapM Parameter.overflowsIff_decode parameters).before fun _ => ?_
  exact (failsWith_decodeAttributes entry).bind fun _ => .ok _

namespace TypeDef

/-- Definitions with an interface, a field or a method that overflows, behind everything that is
read before it. -/
inductive Overflows (entry : Value) : Prop
  | interface {name : Value} {interfaces : List Value}
    (hname : memberOf entry "name" = .ok name)
    (hinterfaces : itemsOf entry "interfaces" = .ok interfaces)
    (h : FirstUnread TypeRef.decode TypeRef.Overflows interfaces) : Overflows entry
  | field {name : Value} {interfaces fields : List Value} {references : List TypeRef}
    (hname : memberOf entry "name" = .ok name)
    (hinterfaces : itemsOf entry "interfaces" = .ok interfaces)
    (hreferences : interfaces.mapM TypeRef.decode = .ok references)
    (hfields : itemsOf entry "fields" = .ok fields)
    (h : FirstUnread Field.decode Field.Overflows fields) : Overflows entry
  | method {name : Value} {interfaces fields methods : List Value} {references : List TypeRef}
    {decoded : List (Field Value)}
    (hname : memberOf entry "name" = .ok name)
    (hinterfaces : itemsOf entry "interfaces" = .ok interfaces)
    (hreferences : interfaces.mapM TypeRef.decode = .ok references)
    (hfields : itemsOf entry "fields" = .ok fields)
    (hdecoded : fields.mapM Field.decode = .ok decoded)
    (hmethods : itemsOf entry "methods" = .ok methods)
    (h : FirstUnread Method.decode Method.Overflows methods) : Overflows entry

theorem overflows_iff {entry : Value} : Overflows entry ↔
    ∃ name, memberOf entry "name" = .ok name ∧
      ∃ interfaces, itemsOf entry "interfaces" = .ok interfaces ∧
      (FirstUnread TypeRef.decode TypeRef.Overflows interfaces ∨
        ∃ references, interfaces.mapM TypeRef.decode = .ok references ∧
          ∃ fields, itemsOf entry "fields" = .ok fields ∧
            (FirstUnread Field.decode Field.Overflows fields ∨
              ∃ decoded, fields.mapM Field.decode = .ok decoded ∧
                ∃ methods, itemsOf entry "methods" = .ok methods ∧
                  FirstUnread Method.decode Method.Overflows methods)) := by
  constructor
  · intro h
    cases h with
    | interface hname hinterfaces h => exact ⟨_, hname, _, hinterfaces, .inl h⟩
    | field hname hinterfaces hreferences hfields h =>
      exact ⟨_, hname, _, hinterfaces, .inr ⟨_, hreferences, _, hfields, .inl h⟩⟩
    | method hname hinterfaces hreferences hfields hdecoded hmethods h =>
      exact ⟨_, hname, _, hinterfaces, .inr ⟨_, hreferences, _, hfields,
        .inr ⟨_, hdecoded, _, hmethods, h⟩⟩⟩
  · rintro ⟨_, hname, _, hinterfaces, h | ⟨_, hreferences, _, hfields, h | ⟨_, hdecoded, _,
      hmethods, h⟩⟩⟩
    · exact .interface hname hinterfaces h
    · exact .field hname hinterfaces hreferences hfields h
    · exact .method hname hinterfaces hreferences hfields hdecoded hmethods h

/-- **What a definition can fail with.**  The members that may be left out are there, if only by
their defaults. -/
theorem overflowsIff_decodeMembers (members : List (String × Value)) :
    OverflowsIff (decodeMembers (.object members)) (Overflows (.object members)) := by
  refine .congr ?_ overflows_iff.symm
  show OverflowsIff (memberOf (.object members) "name" >>= fun name =>
    itemsOf (.object members) "interfaces" >>= fun interfaces => _) _
  refine .behind (failsWith_memberOf _ "name") fun _ _ => ?_
  refine .behind (failsWith_itemsOf _ "interfaces") fun interfaces _ => ?_
  refine (OverflowsIff.mapM TypeRef.overflowsIff_decode interfaces).bind fun _ _ => ?_
  refine .behind (failsWith_itemsOf _ "fields") fun fields _ => ?_
  refine (OverflowsIff.mapM Field.overflowsIff_decode fields).bind fun _ _ => ?_
  refine .behind (failsWith_itemsOf _ "methods") fun methods _ => ?_
  refine (OverflowsIff.mapM Method.overflowsIff_decode methods).before fun _ => ?_
  exact (failsWith_decodeAttributes _).bind fun _ => .ok _

/-! ## 2.  Documents -/

/-- Definitions whose fault is not reported as a malformed definition, with the failure that comes
instead. -/
inductive Escapes : Value → Failure → Prop
  /-- Only objects have a label. -/
  | notAnObject {entry : Value} (h : ∀ members, entry ≠ .object members) :
    Escapes entry (.fault .notAnObject)
  | outOfRange {entry : Value} (h : Overflows entry) : Escapes entry (.fault .outOfRange)

end TypeDef

/-- The failures by which something is reported as malformed. -/
def Failure.IsFormatError (e : Failure) : Prop := e.kind = "MetadataFormatError"

open Failure (IsFormatError)

namespace TypeDef

theorem isFormatError_blame (label : String) {e : Failure} (he : IsOfEntry e) :
    IsFormatError (blame label e) := by
  rcases he with ⟨h⟩ | entry
  · rw [blame, if_pos h]
    rfl
  · rfl

theorem label_of_not_object {entry : Value} (h : ∀ members, entry ≠ .object members) :
    label entry = .error (.fault .notAnObject) := by
  cases entry with
  | object members => exact absurd rfl (h members)
  | _ => rfl

theorem Overflows.exists_object {entry : Value} (h : Overflows entry) :
    ∃ members, entry = .object members := by
  obtain ⟨name, hname, -⟩ := overflows_iff.1 h
  cases entry with
  | object members => exact ⟨members, rfl⟩
  | _ => cases hname

/-- **What is reported of a definition, and what escapes.** -/
theorem failsBeyond_decode (entry : Value) :
    FailsBeyond IsFormatError (Escapes entry) (TypeDef.decode entry) := by
  intro e he
  by_cases hobject : ∃ members, entry = .object members
  · obtain ⟨members, rfl⟩ := hobject
    obtain ⟨l, hl⟩ := exists_label_iff.2 ⟨members, rfl⟩
    have hdecode : TypeDef.decode (.object members) =
        (decodeMembers (.object members)).mapError (blame l) := by
      rw [TypeDef.decode, hl]
      rfl
    have hover := overflowsIff_decodeMembers members (.fault .outOfRange) not_isOfEntry_outOfRange
    rw [hdecode]
    constructor
    · rcases hmembers : decodeMembers (.object members) with e' | d
      · rintro ⟨⟩
        have he' : ¬ IsOfEntry e' := fun h => he (isFormatError_blame l h)
        obtain ⟨rfl, hoverflows⟩ := (overflowsIff_decodeMembers members e' he').1 hmembers
        exact .outOfRange hoverflows
      · nofun
    · rintro (⟨h⟩ | ⟨h⟩)
      · exact absurd rfl (h members)
      · rw [hover.2 ⟨rfl, h⟩]
        rfl
  · have hno : ∀ members, entry ≠ .object members := fun members h => hobject ⟨members, h⟩
    rw [TypeDef.decode, label_of_not_object hno]
    constructor
    · rintro ⟨⟩
      exact .notAnObject hno
    · rintro (⟨-⟩ | ⟨h⟩)
      · rfl
      · exact absurd h.exists_object hobject

end TypeDef

/-- The name of a definition stands alone, and it is a list or an object. -/
def TypeDef.LacksKey (d : TypeDef Value) : Prop :=
  d.declaringType.truthy = false ∧ d.namespaceName.truthy = false ∧ d.name.isKey = false

theorem TypeDef.lacksKey_iff {d : TypeDef Value} : d.LacksKey ↔ d.key.isKey = false := by
  rw [LacksKey, key, TypeRef.qualify]
  split
  · simp_all [Value.isKey]
  · split <;> simp_all [Value.isKey]

/-- Documents of which no repository is made and which are not reported, with the failure that comes
instead. -/
inductive Document.Escapes : Value → Failure → Prop
  /-- The first definition that cannot be read escapes the report. -/
  | definition {members : List (String × Value)} {entries : List Value} {e : Failure}
    (hentries : members.lookup "types" = some (.list entries))
    (h : FirstUnread TypeDef.decode (TypeDef.Escapes · e) entries) : Escapes (.object members) e
  /-- All definitions can be read, but one of them cannot be indexed. -/
  | index {members : List (String × Value)} {entries : List Value} {ds : List (TypeDef Value)}
    {d : TypeDef Value} (hentries : members.lookup "types" = some (.list entries))
    (hds : entries.mapM TypeDef.decode = .ok ds) (hd : d ∈ ds) (h : d.LacksKey) :
    Escapes (.object members) (.fault .wrongKind)

/-- The entries of a document are those of its list of types. -/
def Document.Lists (document : Value) (entries : List Value) : Prop :=
  ∃ members, document = .object members ∧ members.lookup "types" = some (.list entries)

/-- A document lists its definitions, or it is no document. -/
theorem decodeDocument_cases (document : Value) :
    (∃ entries, Document.Lists document entries ∧
      decodeDocument document = entries.mapM TypeDef.decode) ∨
    (∀ entries, ¬ Document.Lists document entries) ∧
      decodeDocument document = .error .notADocument := by
  rw [decodeDocument.eq_def]
  split
  · rename_i members
    split
    · rename_i entries hentries
      exact .inl ⟨entries, ⟨members, rfl, hentries⟩, rfl⟩
    · rename_i hno
      refine .inr ⟨?_, rfl⟩
      rintro entries ⟨_, ⟨⟩, hentries⟩
      exact hno entries hentries
  · rename_i hno
    refine .inr ⟨?_, rfl⟩
    rintro entries ⟨members, rfl, -⟩
    exact hno members rfl

theorem failsBeyond_built (ds : List (TypeDef Value)) :
    FailsBeyond IsFormatError (fun e => e = .fault .wrongKind ∧ ∃ d ∈ ds, d.LacksKey)
      (Repository.built ds) := by
  intro e _
  simp only [Repository.built, TypeDef.lacksKey_iff]
  split
  · rename_i hkeys
    constructor
    · rintro ⟨⟩
    · rintro ⟨-, d, hd, hkey⟩
      rw [List.all_eq_true] at hkeys
      cases hkey.symm.trans (hkeys d hd)
  · rename_i hnone
    constructor
    · rintro ⟨⟩
      exact ⟨rfl, by simpa using hnone⟩
    · rintro ⟨rfl, -⟩
      rfl

/-- **What is reported of a document, and what escapes.** -/
theorem failsBeyond_document (document : Value) :
    FailsBeyond IsFormatError (Document.Escapes document)
      (decodeDocument document >>= Repository.built) := by
  have hformat : IsFormatError .notADocument := rfl
  rcases decodeDocument_cases document with
    ⟨entries, ⟨members, rfl, hentries⟩, hread⟩ | ⟨hno, hread⟩
  · rw [hread]
    refine ((FailsBeyond.mapM TypeDef.failsBeyond_decode entries).bind fun ds _ =>
      failsBeyond_built ds).congr fun e => ?_
    constructor
    · rintro (h | ⟨ds, hds, rfl, d, hd, hkey⟩)
      · exact .definition hentries h
      · exact .index hentries hds hd hkey
    · rintro (⟨hentries', h⟩ | ⟨hentries', hds, hd, hkey⟩)
      · cases hentries.symm.trans hentries'
        exact .inl h
      · cases hentries.symm.trans hentries'
        exact .inr ⟨_, hds, rfl, _, hd, hkey⟩
  · rw [hread]
    refine (FailsBeyond.of_failsWith (.error hformat)).congr fun e => iff_of_false id ?_
    rintro (⟨hentries, -⟩ | ⟨hentries, -, -, -⟩)
    · exact hno _ ⟨_, rfl, hentries⟩
    · exact hno _ ⟨_, rfl, hentries⟩

end ComHeaders
