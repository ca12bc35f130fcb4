import ComHeaders.Classify.Aggregate
import ComHeaders.Proofs.Metadata.Reading
import ComHeaders.Proofs.StructOrder.References

/-!
# Where the fields of a struct come from

A field whose type is a nested definition is declared in place, with fields that come from that
definition, and these may be declared in place in turn.  So what is declared for a struct comes from
fields of many definitions.  This file follows the fields inward.

## 1.  Entering

`Repository.Enters` says that a field leads to a nested definition, and `Repository.Nests` that a
definition has such a field.

## 2.  One field

A field is declared as an array, as an aggregate, or as a plain member, and which of them it is
depends on its type alone (`FieldDecl.made_of_describe`).

## 3.  Fields at any depth

`FieldDecl.Declares` follows a field into what was declared for a definition.  Nothing is declared
that has no such origin (`exists_declares`), and the fields of each definition that can be come to
are declared (`exists_declares_of_nests`).
-/

namespace ComHeaders

/-! ## 1.  Entering -/

/-- What an aggregate that a definition describes is called, and whether its fields overlap. -/
def TypeDef.head (d : TypeDef) : AggregateHead := ⟨d.name, d.fullName, d.explicitLayout⟩

namespace Repository

variable {r : Repository} {f : Field} {e e' : TypeDef}

/-- A field leads to a nested definition: its type is that definition itself, with no pointer or
array around it. -/
structure Enters (r : Repository) (f : Field) (e : TypeDef) : Prop where
  named : f.type.isNamed = true
  resolve : r.resolve f.type = .ok (some e)
  nested : e.isNested = true

theorem Enters.unique (h : r.Enters f e) (h' : r.Enters f e') : e = e' := by
  have hsame : Except.ok (some e) = Except.ok (some e') := h.resolve.symm.trans h'.resolve
  exact Option.some.inj (Except.ok.inj hsame)

/-- A field of a definition leads to a nested one. -/
def Nests (r : Repository) (d e : TypeDef) : Prop :=
  ∃ f ∈ d.fields, r.Enters f e

/-- What a field leads to is a nested definition of the metadata set. -/
theorem Enters.mem {ds : List TypeDef} (h : (ofList ds).Enters f e) :
    e ∈ ds ∧ e.isNested = true := by
  refine ⟨?_, h.nested⟩
  have hfound := h.resolve
  rw [Repository.resolve] at hfound
  split at hfound
  · rename_i ns name declaring isValue hinner
    rcases hkey : TypeRef.qualify ns name declaring with _ | _ | _ | _ | k | _ | _
    case str =>
      rw [hkey, findKey, find?_ofList] at hfound
      exact List.mem_of_find?_eq_some (Except.ok.inj hfound)
    all_goals simp [hkey, findKey, Value.isKey] at hfound
  · cases hfound

end Repository

/-! ## 2.  One field -/

namespace FieldDecl

variable {r : Repository} {enterable : List String} {owner : String} {f : Field} {g : FieldDecl}
  {e : TypeDef}

/-- A field that leads to a nested definition is declared in place, with what that definition
describes, if the definition may be entered. -/
theorem describe_of_enters (he : r.Enters f e) :
    describe r enterable owner f =
      if e.fullName ∈ enterable then do
        return .aggregate f.name f.type e.head
          (← e.fields.mapM (describe r (enterable.erase e.fullName) e.name))
      else .error (.fault .tooDeep) := by
  have hfound := he.resolve
  rw [describe]
  rcases htype : f.type with _ | _ | _ | _ | ⟨ns, name, declaring, isValue⟩
  case named =>
    rw [htype] at hfound
    simp only [hfound, he.nested, if_true]
    split <;> rfl
  all_goals
    have hnamed := he.named
    rw [htype] at hnamed
    cases hnamed

/-- A field that is no array and leads to no nested definition is declared as a plain member, unless
its type cannot be looked up. -/
theorem describe_of_not_enters (enterable : List String) (owner : String)
    (harray : ∀ element length, f.type ≠ .array element length) (henters : ∀ e, ¬ r.Enters f e) :
    (∃ fault, r.resolve f.type = .error fault ∧
      describe r enterable owner f = .error (.fault fault)) ∨
    describe r enterable owner f = do return .plain f.name f.type (← BitGroup.read owner f) := by
  rw [describe]
  rcases htype : f.type with _ | _ | _ | ⟨element, length⟩ | ⟨ns, name, declaring, isValue⟩
  case array => exact absurd htype (harray element length)
  case named =>
    rcases hfound : r.resolve (.named ns name declaring isValue) with fault | _ | e
    · exact .inl ⟨fault, rfl, rfl⟩
    · exact .inr rfl
    · have hnested : ¬ e.isNested = true := fun hnested =>
        henters e ⟨by rw [htype]; rfl, htype ▸ hfound, hnested⟩
      right
      simp only [hnested, Bool.false_eq_true, if_false]
  all_goals exact .inr rfl

/-- What a field is declared as.  Only for a plain member are its attributes read. -/
inductive Made (r : Repository) (enterable : List String) (owner : String) (f : Field) :
    FieldDecl → Prop
  | array {element : TypeRef} {length : Int} (htype : f.type = .array element length) :
    Made r enterable owner f (.array f.name element length)
  | aggregate {e : TypeDef} {inner : List FieldDecl} (henters : r.Enters f e)
    (hinner : e.fields.mapM (describe r (enterable.erase e.fullName) e.name) = .ok inner) :
    Made r enterable owner f (.aggregate f.name f.type e.head inner)
  | plain {groups : List BitGroup} (harray : ∀ element length, f.type ≠ .array element length)
    (henters : ∀ e, ¬ r.Enters f e) (hgroups : BitGroup.read owner f = .ok groups) :
    Made r enterable owner f (.plain f.name f.type groups)

/-- **A field is declared in one of three ways.** -/
theorem made_of_describe (h : describe r enterable owner f = .ok g) :
    Made r enterable owner f g := by
  by_cases harray : ∃ element length, f.type = .array element length
  · obtain ⟨element, length, htype⟩ := harray
    rw [describe, htype] at h
    obtain rfl := Except.ok.inj h
    exact .array htype
  by_cases henters : ∃ e, r.Enters f e
  · obtain ⟨e, he⟩ := henters
    rw [describe_of_enters he] at h
    split at h
    · obtain ⟨inner, hinner, h⟩ := Result.bind_eq_ok.1 h
      obtain rfl := Except.ok.inj h
      exact .aggregate he hinner
    · cases h
  · replace harray := fun element length htype => harray ⟨element, length, htype⟩
    replace henters := fun e he => henters ⟨e, he⟩
    obtain ⟨fault, -, hfault⟩ | hplain := describe_of_not_enters enterable owner harray henters
    · rw [hfault] at h
      cases h
    · rw [hplain] at h
      obtain ⟨groups, hgroups, h⟩ := Result.bind_eq_ok.1 h
      obtain rfl := Except.ok.inj h
      exact .plain harray henters hgroups

/-- A field that leads to a nested definition is declared as that definition describes it. -/
theorem Made.eq_aggregate (h : Made r enterable owner f g) (he : r.Enters f e) :
    ∃ inner, g = .aggregate f.name f.type e.head inner ∧
      e.fields.mapM (describe r (enterable.erase e.fullName) e.name) = .ok inner := by
  cases h with
  | array htype =>
    have hnamed := he.named
    rw [htype] at hnamed
    cases hnamed
  | aggregate henters hinner =>
    obtain rfl := henters.unique he
    exact ⟨_, rfl, hinner⟩
  | plain _ henters _ => exact absurd he (henters e)

theorem Made.enters {name : String} {type : TypeRef} {head : AggregateHead}
    {inner : List FieldDecl} (h : Made r enterable owner f (.aggregate name type head inner)) :
    ∃ e, r.Enters f e ∧ head = e.head ∧
      e.fields.mapM (describe r (enterable.erase e.fullName) e.name) = .ok inner := by
  cases h with
  | aggregate henters hinner => exact ⟨_, henters, rfl, hinner⟩

/-! ## 3.  Fields at any depth -/

/-- A field of a definition and what was declared for it, somewhere among the fields of an aggregate
that another definition described or in an aggregate inside it. -/
inductive Declares (r : Repository) (owner : TypeDef) (f : Field) (g : FieldDecl) :
    TypeDef → List FieldDecl → Prop
  | among {fields : List FieldDecl} (h : (f, g) ∈ owner.fields.zip fields) :
    Declares r owner f g owner fields
  | inside {d e : TypeDef} {f' : Field} {fields inner : List FieldDecl} {name : String}
    {type : TypeRef} {head : AggregateHead}
    (h : (f', .aggregate name type head inner) ∈ d.fields.zip fields) (henters : r.Enters f' e)
    (hinner : Declares r owner f g e inner) : Declares r owner f g d fields

variable {d : TypeDef} {fields : List FieldDecl}

theorem described_of_mem_zip (h : d.fields.mapM (describe r enterable d.name) = .ok fields)
    (hfg : (f, g) ∈ d.fields.zip fields) : describe r enterable d.name f = .ok g :=
  (List.forall₂_iff_zip.1 (Result.mapM_eq_ok.1 h)).2 hfg

/-- As many fields are declared as the definition has, so each belongs to one of the others. -/
theorem exists_mem_zip (h : d.fields.mapM (describe r enterable d.name) = .ok fields) :
    (∀ g ∈ fields, ∃ f, (f, g) ∈ d.fields.zip fields) ∧
      ∀ f ∈ d.fields, ∃ g, (f, g) ∈ d.fields.zip fields := by
  have hlength := (List.forall₂_iff_zip.1 (Result.mapM_eq_ok.1 h)).1
  refine ⟨fun g hg => ?_, fun f hf => ?_⟩
  · rw [← List.map_snd_zip hlength.ge, List.mem_map] at hg
    obtain ⟨⟨f, g'⟩, hmem, rfl⟩ := hg
    exact ⟨f, hmem⟩
  · rw [← List.map_fst_zip hlength.le, List.mem_map] at hf
    obtain ⟨⟨f', g⟩, hmem, rfl⟩ := hf
    exact ⟨g, hmem⟩

/-- **Whatever is declared has an origin**: at any depth it was declared for a field of a
definition. -/
theorem exists_declares (h : d.fields.mapM (describe r enterable d.name) = .ok fields)
    (hg : g.Within fields) : ∃ owner f, Declares r owner f g d fields := by
  induction hg generalizing d enterable with
  | among hmem =>
    obtain ⟨f, hfg⟩ := (exists_mem_zip h).1 g hmem
    exact ⟨d, f, .among hfg⟩
  | inside hmem _ ih =>
    obtain ⟨f', hfg⟩ := (exists_mem_zip h).1 _ hmem
    obtain ⟨e, henters, -, hinner⟩ := (made_of_describe (described_of_mem_zip h hfg)).enters
    obtain ⟨owner, f, hdeclares⟩ := ih hinner
    exact ⟨owner, f, .inside hfg henters hdeclares⟩

/-- What was declared for a field was described by it, and the definition that it is a field of was
come to by entering nested definitions. -/
theorem Declares.origin {owner : TypeDef} (hdeclares : Declares r owner f g d fields)
    (h : d.fields.mapM (describe r enterable d.name) = .ok fields) :
    f ∈ owner.fields ∧ Relation.ReflTransGen r.Nests d owner ∧
      ∃ enterable', describe r enterable' owner.name f = .ok g := by
  induction hdeclares generalizing enterable with
  | among hfg =>
    exact ⟨(List.of_mem_zip hfg).1, .refl, enterable, described_of_mem_zip h hfg⟩
  | inside hfg henters _ ih =>
    obtain ⟨e, he, -, hinner⟩ := (made_of_describe (described_of_mem_zip h hfg)).enters
    obtain rfl := he.unique henters
    obtain ⟨hf, hnests, hdescribed⟩ := ih hinner
    exact ⟨hf, .head ⟨_, (List.of_mem_zip hfg).1, henters⟩ hnests, hdescribed⟩

/-- **The fields of each definition that can be come to are declared.** -/
theorem exists_declares_of_nests {owner : TypeDef} (hnests : Relation.ReflTransGen r.Nests d owner)
    (hf : f ∈ owner.fields) (h : d.fields.mapM (describe r enterable d.name) = .ok fields) :
    ∃ g, Declares r owner f g d fields := by
  induction hnests using Relation.ReflTransGen.head_induction_on generalizing enterable fields with
  | refl =>
    obtain ⟨g, hfg⟩ := (exists_mem_zip h).2 f hf
    exact ⟨g, .among hfg⟩
  | head hstep _ ih =>
    obtain ⟨f', hf', henters⟩ := hstep
    obtain ⟨g', hfg'⟩ := (exists_mem_zip h).2 f' hf'
    obtain ⟨inner, rfl, hinner⟩ :=
      (made_of_describe (described_of_mem_zip h hfg')).eq_aggregate henters
    obtain ⟨g, hdeclares⟩ := ih hinner
    exact ⟨g, .inside hfg' henters hdeclares⟩

end FieldDecl

namespace StructDecl

variable {r : Repository} {d : TypeDef} {s : StructDecl}

theorem fields_of_describe (h : describe r d = .ok s) :
    s.head = d.head ∧ d.fields.mapM (FieldDecl.describe r (enterableNames r) d.name) =
      .ok s.fields := by
  obtain ⟨fields, hfields, h⟩ := Result.bind_eq_ok.1 h
  obtain rfl := Except.ok.inj h
  exact ⟨rfl, hfields⟩

/-- What a field is declared as, at whatever depth, follows from where it leads. -/
theorem aggregate_iff_enters (h : describe r d = .ok s) {owner : TypeDef} {f : Field}
    {g : FieldDecl} (hdeclares : FieldDecl.Declares r owner f g d s.fields) :
    (∃ name type head inner, g = .aggregate name type head inner) ↔ ∃ e, r.Enters f e := by
  obtain ⟨-, -, enterable, hdescribed⟩ := hdeclares.origin (fields_of_describe h).2
  have hmade := FieldDecl.made_of_describe hdescribed
  constructor
  · rintro ⟨name, type, head, inner, rfl⟩
    obtain ⟨e, henters, -, -⟩ := hmade.enters
    exact ⟨e, henters⟩
  · rintro ⟨e, henters⟩
    obtain ⟨inner, rfl, -⟩ := hmade.eq_aggregate henters
    exact ⟨_, _, _, _, rfl⟩

end StructDecl

end ComHeaders
