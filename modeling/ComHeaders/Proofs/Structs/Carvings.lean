import ComHeaders.Proofs.Classification.BitGroups
import ComHeaders.Proofs.Classification.Inlining

/-!
# Which groups of bits are kept

Any field can have attributes that describe groups of bits, but only a plain member is asked for
them.  A field that is declared as an array or in place is taken as it is, whatever its attributes
say.  This file says for the fields of a struct, at every depth, whether their groups are kept.

## 1.  Fields that are overlooked

`Repository.Overlooks` says that the attributes of a field are not looked at.  Whatever they are, the
field is declared in the same way (`FieldDecl.describe_of_overlooked`).

## 2.  Groups that are read

What is read off a plain member are the groups that its attributes describe, each once
(`BitGroup.exists_describes_of_read`).

## 3.  Groups that are kept

A field with groups that is not overlooked keeps them or ends the description, and one that is
overlooked loses them (`StructDecl.describe_groups`).
-/

namespace ComHeaders

/-- An attribute of a field describes a group of bits. -/
def Field.HasGroups (f : Field) : Prop := f.attributes.filter BitGroup.isGroup ≠ []

/-- The groups that a field is carved up into. -/
def FieldDecl.groups : FieldDecl → List BitGroup
  | plain _ _ groups => groups
  | array _ _ _ | aggregate _ _ _ _ => []

/-- The groups that the attributes of a field describe are those that are declared, each once. -/
def Field.KeepsGroups (f : Field) (g : FieldDecl) : Prop :=
  ∃ groups, List.Forall₂ BitGroup.Describes (f.attributes.filter BitGroup.isGroup) groups ∧
    g.groups.Perm groups

/-- A reference to one of the integer primitives. -/
def TypeRef.IsInteger (r : TypeRef) : Prop :=
  ∃ integer width, r = .primitive (.str integer) ∧ (integer, width) ∈ TypeRef.integerWidths

/-! ## 1.  Fields that are overlooked -/

/-- A field whose attributes are not looked at: its type is an array, or it leads to a nested
definition. -/
def Repository.Overlooks (r : Repository) (f : Field) : Prop :=
  (∃ element length, f.type = .array element length) ∨ ∃ e, r.Enters f e

/-- A type that is named by a text can be looked up. -/
theorem Repository.exists_resolve (r : Repository) {q : TypeRef} (hq : q.IsNamedByText) :
    ∃ found, r.resolve q = .ok found := by
  obtain ⟨n, hn⟩ := hq
  rcases hinner : q.innermost with _ | _ | _ | _ | ⟨ns, name, declaring, isValue⟩
  case named =>
    rw [hinner] at hn
    obtain rfl : name = .str n := hn
    exact ⟨_, r.resolve_of_innermost hinner⟩
  all_goals
    rw [Repository.resolve, hinner]
    exact ⟨_, rfl⟩

namespace FieldDecl

variable {r : Repository} {enterable : List String} {owner : String} {f : Field} {g : FieldDecl}

/-- A field that is not overlooked is declared as a plain member, unless its type cannot be looked
up. -/
theorem describe_of_not_overlooked (enterable : List String) (owner : String)
    (h : ¬ r.Overlooks f) :
    (∃ fault, r.resolve f.type = .error fault ∧
      describe r enterable owner f = .error (.fault fault)) ∨
    describe r enterable owner f = do return .plain f.name f.type (← BitGroup.read owner f) :=
  describe_of_not_enters enterable owner
    (fun element length htype => h (.inl ⟨element, length, htype⟩)) fun e he => h (.inr ⟨e, he⟩)

theorem describe_of_overlooked (h : r.Overlooks f) (attributes : List Attribute) :
    describe r enterable owner { f with attributes } = describe r enterable owner f := by
  rcases h with ⟨element, length, htype⟩ | ⟨e, henters⟩
  · rw [describe, describe]
    simp only [htype]
  · have henters' : r.Enters { f with attributes } e :=
      ⟨henters.named, henters.resolve, henters.nested⟩
    rw [describe_of_enters henters, describe_of_enters henters']

end FieldDecl

/-! ## 2.  Groups that are read -/

namespace BitGroup

variable {owner : String} {f : Field} {arranged : List BitGroup}

/-- An attribute that can be read describes what is read. -/
theorem describes_of_ofAttribute {a : Attribute} {g : BitGroup} (h : ofAttribute a = .ok g) :
    Describes a g := by
  have hargument (i : Nat) (v : Value) (hv : argument a i = .ok v) : a.arguments[i]? = some v := by
    rw [argument] at hv
    split at hv
    · rename_i w hw
      rw [hw, Except.ok.inj hv]
    · cases hv
  obtain ⟨name, hname, h⟩ := Result.bind_eq_ok.1 h
  obtain ⟨start, hstart, h⟩ := Result.bind_eq_ok.1 h
  obtain ⟨first, hfirst, h⟩ := Result.bind_eq_ok.1 h
  obtain ⟨length, hlength, h⟩ := Result.bind_eq_ok.1 h
  obtain ⟨count, hcount, h⟩ := Result.bind_eq_ok.1 h
  obtain rfl := Except.ok.inj h
  exact ⟨⟨name, hargument 0 name hname, rfl⟩, ⟨start, hargument 1 start hstart, hfirst⟩,
    ⟨length, hargument 2 length hlength, hcount⟩⟩

/-- **What is read is described**: if anything is read off a field, then each of its attributes that
is about a group describes one. -/
theorem exists_describes_of_read (h : read owner f = .ok arranged) :
    ∃ groups, List.Forall₂ Describes (f.attributes.filter isGroup) groups ∧
      Carves f groups arranged := by
  obtain ⟨sorted, hsorted, -⟩ := Result.bind_eq_ok.1 h
  obtain ⟨groups, hgroups, -⟩ := Result.bind_eq_ok.1 (Result.faulty_eq_ok.1 hsorted)
  have hdescribes : List.Forall₂ Describes (f.attributes.filter isGroup) groups :=
    (Result.mapM_eq_ok.1 hgroups).imp fun _ _ => describes_of_ofAttribute
  exact ⟨groups, hdescribes, carves_of_read hdescribes h⟩

theorem Carves.perm {groups : List BitGroup} (h : Carves f groups arranged) :
    arranged.Perm groups := by
  rcases h with rfl | ⟨-, -, -, hperm, -⟩
  · exact .refl _
  · exact hperm

end BitGroup

/-! ## 3.  Groups that are kept -/

namespace FieldDecl

open BitGroup

variable {r : Repository} {enterable : List String} {owner : String} {f : Field} {g : FieldDecl}

/-- A field for which no groups are declared keeps its groups if it has none. -/
theorem keepsGroups_iff_of_groups_eq_nil (hg : g.groups = []) :
    f.KeepsGroups g ↔ ¬ f.HasGroups := by
  rw [Field.KeepsGroups, Field.HasGroups, not_not, hg]
  constructor
  · rintro ⟨groups, hgroups, hperm⟩
    obtain rfl := hperm.symm.eq_nil
    exact List.forall₂_nil_right_iff.1 hgroups
  · intro hnone
    exact ⟨[], hnone ▸ .nil, .refl _⟩

/-- **A field that was declared** keeps its groups unless it is overlooked, and if it has any it is
a backing field of an integer type. -/
theorem Made.keepsGroups_iff (h : Made r enterable owner f g) :
    (f.KeepsGroups g ↔ ¬ (f.HasGroups ∧ r.Overlooks f)) ∧
      (f.HasGroups → ¬ r.Overlooks f → f.name = backingField ∧ f.type.IsInteger) := by
  cases h with
  | @array element length htype =>
    have hover : r.Overlooks f := .inl ⟨element, length, htype⟩
    rw [keepsGroups_iff_of_groups_eq_nil rfl]
    exact ⟨by simp [hover], fun _ hnot => absurd hover hnot⟩
  | @aggregate e inner henters _ =>
    have hover : r.Overlooks f := .inr ⟨e, henters⟩
    rw [keepsGroups_iff_of_groups_eq_nil rfl]
    exact ⟨by simp [hover], fun _ hnot => absurd hover hnot⟩
  | @plain arranged harray henters hread =>
    have hnot : ¬ r.Overlooks f := by
      rintro (⟨element, length, htype⟩ | ⟨e, he⟩)
      · exact harray element length htype
      · exact henters e he
    obtain ⟨groups, hgroups, hcarves⟩ := exists_describes_of_read hread
    refine ⟨⟨fun _ h => hnot h.2, fun _ => ⟨groups, hgroups, hcarves.perm⟩⟩, fun hhas _ => ?_⟩
    rcases hcarves with rfl | ⟨hname, htype, hwidth, -, -⟩
    · exact absurd (List.forall₂_nil_right_iff.1 hgroups) hhas
    · exact ⟨hname, _, _, htype, hwidth⟩

/-- **A field that cannot be carved up is rejected.**  If its attributes describe groups and its
type is named by a text, the layout is reported as one that is not possible. -/
theorem rejected_of_hasGroups (hhas : f.HasGroups) (hnot : ¬ r.Overlooks f)
    (hinteger : ¬ f.type.IsInteger) :
    ∃ e, describe r enterable owner f = .error e ∧
      ∀ groups, List.Forall₂ Describes (f.attributes.filter isGroup) groups →
        f.type.IsNamedByText → ∃ problem, e = .bitfields problem := by
  rcases hresult : describe r enterable owner f with e | g
  · refine ⟨e, rfl, fun groups hgroups htext => ?_⟩
    obtain ⟨fault, hfault, -⟩ | hplain := describe_of_not_overlooked enterable owner hnot
    · obtain ⟨found, hfound⟩ := r.exists_resolve htext
      rw [hfault] at hfound
      cases hfound
    · rw [hplain] at hresult
      obtain hread | ⟨arranged, -, hdone⟩ := Result.bind_eq_error.1 hresult
      · exact read_error hgroups htext hread
      · cases hdone
  · exact absurd ((made_of_describe hresult).keepsGroups_iff.2 hhas hnot).2 hinteger

end FieldDecl

namespace StructDecl

open FieldDecl

/-- **Which groups of bits are kept.**  Take a struct that a definition describes, and in it, at any
depth, a field of a definition and what was declared for it.  The groups that the attributes of the
field describe are those that were declared, each once, unless the field has groups and is
overlooked; and if it has groups and is not overlooked, it is a backing field of an integer type.

A field with groups that is not overlooked and whose type is no integer is rejected wherever it is
met, and as a layout that is not possible if its groups and its type can be read.  A field that is
overlooked is described, or rejected, as it would be with any other attributes. -/
theorem describe_groups (r : Repository) :
    (∀ d s, describe r d = .ok s →
      (∀ g, g.Within s.fields → ∃ owner f, Declares r owner f g d s.fields) ∧
      ∀ owner f g, Declares r owner f g d s.fields →
        (f.KeepsGroups g ↔ ¬ (f.HasGroups ∧ r.Overlooks f)) ∧
        (f.HasGroups → ¬ r.Overlooks f →
          f.name = BitGroup.backingField ∧ f.type.IsInteger)) ∧
    (∀ enterable owner (f : Field), f.HasGroups → ¬ r.Overlooks f → ¬ f.type.IsInteger →
      ∃ e, FieldDecl.describe r enterable owner f = .error e ∧
        ∀ groups, List.Forall₂ BitGroup.Describes (f.attributes.filter BitGroup.isGroup) groups →
          f.type.IsNamedByText → ∃ problem, e = .bitfields problem) ∧
    (∀ enterable owner (f : Field) attributes, r.Overlooks f →
      FieldDecl.describe r enterable owner { f with attributes } =
        FieldDecl.describe r enterable owner f) := by
  refine ⟨fun d s h => ⟨fun g hg => exists_declares (fields_of_describe h).2 hg,
      fun owner f g hdeclares => ?_⟩, fun enterable owner f => rejected_of_hasGroups,
    fun enterable owner f attributes h => describe_of_overlooked h attributes⟩
  obtain ⟨-, -, enterable, hdescribed⟩ := hdeclares.origin (fields_of_describe h).2
  exact (made_of_describe hdescribed).keepsGroups_iff

/-- The size of a shape, packed into the two groups of a word. -/
def packedSize : TypeDef :=
  { Declarations.shapeSize "System.ValueType" with fields := [BitGroup.word] }

/-- The shape and its size. -/
def packedShapes : Repository := .ofList [Declarations.sizedShape, packedSize]

/-- Two words that are said to be carved up. -/
def wordArray : Field :=
  { BitGroup.word with type := .array (.primitive (.str "UInt16")) 2 }

theorem word_describes :
    List.Forall₂ BitGroup.Describes (BitGroup.word.attributes.filter BitGroup.isGroup)
      [BitGroup.reserved, BitGroup.enabled] :=
  .cons ⟨⟨_, rfl, rfl⟩, ⟨_, rfl, rfl⟩, ⟨_, rfl, rfl⟩⟩
    (.cons ⟨⟨_, rfl, rfl⟩, ⟨_, rfl, rfl⟩, ⟨_, rfl, rfl⟩⟩ .nil)

theorem not_overlooks_word (r : Repository) (n : String) :
    ¬ r.Overlooks { BitGroup.word with type := .primitive (.str n) } := by
  rintro (⟨element, length, htype⟩ | ⟨e, he⟩)
  · cases htype
  · exact absurd he.named (by simp [TypeRef.isNamed])

/-- The shape can be described, with the word in it. -/
theorem exists_describe_packedShapes :
    ∃ s, describe packedShapes Declarations.sizedShape = .ok s := by
  have htiles : BitGroup.Tiles 0 16 [BitGroup.enabled, BitGroup.reserved] := by
    refine BitGroup.tiles_cons.2 ⟨rfl, by decide, BitGroup.tiles_cons.2 ⟨rfl, by decide, ?_⟩⟩
    exact ⟨by simp, .nil, by simp, by decide⟩
  have hread : BitGroup.read "SIZE" BitGroup.word = .ok [BitGroup.enabled, BitGroup.reserved] :=
    BitGroup.read_of_carves word_describes (.tiled rfl rfl (by decide) (.swap ..) htiles)
  have hword : packedSize.fields.mapM
      (FieldDecl.describe packedShapes ["Shapes.SHAPE"] packedSize.name) =
        .ok [.plain BitGroup.backingField (.primitive (.str "UInt16"))
          [BitGroup.enabled, BitGroup.reserved]] := by
    refine Result.mapM_eq_ok.2 (.cons ?_ .nil)
    obtain ⟨fault, hfault, -⟩ | hplain := describe_of_not_overlooked ["Shapes.SHAPE"] "SIZE"
      (not_overlooks_word packedShapes "UInt16")
    · cases hfault
    · exact hplain.trans (Result.bind_eq_ok.2 ⟨_, hread, rfl⟩)
  have henters : packedShapes.Enters Declarations.sizeField packedSize := ⟨rfl, rfl, rfl⟩
  have hsize : FieldDecl.describe packedShapes (enterableNames packedShapes) "SHAPE"
      Declarations.sizeField = .ok (.aggregate "Size" Declarations.sizeField.type packedSize.head
        [.plain BitGroup.backingField (.primitive (.str "UInt16"))
          [BitGroup.enabled, BitGroup.reserved]]) := by
    rw [describe_of_enters henters, if_pos (by decide)]
    exact Result.bind_eq_ok.2 ⟨_, hword, rfl⟩
  exact ⟨_, Result.bind_eq_ok.2 ⟨_, Result.mapM_eq_ok.2 (.cons hsize .nil), rfl⟩⟩

/-- The groups of the word in the shape are kept.  Those of a word of a floating type are rejected,
and two words are described as if they had none. -/
theorem packedShapes_groups :
    (∃ s owner g, describe packedShapes Declarations.sizedShape = .ok s ∧
      Declares packedShapes owner BitGroup.word g Declarations.sizedShape s.fields ∧
      BitGroup.word.KeepsGroups g) ∧
    (∃ problem, FieldDecl.describe packedShapes [] "SIZE"
      { BitGroup.word with type := .primitive (.str "Single") } = .error (.bitfields problem)) ∧
    FieldDecl.describe packedShapes [] "SIZE" { wordArray with attributes := [] } =
      FieldDecl.describe packedShapes [] "SIZE" wordArray := by
  obtain ⟨hkept, hrejected, hoverlooked⟩ := describe_groups packedShapes
  refine ⟨?_, ?_, hoverlooked [] "SIZE" wordArray [] (.inl ⟨_, _, rfl⟩)⟩
  · obtain ⟨s, hs⟩ := exists_describe_packedShapes
    have hnests : packedShapes.Nests Declarations.sizedShape packedSize :=
      ⟨Declarations.sizeField, .head _, rfl, rfl, rfl⟩
    obtain ⟨g, hdeclares⟩ := exists_declares_of_nests (f := BitGroup.word) (.single hnests)
      (.head _) (fields_of_describe hs).2
    exact ⟨s, _, g, hs, hdeclares, ((hkept _ _ hs).2 _ _ _ hdeclares).1.2 fun hlost =>
      not_overlooks_word _ "UInt16" hlost.2⟩
  · have hinteger : ¬ (TypeRef.primitive (.str "Single")).IsInteger := by
      rintro ⟨integer, width, htype, hmem⟩
      cases htype
      simp [TypeRef.integerWidths] at hmem
    obtain ⟨e, he, hproblem⟩ := hrejected [] "SIZE"
      { BitGroup.word with type := .primitive (.str "Single") } (List.cons_ne_nil _ _)
      (not_overlooks_word _ "Single") hinteger
    obtain ⟨problem, rfl⟩ := hproblem _ word_describes ⟨_, rfl⟩
    exact ⟨problem, he⟩

/-- The two words are accepted, and their groups are lost. -/
theorem wordArray_loses :
    wordArray.HasGroups ∧
      describe (.ofList []) { Declarations.sizedShape with fields := [wordArray] } =
        .ok ⟨Declarations.sizedShape.head,
          [.array BitGroup.backingField (.primitive (.str "UInt16")) 2]⟩ := by
  have hfield : FieldDecl.describe (.ofList []) [] "SHAPE" wordArray =
      .ok (.array BitGroup.backingField (.primitive (.str "UInt16")) 2) := by
    rw [FieldDecl.describe]
    rfl
  exact ⟨List.cons_ne_nil _ _,
    Result.bind_eq_ok.2 ⟨_, Result.mapM_eq_ok.2 (.cons hfield .nil), rfl⟩⟩

end StructDecl

end ComHeaders
