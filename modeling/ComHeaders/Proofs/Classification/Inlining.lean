import ComHeaders.Proofs.Classification.Partition
import ComHeaders.Proofs.Structs.Origins

/-!
# Which definitions are declared in place

A definition of a namespace is asked for its kind before it is described.  A nested one is in no
namespace, and nothing on the way to it asks what kind of definition it is that is entered.  This
file says for the structs of a header which definitions show in them.

## 1.  Structs of a definition

`StructDecl.InlinesStructs` says that all aggregates that are declared in place, at any depth, are
those of structs and unions, and `inlinesStructs_iff` says when this is so.

## 2.  Structs of a header

A struct of a header was described by the definition of a struct or union (`struct_of_collect`).
`classify_inlined_iff` follows its fields from there.
-/

namespace ComHeaders

/-! ## 1.  Structs of a definition -/

namespace StructDecl

open FieldDecl

variable {r : Repository} {d : TypeDef} {s : StructDecl}

/-- Every aggregate that is declared in place, at whatever depth of a struct that a definition
described, is that of a nested definition of a struct or union. -/
def InlinesStructs (r : Repository) (d : TypeDef) (s : StructDecl) : Prop :=
  ∀ owner f name type head inner,
    Declares r owner f (.aggregate name type head inner) d s.fields →
      ∃ e, r.Enters f e ∧ head = e.head ∧ e.IsOfKind .struct

/-- **Only structs and unions are declared in place** exactly if none of the definitions that can be
come to is of another kind. -/
theorem inlinesStructs_iff (h : describe r d = .ok s) :
    InlinesStructs r d s ↔ ∀ e, Relation.TransGen r.Nests d e → e.IsOfKind .struct := by
  have hfields := (fields_of_describe h).2
  constructor
  · intro hstructs e he
    obtain ⟨owner, hnests, f, hf, henters⟩ := Relation.TransGen.tail'_iff.1 he
    obtain ⟨g, hdeclares⟩ := exists_declares_of_nests hnests hf hfields
    obtain ⟨name, type, head, inner, rfl⟩ := (aggregate_iff_enters h hdeclares).2 ⟨e, henters⟩
    obtain ⟨e', henters', -, hkind⟩ := hstructs owner f name type head inner hdeclares
    exact henters.unique henters' ▸ hkind
  · intro hkinds owner f name type head inner hdeclares
    obtain ⟨hf, hnests, enterable, hdescribed⟩ := hdeclares.origin hfields
    obtain ⟨e, henters, hhead, -⟩ := (made_of_describe hdescribed).enters
    exact ⟨e, henters, hhead, hkinds e (.tail' hnests ⟨f, hf, henters⟩)⟩

end StructDecl

/-! ## 2.  Structs of a header -/

/-- A definition that a header is made from: one of its namespace, or one that it borrows. -/
inductive Profile.Takes (p : Profile) (r : Repository) (d : TypeDef) : Prop
  | own (h : r.Holds p.namespaceName d)
  | borrowed {ns : String} (hshared : p.sharedNamespace = some ns ∧ ns ≠ "") (h : r.Holds ns d)
    (hallowed : d.name ∈ p.sharedAllowList)

namespace Declarations

open Reading

variable {r : Repository} {p : Profile} {ds : Declarations} {d : TypeDef} {s s' : Session}
  {decl : StructDecl} {k : String} {m : Reading}

theorem entity_of_told_struct {t : Table InterfaceDecl} (h : m.told t d = .ok (.struct decl)) :
    m.entity d = .ok (.struct decl) := by
  by_cases hd : m.isInterface d = true
  · obtain ⟨i, hi⟩ := interface_of_told hd h
    cases hi
  · rwa [told_of_not (Bool.eq_false_iff.2 hd)] at h

/-- **Declared structs come from the definitions of structs** that the header is made from. -/
theorem struct_of_collect (h : (collect r p).perform s = (.ok ds, s'))
    (hdecl : (k, decl) ∈ ds.structs) :
    ∃ d, p.Takes r d ∧ d.name = k ∧ d.IsOfKind .struct ∧ StructDecl.describe r d = .ok decl := by
  obtain ⟨own, u, hown, hshared⟩ := Pass.perform_bind_ok.1 h
  have hfromOwn (hdecl : own.Keeps k (.struct decl)) :
      ∃ d, p.Takes r d ∧ d.name = k ∧ d.IsOfKind .struct ∧ StructDecl.describe r d = .ok decl := by
    rcases keeps_foldlM (m := ownReading r p) hown hdecl with ⟨d, hd, hname, t, htold⟩ | hnone
    · have he : ownEntity r p d = .ok (.struct decl) := entity_of_told_struct htold
      exact ⟨d, .own (Repository.mem_typesIn.1 hd), hname, isOfKind_ownEntity he rfl,
        isOf_ownEntity he⟩
    · cases hnone
  rcases hns : sharedNamespace? p with _ | ns
  · rw [hns] at hshared
    cases hshared
    exact hfromOwn hdecl
  · rw [hns] at hshared
    rcases keeps_foldlM (e := .struct decl) (m := sharedReading r p) hshared hdecl with
      ⟨d, hd, hname, t, htold⟩ | hdecl
    · have he : sharedEntity r p d = .ok (.struct decl) := entity_of_told_struct htold
      obtain ⟨hallowed, hkind⟩ := isOfKind_sharedEntity he rfl
      exact ⟨d, .borrowed (sharedNamespace?_eq_some.1 hns) (Repository.mem_typesIn.1 hd) hallowed,
        hname, hkind, isOf_sharedEntity he⟩
    · exact hfromOwn hdecl

/-- **What is declared in place in the structs of a header.**  Suppose that classification ends
well.  Each struct is that of a definition that the header is made from, and that definition is a
struct or union.  Whatever is declared in it, at any depth, was declared for a field of a
definition, and it is an aggregate if and only if the field leads to a nested definition.

All of these aggregates are those of structs and unions exactly if no definition of another kind,
be it an enum, an interface, a function type or a class, can be come to by going from definition to
nested definition. -/
theorem classify_inlined_iff (r : Repository) (p : Profile) (ds : Declarations) (s s' : Session)
    (h : (classify r p).perform s = (.ok ds, s')) (k : String) (decl : StructDecl)
    (hdecl : (k, decl) ∈ ds.structs) :
    ∃ d, p.Takes r d ∧ d.name = k ∧ d.IsOfKind .struct ∧ decl.head = d.head ∧
      (∀ g, g.Within decl.fields → ∃ owner f, FieldDecl.Declares r owner f g d decl.fields) ∧
      (∀ owner f g, FieldDecl.Declares r owner f g d decl.fields →
        ((∃ name type head inner, g = .aggregate name type head inner) ↔ ∃ e, r.Enters f e)) ∧
      (decl.InlinesStructs r d ↔ ∀ e, Relation.TransGen r.Nests d e → e.IsOfKind .struct) := by
  obtain ⟨u, v, hcollect⟩ := exists_collect_of_classify h
  obtain ⟨d, htakes, hname, hkind, hdescribed⟩ := struct_of_collect hcollect hdecl
  obtain ⟨hhead, hfields⟩ := StructDecl.fields_of_describe hdescribed
  exact ⟨d, htakes, hname, hkind, hhead, fun g hg => FieldDecl.exists_declares hfields hg,
    fun owner f g => StructDecl.aggregate_iff_enters hdescribed,
    StructDecl.inlinesStructs_iff hdescribed⟩

/-- A field without a value and without attributes. -/
def bareField (name : String) (type : TypeRef) : Field := ⟨name, type, none, false, []⟩

/-- The field that leads to the size of a shape. -/
def sizeField : Field :=
  bareField "Size" (.named (.str "") (.str "SIZE") (.str "Shapes.SHAPE") true)

/-- A shape that has a size. -/
def sizedShape : TypeDef :=
  { bareType "Shapes" "SHAPE" "System.ValueType" with fields := [sizeField] }

/-- The size of the shape, a definition that is nested in it. -/
def shapeSize (base : String) : TypeDef :=
  { bareType "" "SIZE" base with
    declaringType := .str "Shapes.SHAPE"
    fields := [bareField "Width" (.primitive (.str "Int32"))] }

/-- The two definitions. -/
def sizedShapes (base : String) : Repository := .ofList [sizedShape, shapeSize base]

theorem sizedShapes_enters (base : String) :
    (sizedShapes base).Enters sizeField (shapeSize base) :=
  ⟨rfl, rfl, rfl⟩

theorem sizedShapes_nests {base : String} {d e : TypeDef}
    (h : Relation.TransGen (sizedShapes base).Nests d e) : e = shapeSize base := by
  obtain ⟨owner, -, f, -, henters⟩ := Relation.TransGen.tail'_iff.1 h
  obtain ⟨hmem, hnested⟩ := henters.mem
  rcases List.mem_pair.1 hmem with rfl | rfl
  · cases hnested
  · rfl

/-- What a header of the shapes declares under the name of the shape comes from the shape. -/
theorem sizedShapes_takes {base : String} {d : TypeDef}
    (h : shapesProfile.Takes (sizedShapes base) d) (hname : d.name = "SHAPE") : d = sizedShape := by
  have hmem : d ∈ [sizedShape, shapeSize base] := by
    rcases h with h | ⟨-, h, -⟩
    · exact h.mem
    · exact h.mem
  rcases List.mem_pair.1 hmem with rfl | rfl
  · rfl
  · exact absurd hname (by simp [shapeSize, bareType])

/-- The shape is declared, whatever its size is. -/
theorem exists_classify_sizedShapes (base : String)
    (hkeys : (((classify (sizedShapes base) shapesProfile).perform {}).1.toOption.map fun ds =>
      ds.structs.keys) = some ["SHAPE"]) :
    ∃ ds s' decl, (classify (sizedShapes base) shapesProfile).perform {} = (.ok ds, s') ∧
      ("SHAPE", decl) ∈ ds.structs := by
  rcases h : (classify (sizedShapes base) shapesProfile).perform {} with ⟨e | ds, s'⟩
  · rw [h] at hkeys
    cases hkeys
  rw [h] at hkeys
  have hmem : "SHAPE" ∈ ds.structs.keys := by
    rw [show ds.structs.keys = ["SHAPE"] from Option.some.inj hkeys]
    exact List.mem_singleton_self _
  obtain ⟨⟨k, decl⟩, hdecl, rfl⟩ := List.mem_map.1 hmem
  exact ⟨ds, s', decl, rfl, hdecl⟩

/-- A size that is a struct is declared in the shape, and nothing else is. -/
theorem sizedShape_inlined :
    ∃ ds s' decl, (classify (sizedShapes "System.ValueType") shapesProfile).perform {} =
        (.ok ds, s') ∧ ("SHAPE", decl) ∈ ds.structs ∧ decl.head = sizedShape.head ∧
      decl.InlinesStructs (sizedShapes "System.ValueType") sizedShape := by
  obtain ⟨ds, s', decl, h, hdecl⟩ :=
    exists_classify_sizedShapes "System.ValueType" (by decide +kernel)
  obtain ⟨d, htakes, hname, -, hhead, -, -, hiff⟩ := classify_inlined_iff _ _ ds _ s' h "SHAPE" decl
    hdecl
  obtain rfl := sizedShapes_takes htakes hname
  refine ⟨ds, s', decl, h, hdecl, hhead, hiff.2 fun e he => ?_⟩
  obtain rfl := sizedShapes_nests he
  exact ⟨rfl, rfl⟩

/-- So is a size that is an enum, as if it were a struct of what the enum consists of. -/
theorem sizedShape_inlinesEnum :
    (shapeSize "System.Enum").IsOfKind .enum ∧
      ∃ ds s' decl, (classify (sizedShapes "System.Enum") shapesProfile).perform {} =
          (.ok ds, s') ∧ ("SHAPE", decl) ∈ ds.structs ∧
        ∃ inner, .aggregate "Size" sizeField.type (shapeSize "System.Enum").head inner ∈
          decl.fields := by
  obtain ⟨ds, s', decl, h, hdecl⟩ :=
    exists_classify_sizedShapes "System.Enum" (by decide +kernel)
  obtain ⟨u, v, hcollect⟩ := exists_collect_of_classify h
  obtain ⟨d, htakes, hname, -, hdescribed⟩ := struct_of_collect hcollect hdecl
  obtain rfl := sizedShapes_takes htakes hname
  have hfields := (StructDecl.fields_of_describe hdescribed).2
  obtain ⟨g, hg⟩ := (FieldDecl.exists_mem_zip hfields).2 sizeField (.head _)
  obtain ⟨inner, rfl, -⟩ := (FieldDecl.made_of_describe
    (FieldDecl.described_of_mem_zip hfields hg)).eq_aggregate (sizedShapes_enters "System.Enum")
  exact ⟨rfl, ds, s', decl, h, hdecl, inner, (List.of_mem_zip hg).2⟩

end Declarations

end ComHeaders
