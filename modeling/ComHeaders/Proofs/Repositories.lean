import ComHeaders.Classify.Aggregate
import ComHeaders.Proofs.Keys
import ComHeaders.Proofs.Pass
import Mathlib.Data.List.Nodup
import Mathlib.Data.List.Perm.Basic

/-!
# Repositories that hold the same

The definitions of a metadata set come in some order.  As long as no full name is borne twice,
the order bears only on the order of the answers that are lists.

## 1.  The index

The index never holds a name twice.  Without repeated names it is the list of the definitions, each
under its name (`index_ofList`), and to find a definition is to have it
(`find?_ofList_eq_some`).  The definitions of a namespace that is a text are those that bear it and
that no other definition declares (`mem_typesIn`).

## 2.  Describing structs

How a struct is described depends on the definitions that its fields lead to and on the names
that may be entered.  This is an induction along the nesting of the fields.

## 3.  Repositories that are alike

`Repository.Alike` says that two repositories answer alike, lists up to their order.  Repositories
of the same definitions in another order are (`alike_of_perm`).  In such repositories interfaces,
structs and unions are described alike.
-/

namespace ComHeaders

/-- Null is no declaring type, and every other value is one. -/
theorem TypeDef.not_isNested {d : TypeDef} : (!d.isNested) = true ↔ d.declaringType = .null := by
  rw [TypeDef.isNested]
  rcases d.declaringType <;> simp

namespace Repository

variable {ds ds' : List TypeDef} {r r' : Repository}

/-! ## 1.  The index -/

/-- The index never holds a name twice. -/
theorem nodup_keys_extendIndex {index : Table TypeDef} (h : index.keys.Nodup) :
    (extendIndex index ds).keys.Nodup := by
  induction ds generalizing index with
  | nil => exact h
  | cons d ds ih =>
    rw [extendIndex]
    split
    · exact ih h
    · rename_i hnew
      rw [Table.isSome_lookup_iff] at hnew
      refine ih ?_
      rw [Table.keys, List.map_append]
      refine List.nodup_append.2 ⟨h, List.nodup_singleton _, ?_⟩
      rintro a ha _ hb rfl
      obtain rfl : a = d.fullName := List.mem_singleton.1 hb
      exact hnew ha

theorem nodup_keys_ofList (ds : List TypeDef) : (ofList ds).index.keys.Nodup :=
  nodup_keys_extendIndex List.nodup_nil

/-- Definitions of new and distinct names are put behind an index as they are. -/
theorem extendIndex_of_nodup {index : Table TypeDef}
    (h : (index.keys ++ ds.map TypeDef.fullName).Nodup) :
    extendIndex index ds = index ++ ds.map fun d => (d.fullName, d) := by
  induction ds generalizing index with
  | nil => rw [extendIndex, List.map_nil, List.append_nil]
  | cons d ds ih =>
    have hnew : d.fullName ∉ index.keys := by
      intro hmem
      exact (List.nodup_append.1 h).2.2 _ hmem _ (List.mem_map_of_mem List.mem_cons_self) rfl
    rw [extendIndex, if_neg (mt Table.isSome_lookup_iff.1 hnew), ih, List.append_assoc]
    · rfl
    · rw [List.map_cons] at h
      simpa [Table.keys, List.append_assoc] using h

/-- **Without repeated names the index holds every definition.** -/
theorem index_ofList (h : (ds.map TypeDef.fullName).Nodup) :
    (ofList ds).index = ds.map fun d => (d.fullName, d) := by
  rw [ofList, extendIndex_of_nodup (by simpa [Table.keys] using h), List.nil_append]

/-- To find a definition by a name is to have it under that name. -/
theorem find?_ofList_eq_some (h : (ds.map TypeDef.fullName).Nodup) {fullName : String}
    {d : TypeDef} :
    (ofList ds).find? fullName = some d ↔ d ∈ ds ∧ d.fullName = fullName := by
  rw [find?_ofList]
  constructor
  · intro hd
    exact ⟨List.mem_of_find?_eq_some hd, by simpa using List.find?_some hd⟩
  · rintro ⟨hd, rfl⟩
    obtain ⟨e, he⟩ : ∃ e, ds.find? (fun e => e.fullName = d.fullName) = some e := by
      rw [← Option.isSome_iff_exists, List.find?_isSome]
      exact ⟨d, hd, by simp⟩
    rw [he]
    have hname : e.fullName = d.fullName := by simpa using List.find?_some he
    exact congrArg some (List.inj_on_of_nodup_map h (List.mem_of_find?_eq_some he) hd hname)

/-! ### Namespaces -/

/-- A top-level definition of a namespace. -/
structure Holds (r : Repository) (namespaceName : String) (d : TypeDef) : Prop where
  mem : d ∈ r.definitions
  namespace_eq : d.namespaceName = .str namespaceName
  topLevel : d.declaringType = .null

theorem mem_typesIn {r : Repository} {ns : String} {d : TypeDef} :
    d ∈ r.typesIn (.str ns) ↔ r.Holds ns d := by
  rw [typesIn, List.mem_filter, Bool.and_eq_true, Value.equals_str, TypeDef.not_isNested]
  exact ⟨fun ⟨hmem, hns, htop⟩ => ⟨hmem, hns, htop⟩, fun h => ⟨h.mem, h.namespace_eq, h.topLevel⟩⟩

end Repository

/-! ## 2.  Describing structs -/

section

variable {r r' : Repository} {Known : TypeDef → Prop}

/-- Fields are described alike where references lead to the same definitions.  Only those are
entered that can be come to, and of the names that may still be entered only theirs matter. -/
theorem FieldDecl.describe_eq
    (hresolve : ∀ {d : TypeDef}, Known d → ∀ f ∈ d.fields,
      r.resolve f.type = r'.resolve f.type ∧ ∀ e, r'.resolve f.type = .ok (some e) → Known e)
    {enterable enterable' : List String}
    (hcount : ∀ {d : TypeDef}, Known d →
      enterable.count d.fullName = enterable'.count d.fullName)
    (owner : String) {d : TypeDef} (hd : Known d) {f : Field} (hf : f ∈ d.fields) :
    FieldDecl.describe r enterable owner f = FieldDecl.describe r' enterable' owner f := by
  obtain ⟨hsame, hknown⟩ := hresolve hd f hf
  rw [FieldDecl.describe, FieldDecl.describe, hsame]
  rcases htype : f.type with _ | _ | _ | _ | ⟨ns, name, declaring, isValue⟩
  case named =>
    rw [htype] at hknown
    rcases hfound : r'.resolve (.named ns name declaring isValue) with e | _ | e
    · rfl
    · rfl
    · have he : Known e := hknown e hfound
      by_cases hmem : e.fullName ∈ enterable
      · have hmem' : e.fullName ∈ enterable' := by
          rw [← List.count_pos_iff, ← hcount he, List.count_pos_iff]
          exact hmem
        have hrest {c : TypeDef} (hc : Known c) :
            (enterable.erase e.fullName).count c.fullName =
              (enterable'.erase e.fullName).count c.fullName := by
          rw [List.count_erase, List.count_erase, hcount hc]
        have hfields : e.fields.mapM (FieldDecl.describe r (enterable.erase e.fullName) e.name) =
            e.fields.mapM (FieldDecl.describe r' (enterable'.erase e.fullName) e.name) :=
          Result.mapM_congr fun g hg => FieldDecl.describe_eq hresolve hrest e.name he hg
        simp only [hmem, hmem', dif_pos, hfields]
      · have hmem' : e.fullName ∉ enterable' := by
          rw [← List.count_pos_iff, ← hcount he, List.count_pos_iff]
          exact hmem
        simp only [hmem, hmem', dif_neg, not_false_eq_true]
  all_goals rfl
termination_by enterable.length
decreasing_by
  rw [List.length_erase_of_mem hmem]
  exact Nat.sub_lt (List.length_pos_of_mem hmem) Nat.one_pos

/-- Structs and unions, likewise. -/
theorem StructDecl.describe_eq
    (hresolve : ∀ {d : TypeDef}, Known d → ∀ f ∈ d.fields,
      r.resolve f.type = r'.resolve f.type ∧ ∀ e, r'.resolve f.type = .ok (some e) → Known e)
    (hcount : ∀ {d : TypeDef}, Known d →
      r.index.keys.count d.fullName = r'.index.keys.count d.fullName)
    {d : TypeDef} (hd : Known d) :
    StructDecl.describe r d = StructDecl.describe r' d := by
  have hfields : d.fields.mapM (FieldDecl.describe r (StructDecl.enterableNames r) d.name) =
      d.fields.mapM (FieldDecl.describe r' (StructDecl.enterableNames r') d.name) :=
    Result.mapM_congr fun f hf => FieldDecl.describe_eq hresolve hcount d.name hd hf
  rw [StructDecl.describe, StructDecl.describe, hfields]

end

/-! ## 3.  Repositories that are alike -/

namespace Repository

variable {ds ds' : List TypeDef} {r r' : Repository}

/-- Repositories that answer alike. -/
structure Alike (r r' : Repository) : Prop where
  find? : ∀ fullName, r.find? fullName = r'.find? fullName
  keys : r.index.keys.Perm r'.index.keys
  typesIn : ∀ namespaceName, (r.typesIn namespaceName).Perm (r'.typesIn namespaceName)

/-- **The order of the definitions does not matter.** -/
theorem alike_of_perm (h : (ds.map TypeDef.fullName).Nodup) (hperm : ds.Perm ds') :
    (ofList ds).Alike (ofList ds') := by
  have h' : (ds'.map TypeDef.fullName).Nodup := (hperm.map _).nodup_iff.1 h
  refine ⟨fun fullName => Option.ext fun d => ?_, ?_, fun ns => hperm.filter _⟩
  · rw [find?_ofList_eq_some h, find?_ofList_eq_some h', hperm.mem_iff]
  · rw [index_ofList h, index_ofList h']
    exact (hperm.map _).map _

namespace Alike

theorem symm (h : r.Alike r') : r'.Alike r :=
  ⟨fun k => (h.find? k).symm, h.keys.symm, fun ns => (h.typesIn ns).symm⟩

theorem refl (r : Repository) : r.Alike r :=
  ⟨fun _ => rfl, .refl _, fun _ => .refl _⟩

theorem findKey_eq (h : r.Alike r') : r.findKey = r'.findKey := by
  funext v
  rw [findKey.eq_def, findKey.eq_def]
  split
  · rw [h.find?]
  · rfl

theorem resolve_eq (h : r.Alike r') : r.resolve = r'.resolve := by
  funext ref
  rw [resolve, resolve, h.findKey_eq]

theorem lookup_eq (h : r.Alike r') : InterfaceDecl.lookup r = InterfaceDecl.lookup r' := by
  funext v
  unfold InterfaceDecl.lookup
  simp only [h.find?]

theorem interface?_eq (h : r.Alike r') : Session.interface? r = Session.interface? r' := by
  funext s fullName
  rw [Session.interface?, Session.interface?, h.find?]

theorem session_alike (h : r.Alike r') {s t : Session} (hst : s.Alike r t) : s.Alike r' t :=
  ⟨hst.names, fun k => by rw [← h.interface?_eq, hst.interface?]⟩

theorem describe_struct_eq (h : r.Alike r') (d : TypeDef) :
    StructDecl.describe r d = StructDecl.describe r' d := by
  have hknown : (fun _ : TypeDef => True) d := trivial
  exact StructDecl.describe_eq (fun _ _ _ => ⟨congrFun h.resolve_eq _, fun _ _ => trivial⟩)
    (fun _ => h.keys.count_eq _) hknown

end Alike

end Repository

end ComHeaders
