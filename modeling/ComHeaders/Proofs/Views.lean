import ComHeaders.Proofs.Metadata.Reading
import ComHeaders.Proofs.Repositories
import Mathlib.Data.List.FinRange
import Mathlib.Data.String.Basic

/-!
# The views of a repository

A repository is asked in three ways: by a full name, by a reference, and by a namespace.  The first
two go through the index and the third one through the list, so it is not plain that they speak of
the same definitions.  Here each answer is told by the list alone, repetitions included.

## 1.  Full names and layers

`TypeDef.Bears` says which full name a definition bears, and `TypeRef.within` puts layers of
pointers and arrays around a reference.  Layers do not matter to where a reference leads
(`resolve_within`), and a reference to a definition is looked up under the name that the definition
bears (`resolve_reference`).

## 2.  Namespaces

Values need not have an order, but texts do.  Gathering them leaves each text once
(`foldl_insertKey`), and putting them in order one by one keeps what is there strictly increasing
(`insertOrdered_text`, `foldlM_insertOrdered`).  So namespaces that are texts can be listed
(`exists_namespaces`).

## 3.  Positions

A list may hold one definition twice, and then membership does not tell the two apart.  What is
enumerated is therefore told by positions: `Enumerates` asks for every position of a top-level
definition once, by namespace first and by position within a namespace.

## 4.  All views

`build_shows` puts them together.
-/

namespace ComHeaders

/-! ## 1.  Full names and layers -/

namespace TypeDef

/-- The full name that a definition bears.  A declaring type goes before a namespace, and either
counts only if it is not empty. -/
inductive Bears (d : TypeDef) : String → Prop where
  | nested (h : d.declaringType.truthy = true) :
    d.Bears (d.declaringType.text ++ "/" ++ d.name)
  | qualified (h : d.declaringType.truthy = false) (hns : d.namespaceName.truthy = true) :
    d.Bears (d.namespaceName.text ++ "." ++ d.name)
  | bare (h : d.declaringType.truthy = false) (hns : d.namespaceName.truthy = false) :
    d.Bears d.name

/-- A definition bears one full name. -/
theorem bears_iff {d : TypeDef} {fullName : String} : d.Bears fullName ↔ d.fullName = fullName := by
  constructor
  · rintro (h | ⟨h, hns⟩ | ⟨h, hns⟩) <;> simp [TypeDef.fullName, TypeRef.qualify, *]
  · rintro rfl
    rw [TypeDef.fullName, TypeRef.qualify]
    cases h : d.declaringType.truthy with
    | true => exact .nested h
    | false =>
      cases hns : d.namespaceName.truthy with
      | true => exact .qualified h hns
      | false => exact .bare h hns

/-- A reference to a definition by its namespace, its name and its declaring type. -/
def reference (d : TypeDef) (isValueType : Bool) : TypeRef :=
  .named d.namespaceName (.str d.name) d.declaringType isValueType

end TypeDef

/-- A layer around a reference. -/
inductive Layer where
  | pointer
  | array (length : Int)

/-- A reference with one layer around it. -/
def Layer.around : Layer → TypeRef → TypeRef
  | pointer, r => .pointer r
  | array length, r => .array r length

/-- A reference with layers around it, the outermost one first. -/
def TypeRef.within (layers : List Layer) (r : TypeRef) : TypeRef := layers.foldr Layer.around r

theorem TypeRef.innermost_within (layers : List Layer) (r : TypeRef) :
    (r.within layers).innermost = r.innermost := by
  induction layers with
  | nil => rfl
  | cons layer layers ih => cases layer <;> exact ih

namespace Repository

variable {ds : List TypeDef} {ns : String}

theorem resolve_within (r : Repository) (layers : List Layer) (ref : TypeRef) :
    r.resolve (ref.within layers) = r.resolve ref := by
  rw [resolve, resolve, TypeRef.innermost_within]

theorem resolve_reference (r : Repository) (d : TypeDef) (isValueType : Bool) :
    r.resolve (d.reference isValueType) = .ok (r.find? d.fullName) :=
  r.resolve_of_innermost rfl

/-! ## 2.  Namespaces -/

/-- Texts are gathered without repetitions. -/
theorem foldl_insertKey {seen : List String} (hseen : seen.Nodup) (texts : List String) :
    ∃ keys : List String,
      (texts.map Value.str).foldl insertKey (seen.map Value.str) = keys.map Value.str ∧
        keys.Nodup ∧ ∀ s, s ∈ keys ↔ s ∈ seen ∨ s ∈ texts := by
  induction texts generalizing seen with
  | nil => exact ⟨seen, rfl, hseen, by simp⟩
  | cons t texts ih =>
    -- Among texts, to be the same key is to be equal.
    have hany : (seen.map Value.str).any ((Value.str t).sameKey ·) = true ↔ t ∈ seen := by
      simp [Value.sameKey_str]
    rw [List.map_cons, List.foldl_cons, insertKey]
    by_cases ht : t ∈ seen
    · rw [if_pos (hany.2 ht)]
      obtain ⟨keys, hkeys, hnodup, hmem⟩ := ih hseen
      refine ⟨keys, hkeys, hnodup, fun s => ?_⟩
      rw [hmem, List.mem_cons]
      grind
    · have hseen' : (seen ++ [t]).Nodup :=
        List.nodup_append.2 ⟨hseen, List.nodup_singleton t, fun a ha b hb heq =>
          ht (List.mem_singleton.1 hb ▸ heq ▸ ha)⟩
      rw [if_neg (mt hany.1 ht), ← List.map_singleton, ← List.map_append]
      obtain ⟨keys, hkeys, hnodup, hmem⟩ := ih hseen'
      refine ⟨keys, hkeys, hnodup, fun s => ?_⟩
      rw [hmem, List.mem_append, List.mem_singleton, List.mem_cons, or_assoc]

/-- A new text is put in its place among texts in order. -/
theorem insertOrdered_text {t : String} {sorted : List String} (h : sorted.Pairwise (· < ·))
    (ht : t ∉ sorted) :
    ∃ sorted' : List String,
      insertOrdered (.str t) (sorted.map Value.str) = .ok (sorted'.map Value.str) ∧
        sorted'.Pairwise (· < ·) ∧ sorted'.Perm (t :: sorted) := by
  induction sorted with
  | nil => exact ⟨[t], rfl, List.pairwise_singleton _ _, .refl _⟩
  | cons w rest ih =>
    obtain ⟨hw, hrest⟩ := List.pairwise_cons.1 h
    rw [List.map_cons, insertOrdered, Value.before?]
    by_cases hlt : t < w
    · refine ⟨t :: w :: rest, ?_, ?_, .refl _⟩
      · rw [decide_eq_true hlt]
        rfl
      · refine List.pairwise_cons.2 ⟨fun s hs => ?_, h⟩
        rcases List.mem_cons.1 hs with rfl | hs
        · exact hlt
        · exact hlt.trans (hw s hs)
    · have hne : w ≠ t := fun heq => ht (heq ▸ List.mem_cons_self)
      have hwt : w < t := lt_of_le_of_ne (not_lt.1 hlt) hne
      obtain ⟨sorted', hsorted', hpairwise, hperm⟩ :=
        ih hrest fun hmem => ht (List.mem_cons_of_mem w hmem)
      refine ⟨w :: sorted', ?_, ?_, (hperm.cons w).trans (.swap t w rest)⟩
      · rw [decide_eq_false hlt, hsorted']
        rfl
      · refine List.pairwise_cons.2 ⟨fun s hs => ?_, hpairwise⟩
        rcases List.mem_cons.1 (hperm.mem_iff.1 hs) with rfl | hs
        · exact hwt
        · exact hw s hs

/-- Distinct texts are put in order one by one, among those that are in order already. -/
theorem foldlM_insertOrdered {done texts : List String} (hdone : done.Pairwise (· < ·))
    (h : (done ++ texts).Nodup) :
    ∃ sorted : List String,
      (texts.map Value.str).foldlM (fun sorted v => insertOrdered v sorted) (done.map Value.str) =
          .ok (sorted.map Value.str) ∧
        sorted.Pairwise (· < ·) ∧ ∀ s, s ∈ sorted ↔ s ∈ done ++ texts := by
  induction texts generalizing done with
  | nil => exact ⟨done, rfl, hdone, by simp⟩
  | cons t texts ih =>
    have ht : t ∉ done := fun hmem => (List.nodup_append.1 h).2.2 t hmem t List.mem_cons_self rfl
    obtain ⟨done', hinsert, hdone', hperm⟩ := insertOrdered_text hdone ht
    -- The text changes sides, so all texts together stay distinct.
    have hmoved : (done' ++ texts).Perm (done ++ t :: texts) :=
      (hperm.append_right texts).trans List.perm_middle.symm
    obtain ⟨sorted, hfold, hsorted, hmem⟩ := ih hdone' (hmoved.nodup_iff.2 h)
    refine ⟨sorted, ?_, hsorted, fun s => (hmem s).trans hmoved.mem_iff⟩
    rw [List.map_cons, List.foldlM_cons, hinsert]
    exact hfold

theorem map_namespaceName (h : ∀ d ∈ ds, ∃ ns, d.namespaceName = .str ns) :
    (ds.filter fun d => !d.isNested).map (·.namespaceName) =
      ((ds.filter fun d => !d.isNested).map (·.namespaceName.text)).map Value.str := by
  rw [List.map_map]
  refine List.map_congr_left fun d hd => ?_
  obtain ⟨ns, hns⟩ := h d (List.mem_of_mem_filter hd)
  simp [hns]

/-- **Namespaces that are texts can be listed**, each of them once and in order. -/
theorem exists_namespaces (h : ∀ d ∈ ds, ∃ ns, d.namespaceName = .str ns) :
    ∃ names : List String, (ofList ds).namespaces = .ok (names.map Value.str) ∧
      names.Pairwise (· < ·) ∧
        ∀ ns, ns ∈ names ↔ ∃ d ∈ ds, d.namespaceName = .str ns ∧ d.declaringType = .null := by
  obtain ⟨texts, htexts⟩ : ∃ texts : List String,
      ((ofList ds).definitions.filter fun d => !d.isNested).map (·.namespaceName) =
        texts.map Value.str := ⟨_, map_namespaceName h⟩
  obtain ⟨keys, hkeys, hnodup, hmem⟩ := foldl_insertKey List.nodup_nil texts
  obtain ⟨names, hnames, hsorted, hnamesMem⟩ := foldlM_insertOrdered .nil hnodup
  refine ⟨names, ?_, hsorted, fun ns => ?_⟩
  · have hkey : ((texts.map Value.str).any fun v => !v.isKey) = false := by simp [Value.isKey]
    have horder : orderValues ((texts.map Value.str).foldl insertKey []) =
        .ok (names.map Value.str) := by
      rw [← List.map_nil, hkeys]
      exact hnames
    rw [namespaces, htexts, hkey]
    exact horder
  · have htext : ns ∈ texts ↔ Value.str ns ∈ texts.map Value.str := by simp
    rw [hnamesMem, List.nil_append, hmem, htext, ← htexts, List.mem_map]
    simp only [List.not_mem_nil, false_or, List.mem_filter, TypeDef.not_isNested]
    constructor
    · rintro ⟨d, ⟨hd, htop⟩, hns⟩
      exact ⟨d, hd, hns, htop⟩
    · rintro ⟨d, hd, hns, htop⟩
      exact ⟨d, ⟨hd, htop⟩, hns⟩

/-! ## 3.  Positions -/

/-- The positions of the top-level definitions of a namespace, in order. -/
def positionsIn (ds : List TypeDef) (ns : String) : List (Fin ds.length) :=
  (List.finRange ds.length).filter fun i =>
    ds[i].namespaceName.equals (.str ns) && !ds[i].isNested

theorem mem_positionsIn {i : Fin ds.length} :
    i ∈ positionsIn ds ns ↔ ds[i].namespaceName = .str ns ∧ ds[i].declaringType = .null := by
  simp only [positionsIn, List.mem_filter, List.mem_finRange, true_and, Bool.and_eq_true,
    Value.equals_str, TypeDef.not_isNested]

theorem typesIn_ofList (ds : List TypeDef) (ns : String) :
    (ofList ds).typesIn (.str ns) = (positionsIn ds ns).map ds.get := by
  have hds : (ofList ds).definitions = (List.finRange ds.length).map ds.get :=
    (List.map_get_finRange ds).symm
  rw [typesIn, hds, List.filter_map]
  rfl

/-- The top-level definitions, one namespace after the other. -/
def enumeration (r : Repository) : Except Fault (List TypeDef) :=
  return (← r.namespaces).flatMap r.typesIn

/-- Positions enumerate the top-level definitions of a list. -/
structure Enumerates (ds : List TypeDef) (positions : List (Fin ds.length)) : Prop where
  /-- The definitions that no other definition declares, and only those. -/
  mem_iff : ∀ i, i ∈ positions ↔ ds[i].declaringType = .null
  /-- Each of them once. -/
  nodup : positions.Nodup
  /-- Lesser namespaces come first, and within a namespace what comes first in the list. -/
  ordered : positions.Pairwise fun i j =>
    ds[i].namespaceName.text < ds[j].namespaceName.text ∨
      ds[i].namespaceName = ds[j].namespaceName ∧ i < j

/-- Namespace by namespace, every top-level definition is enumerated. -/
theorem enumerates_flatMap {names : List String} (hsorted : names.Pairwise (· < ·))
    (hmem : ∀ ns, ns ∈ names ↔
      ∃ d ∈ ds, d.namespaceName = .str ns ∧ d.declaringType = .null)
    (h : ∀ d ∈ ds, ∃ ns, d.namespaceName = .str ns) :
    Enumerates ds (names.flatMap (positionsIn ds)) := by
  have hordered : (names.flatMap (positionsIn ds)).Pairwise fun i j =>
      ds[i].namespaceName.text < ds[j].namespaceName.text ∨
        ds[i].namespaceName = ds[j].namespaceName ∧ i < j := by
    refine List.pairwise_flatMap.2 ⟨fun ns _ => ?_, hsorted.imp fun hlt i hi j hj => ?_⟩
    · refine ((List.pairwise_lt_finRange _).filter _).imp_of_mem fun hi hj hlt => ?_
      have hi := mem_positionsIn.1 hi
      have hj := mem_positionsIn.1 hj
      exact .inr ⟨hi.1.trans hj.1.symm, hlt⟩
    · rw [(mem_positionsIn.1 hi).1, (mem_positionsIn.1 hj).1]
      exact .inl hlt
  refine ⟨fun i => ?_, hordered.imp ?_, hordered⟩
  · rw [List.mem_flatMap]
    constructor
    · rintro ⟨ns, -, hi⟩
      exact (mem_positionsIn.1 hi).2
    · intro htop
      obtain ⟨ns, hns⟩ := h ds[i] (List.getElem_mem _)
      exact ⟨ns, (hmem ns).2 ⟨ds[i], List.getElem_mem _, hns, htop⟩, mem_positionsIn.2 ⟨hns, htop⟩⟩
  · rintro i j (hlt | ⟨-, hlt⟩) rfl
    · exact lt_irrefl _ hlt
    · exact lt_irrefl _ hlt

/-! ## 4.  All views -/

/-- The answers of a repository are those of a list of definitions. -/
structure Shows (r : Repository) (ds : List TypeDef) : Prop where
  /-- Under a full name the first definition is found that bears it. -/
  find?_eq_some_iff : ∀ fullName d, r.find? fullName = some d ↔
    ∃ before after, ds = before ++ d :: after ∧ d.Bears fullName ∧
      ∀ e ∈ before, ¬e.Bears fullName
  /-- Nothing is found exactly if there is none. -/
  find?_eq_none_iff : ∀ fullName, r.find? fullName = none ↔ ∀ d ∈ ds, ¬d.Bears fullName
  /-- A reference to a definition, of the list or not, leads to what is found under its full
  name. -/
  resolve_named : ∀ layers (d : TypeDef) isValueType, d.Bears d.fullName ∧
    r.resolve ((d.reference isValueType).within layers) = .ok (r.find? d.fullName)
  resolve_void : ∀ layers, r.resolve (TypeRef.void.within layers) = .ok none
  resolve_primitive : ∀ layers name,
    r.resolve ((TypeRef.primitive name).within layers) = .ok none
  /-- The namespaces of the top-level definitions are listed in strict order. -/
  namespaces : ∃ names : List String, r.namespaces = .ok (names.map Value.str) ∧
    names.Pairwise (· < ·) ∧
      ∀ ns, ns ∈ names ↔ ∃ d ∈ ds, d.namespaceName = .str ns ∧ d.declaringType = .null
  /-- Going through the namespaces enumerates the top-level definitions. -/
  enumeration : ∃ positions : List (Fin ds.length),
    r.enumeration = .ok (positions.map ds.get) ∧ Enumerates ds positions

/-- **The views of a repository fit together.**  From definitions whose namespaces and names are texts
a repository is built, and whatever it is asked, its answers are those of the list. -/
theorem build_shows (h : ∀ d ∈ ds, ∃ ns, d.namespaceName = .str ns) :
    ∃ r, (build (ds.map (.mapNames .str))).perform.1 = .ok r ∧ r.Shows ds := by
  obtain ⟨names, hnames, hsorted, hmem⟩ := exists_namespaces h
  refine ⟨ofList ds, (build_perform_fst _).trans (built_texts ds), ?_⟩
  constructor
  case find?_eq_some_iff =>
    intro fullName d
    rw [find?_ofList, List.find?_eq_some_iff_append]
    simp only [TypeDef.bears_iff, decide_eq_true_eq, Bool.not_eq_true', decide_eq_false_iff_not]
    constructor
    · rintro ⟨hd, before, after, hds, hbefore⟩
      exact ⟨before, after, hds, hd, hbefore⟩
    · rintro ⟨before, after, hds, hd, hbefore⟩
      exact ⟨hd, before, after, hds, hbefore⟩
  case find?_eq_none_iff =>
    intro fullName
    rw [find?_ofList, List.find?_eq_none]
    simp only [TypeDef.bears_iff, decide_eq_true_eq]
  case resolve_named =>
    intro layers d isValueType
    rw [resolve_within, resolve_reference]
    exact ⟨TypeDef.bears_iff.2 rfl, rfl⟩
  case resolve_void =>
    intro layers
    rw [resolve_within]
    rfl
  case resolve_primitive =>
    intro layers name
    rw [resolve_within]
    rfl
  case namespaces =>
    exact ⟨names, hnames, hsorted, hmem⟩
  case enumeration =>
    refine ⟨names.flatMap (positionsIn ds), ?_, enumerates_flatMap hsorted hmem h⟩
    rw [Repository.enumeration, hnames, List.map_flatMap]
    show Except.ok ((names.map Value.str).flatMap (ofList ds).typesIn) = _
    rw [List.flatMap_map]
    simp only [typesIn_ofList]

/-- A struct without fields. -/
def placed (namespaceName name : String) (declaringType : Value) : TypeDef where
  namespaceName := .str namespaceName
  name := name
  isInterface := false
  baseType := .str "System.ValueType"
  declaringType := declaringType
  explicitLayout := false
  interfaces := []
  fields := []
  methods := []
  attributes := []

/-- Two namespaces in turn, with a definition that is nested in another one, one whose declaring
type is empty, and one that repeats the first. -/
def scatteredShapes : List TypeDef := [
  placed "Shapes" "POINT" .null,
  placed "Roots" "POINT" .null,
  placed "" "SIDE" (.str "Shapes.POINT"),
  placed "Shapes" "EDGE" (.str ""),
  { placed "Shapes" "POINT" .null with isInterface := true }]

/-- They are shown as they stand. -/
theorem scatteredShapes_shown :
    (∀ d ∈ scatteredShapes, ∃ ns, d.namespaceName = .str ns) ∧
      ∃ r, (build (scatteredShapes.map (.mapNames .str))).perform.1 = .ok r ∧
        r.Shows scatteredShapes := by
  have htexts : ∀ d ∈ scatteredShapes, ∃ ns, d.namespaceName = .str ns := by
    simp [scatteredShapes, placed]
  exact ⟨htexts, build_shows htexts⟩

example : (ofList scatteredShapes).enumeration.toOption.map (·.map TypeDef.fullName) =
    some ["Roots.POINT", "Shapes.POINT", "Shapes.POINT"] := by
  decide

end Repository

end ComHeaders
