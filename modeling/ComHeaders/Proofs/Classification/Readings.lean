import ComHeaders.Classify.Namespace
import ComHeaders.Proofs.Pass

/-!
# Reading definitions

Classification adds definition by definition to tables.  What a definition adds is an `Entity`, and
adding it is a function of the declarations that cannot fail.  So classification comes apart into
describing, which looks at one definition at a time, and declaring.

## 1.  Entities

`ownEntity` and `sharedEntity` describe, for the two kinds of namespaces, and `declare` declares.

## 2.  Readings

A `Reading` is a way of adding definitions.  Most of them are described by themselves, but for an
interface the session is asked first.  There are two readings, one for the definitions of a
namespace itself and one for those it borrows.  Whatever is shown for readings holds for both.
-/

namespace ComHeaders

namespace Declarations

/-! ## 1.  Entities -/

/-- What one definition declares. -/
inductive Entity where
  | globals (constants : List (String × ConstantDecl)) (functions : List (String × MethodDecl))
  | enum (e : EnumDecl)
  | interface (i : InterfaceDecl)
  | struct (s : StructDecl)
  | delegate (m : MethodDecl)
  | nothing

/-- Sets the keys of a table one after the other. -/
def setAll {α : Type} (t : Table α) (entries : List (String × α)) : Table α :=
  entries.foldl (fun t e => t.set e.1 e.2) t

/-- Declares an entity under a name. -/
def declare (ds : Declarations) (name : String) : Entity → Declarations
  | .globals constants functions =>
    { ds with
      constants := setAll ds.constants constants
      functions := setAll ds.functions functions }
  | .enum e => { ds with enums := ds.enums.set name e }
  | .interface i => { ds with interfaces := ds.interfaces.set name i }
  | .struct s => { ds with structs := ds.structs.set name s }
  | .delegate m => { ds with delegates := ds.delegates.set name m }
  | .nothing => ds

/-- The constants and functions of a container. -/
def globalsEntity (d : TypeDef) : Except Failure Entity := do
  let constants ← d.fields.mapM fun f => do return (f.name, ← ConstantDecl.describe f)
  return .globals constants (d.methods.map fun m => (m.name, MethodDecl.describe m))

/-- What a definition of the namespace itself declares. -/
def ownEntity (r : Repository) (p : Profile) (d : TypeDef) : Except Failure Entity :=
  if d.name = globalsContainer then globalsEntity d
  else if d.isEnum then
    if p.excludedTypes.contains d.name then return .nothing
    else do return .enum (← EnumDecl.describe d)
  else if d.isInterface then do return .interface (← InterfaceDecl.ofDefinition d)
  else if d.isValueType then do return .struct (← StructDecl.describe r d)
  else if d.isDelegate then do return .delegate (← MethodDecl.describeDelegate d)
  else throw (.unsupportedShape d.fullName (.unknownBase d.baseType))

/-- What a definition of the shared namespace declares. -/
def sharedEntity (r : Repository) (p : Profile) (d : TypeDef) : Except Failure Entity :=
  if !p.sharedAllowList.contains d.name then return .nothing
  else if d.isEnum then do return .enum (← EnumDecl.describe d)
  else if d.isInterface then do return .interface (← InterfaceDecl.ofDefinition d)
  else if d.isValueType then do return .struct (← StructDecl.describe r d)
  else throw (.unsupportedShape d.fullName .notShareable)

/-- Declares what a definition declares. -/
def step (entity : TypeDef → Except Failure Entity) (ds : Declarations) (d : TypeDef) :
    Except Failure Declarations := do
  return ds.declare d.name (← entity d)

/-- Setting keys as they are described is describing them and then setting them. -/
theorem foldlM_set_eq {α β : Type} (name : α → String) (describe : α → Except Failure β)
    (l : List α) (t : Table β) :
    l.foldlM (fun t a => do return t.set (name a) (← describe a)) t =
      (do return setAll t (← l.mapM fun a => do return (name a, ← describe a))) := by
  induction l generalizing t with
  | nil => rfl
  | cons a l ih =>
    rw [List.foldlM_cons, List.mapM_cons]
    simp only [bind_assoc, pure_bind, ih]
    rfl

theorem addGlobals_eq (ds : Declarations) (d : TypeDef) :
    ds.addGlobals d = step globalsEntity ds d := by
  have hfunctions : d.methods.foldl (fun t m => t.set m.name (MethodDecl.describe m))
      ds.functions =
        setAll ds.functions (d.methods.map fun m => (m.name, MethodDecl.describe m)) := by
    rw [setAll, List.foldl_map]
  rw [addGlobals, foldlM_set_eq Field.name, step, globalsEntity, hfunctions]
  simp only [bind_assoc, pure_bind, declare]

/-- Whether an entity is the container of globals. -/
def Entity.isGlobals : Entity → Bool
  | .globals _ _ => true
  | _ => false

variable {r : Repository} {p : Profile} {ds : Declarations} {d : TypeDef} {s : Session}

theorem isGlobals_of_described {α : Type} {x : Except Failure α} {f : α → Entity} {e : Entity}
    (hf : ∀ a, (f a).isGlobals = false) (h : (do return f (← x)) = Except.ok e) :
    e.isGlobals = false := by
  rcases x with c | a
  · cases h
  · obtain rfl : f a = e := Except.ok.inj h
    exact hf a

/-- Only the container of globals is one. -/
theorem globals_ownEntity {d : TypeDef} {e : Entity} (h : ownEntity r p d = .ok e)
    (he : e.isGlobals = true) : d.name = globalsContainer := by
  by_contra hname
  have hnot : e.isGlobals = false := by
    rw [ownEntity, if_neg hname] at h
    split at h
    · split at h
      · obtain rfl : Entity.nothing = e := Except.ok.inj h
        rfl
      · exact isGlobals_of_described (fun _ => rfl) h
    split at h
    · exact isGlobals_of_described (fun _ => rfl) h
    split at h
    · exact isGlobals_of_described (fun _ => rfl) h
    split at h
    · exact isGlobals_of_described (fun _ => rfl) h
    · cases h
  rw [he] at hnot
  cases hnot

/-- No container of globals is borrowed. -/
theorem isGlobals_sharedEntity {d : TypeDef} {e : Entity} (h : sharedEntity r p d = .ok e) :
    e.isGlobals = false := by
  rw [sharedEntity] at h
  split at h
  · obtain rfl : Entity.nothing = e := Except.ok.inj h
    rfl
  split at h
  · exact isGlobals_of_described (fun _ => rfl) h
  split at h
  · exact isGlobals_of_described (fun _ => rfl) h
  split at h
  · exact isGlobals_of_described (fun _ => rfl) h
  · cases h

/-! ## 2.  Readings -/

/-- A way of adding definitions.  What is no interface is declared as it is described, which shows
in the session's journal at most.  An interface is described in the session. -/
structure Reading where
  add : Declarations → TypeDef → Pass Declarations
  entity : TypeDef → Except Failure Entity
  isInterface : TypeDef → Bool
  add_of_not : ∀ ds s {d}, isInterface d = false →
    ∃ j, (add ds d).perform s = (step entity ds d, { s with journal := j })
  add_of_isInterface : ∀ ds s {d}, isInterface d = true →
    ∃ j, (add ds d).perform s = (ds.addInterface d).perform { s with journal := j }
  entity_of_isInterface : ∀ {d}, isInterface d = true →
    entity d = do return .interface (← InterfaceDecl.ofDefinition d)
  isInterface_imp : ∀ {d}, isInterface d = true → d.isInterface = true
  name_of_globals : ∀ {d e}, entity d = .ok e → e.isGlobals = true → d.name = globalsContainer

theorem perform_described {α : Type} {x : Except Failure α} {f : α → Entity}
    {made : Except Failure Declarations} (hmade : made = do return ds.declare d.name (f (← x))) :
    (Pass.ofExcept made).perform s =
      ((do return ds.declare d.name (← (do return f (← x)))), s) := by
  rw [Pass.perform_ofExcept, hmade, bind_assoc]
  rfl

/-- Whether a definition of the namespace itself is added as an interface. -/
def isOwnInterface (d : TypeDef) : Bool :=
  d.name != globalsContainer && !d.isEnum && d.isInterface

theorem isOwnInterface_iff :
    isOwnInterface d = true ↔ (d.name ≠ globalsContainer ∧ ¬ d.isEnum = true) ∧
      d.isInterface = true := by
  simp [isOwnInterface]

/-- What is no interface is added as it is described. -/
theorem addOwn_of_not (h : isOwnInterface d = false) :
    ∃ j, (addOwn r p ds d).perform s = (step (ownEntity r p) ds d, { s with journal := j }) := by
  rw [addOwn, step, ownEntity]
  by_cases hglobals : d.name = globalsContainer
  · rw [if_pos hglobals, if_pos hglobals, addGlobals_eq]
    exact ⟨s.journal, rfl⟩
  rw [if_neg hglobals, if_neg hglobals]
  by_cases henum : d.isEnum = true
  · rw [if_pos henum, if_pos henum]
    split
    · exact ⟨_, rfl⟩
    · exact ⟨s.journal, perform_described rfl⟩
  rw [if_neg henum, if_neg henum]
  have hinterface : ¬ d.isInterface = true := by
    intro hinterface
    rw [isOwnInterface_iff.2 ⟨⟨hglobals, henum⟩, hinterface⟩] at h
    cases h
  rw [if_neg hinterface, if_neg hinterface]
  by_cases hstruct : d.isValueType = true
  · rw [if_pos hstruct, if_pos hstruct]
    exact ⟨s.journal, perform_described rfl⟩
  rw [if_neg hstruct, if_neg hstruct]
  by_cases hdelegate : d.isDelegate = true
  · rw [if_pos hdelegate, if_pos hdelegate]
    exact ⟨s.journal, perform_described rfl⟩
  rw [if_neg hdelegate, if_neg hdelegate]
  exact ⟨s.journal, rfl⟩

/-- The reading of a namespace's own definitions. -/
def ownReading (r : Repository) (p : Profile) : Reading where
  add := addOwn r p
  entity := ownEntity r p
  isInterface := isOwnInterface
  add_of_not _ _ := addOwn_of_not
  add_of_isInterface := by
    intro ds s d h
    obtain ⟨⟨hglobals, henum⟩, hinterface⟩ := isOwnInterface_iff.1 h
    rw [addOwn, if_neg hglobals, if_neg henum, if_pos hinterface]
    exact ⟨s.journal, rfl⟩
  entity_of_isInterface := by
    intro d h
    obtain ⟨⟨hglobals, henum⟩, hinterface⟩ := isOwnInterface_iff.1 h
    rw [ownEntity, if_neg hglobals, if_neg henum, if_pos hinterface]
  isInterface_imp h := (isOwnInterface_iff.1 h).2
  name_of_globals := globals_ownEntity

/-- Whether a definition of the shared namespace is added as an interface. -/
def isSharedInterface (p : Profile) (d : TypeDef) : Bool :=
  p.sharedAllowList.contains d.name && !d.isEnum && d.isInterface

theorem isSharedInterface_iff :
    isSharedInterface p d = true ↔
      (¬ (!p.sharedAllowList.contains d.name) = true ∧ ¬ d.isEnum = true) ∧
        d.isInterface = true := by
  simp [isSharedInterface]

/-- What is no interface is added as it is described. -/
theorem addShared_of_not (h : isSharedInterface p d = false) :
    ∃ j, (addShared r p ds d).perform s =
      (step (sharedEntity r p) ds d, { s with journal := j }) := by
  rw [addShared, step, sharedEntity]
  by_cases hforeign : (!p.sharedAllowList.contains d.name) = true
  · rw [if_pos hforeign, if_pos hforeign]
    exact ⟨s.journal, rfl⟩
  rw [if_neg hforeign, if_neg hforeign, Pass.perform_bind, Pass.perform_note]
  by_cases henum : d.isEnum = true
  · rw [if_pos henum, if_pos henum]
    exact ⟨_, perform_described rfl⟩
  rw [if_neg henum, if_neg henum]
  have hinterface : ¬ d.isInterface = true := by
    intro hinterface
    rw [isSharedInterface_iff.2 ⟨⟨hforeign, henum⟩, hinterface⟩] at h
    cases h
  rw [if_neg hinterface, if_neg hinterface]
  by_cases hstruct : d.isValueType = true
  · rw [if_pos hstruct, if_pos hstruct]
    exact ⟨_, perform_described rfl⟩
  rw [if_neg hstruct, if_neg hstruct]
  exact ⟨_, rfl⟩

/-- The reading of the definitions of a shared namespace. -/
def sharedReading (r : Repository) (p : Profile) : Reading where
  add := addShared r p
  entity := sharedEntity r p
  isInterface := isSharedInterface p
  add_of_not _ _ := addShared_of_not
  add_of_isInterface := by
    intro ds s d h
    obtain ⟨⟨hallowed, henum⟩, hinterface⟩ := isSharedInterface_iff.1 h
    rw [addShared, if_neg hallowed, if_neg henum, if_pos hinterface]
    exact ⟨_, rfl⟩
  entity_of_isInterface := by
    intro d h
    obtain ⟨⟨hallowed, henum⟩, hinterface⟩ := isSharedInterface_iff.1 h
    rw [sharedEntity, if_neg hallowed, if_neg henum, if_pos hinterface]
  isInterface_imp h := (isSharedInterface_iff.1 h).2
  name_of_globals he hglobals := by
    rw [isGlobals_sharedEntity he] at hglobals
    cases hglobals

theorem addInterface_yields (hfind : r.find? d.fullName = some d) (hd : d.isInterface = true) :
    Pass.Yields r (ds.addInterface d)
      (do
        let e ← (do return .interface (← InterfaceDecl.ofDefinition d) : Except Failure Entity)
        return ds.declare d.name e) := by
  rw [bind_assoc]
  exact (InterfaceDecl.describe_yields hfind hd).bind fun i => .pure _

/-- Adding a definition that is found under its own name is declaring its entity. -/
theorem Reading.yields (m : Reading) (hfind : r.find? d.fullName = some d) :
    Pass.Yields r (m.add ds d) (step m.entity ds d) := by
  intro s hs
  have hjournal (j : Journal) : Session.Alike r { s with journal := j } {} :=
    (Session.Alike.journal r s j).symm.trans hs
  by_cases hd : m.isInterface d = true
  · obtain ⟨j, hj⟩ := m.add_of_isInterface ds s hd
    rw [hj, step, m.entity_of_isInterface hd]
    exact addInterface_yields hfind (m.isInterface_imp hd) _ (hjournal j)
  · rw [Bool.not_eq_true] at hd
    obtain ⟨j, hj⟩ := m.add_of_not ds s hd
    exact ⟨_, hj, hjournal j⟩

end Declarations

end ComHeaders
