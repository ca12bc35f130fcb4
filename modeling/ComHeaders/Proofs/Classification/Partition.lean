import ComHeaders.Proofs.Classification.Absorption
import ComHeaders.Proofs.Repositories

/-!
# Nothing is left out

A definition does not say what it is.  Classification finds out, from the name, the base type and
the interface flag, and these overlap: an enum is a value type, and an interface may be based on
anything.  A definition that falls between the kinds would vanish from the header without a word,
and one that falls into two would be declared twice.  This file proves that neither happens.

## 1.  Kinds

A declaration has one of six kinds, each with a table of its own (`Declarations.keysOf`).  What kind
a definition has is said by `TypeDef.IsOfKind`.  The kinds exclude each other, and a definition may
have none.

## 2.  One definition

What a definition of the namespace itself declares, and what a borrowed one does, is said key by key
(`TypeDef.OwnKey`, `TypeDef.SharedKey`).  If such a definition can be added, it has a kind that is
permitted, and these keys are those that it adds (`own_told`, `shared_told`).  What it declares
under them is what it describes (`isOf_ownEntity`, `isOf_sharedEntity`).

## 3.  All definitions

The keys of a run are those that were there and those of each definition (`keysOf_foldlM`), and what
is kept under them was told by these definitions (`keeps_foldlM`).  So the tables of a header hold
what the definitions of both namespaces declare and nothing else, and a definition that has no
permitted kind ends the run (`classify_partition`).
-/

namespace ComHeaders

/-! ## 1.  Kinds -/

/-- The kinds of declarations. -/
inductive DeclarationKind where
  | constant
  | function
  | enum
  | interface
  | struct
  | delegate
  deriving DecidableEq, Repr

/-- Whether declarations of a kind can be borrowed. -/
def DeclarationKind.IsShareable (kind : DeclarationKind) : Prop :=
  kind = .enum ∨ kind = .interface ∨ kind = .struct

namespace TypeDef

/-- What kind a definition has, unless it is the container of globals.  An enum is one even if it is
flagged as an interface, and an interface is one whatever else it is based on. -/
def IsOfKind (d : TypeDef) : DeclarationKind → Prop
  | .enum => d.baseType = .str "System.Enum"
  | .interface => d.baseType ≠ .str "System.Enum" ∧ d.isInterface = true
  | .struct => d.baseType = .str "System.ValueType" ∧ d.isInterface = false
  | .delegate => d.baseType = .str "System.MulticastDelegate" ∧ d.isInterface = false
  | .constant | .function => False

/-- **No definition has two kinds.** -/
theorem IsOfKind.unique {d : TypeDef} {kind kind' : DeclarationKind} (h : d.IsOfKind kind)
    (h' : d.IsOfKind kind') : kind = kind' := by
  rcases kind <;> rcases kind' <;> simp_all [IsOfKind]

end TypeDef

namespace TypeDef

variable {d : TypeDef}

theorem isEnum_iff : d.isEnum = true ↔ d.baseType = .str "System.Enum" :=
  Value.sameKey_str

theorem isDelegate_iff : d.isDelegate = true ↔ d.baseType = .str "System.MulticastDelegate" :=
  Value.sameKey_str

theorem isValueType_iff :
    d.isValueType = true ↔ d.baseType = .str "System.ValueType" ∨ d.isEnum = true := by
  rw [isValueType, Bool.or_eq_true, Value.sameKey_str]

end TypeDef

namespace Declarations

/-- The names under which declarations of a kind are kept. -/
def keysOf (ds : Declarations) : DeclarationKind → List String
  | .constant => ds.constants.keys
  | .function => ds.functions.keys
  | .enum => ds.enums.keys
  | .interface => ds.interfaces.keys
  | .struct => ds.structs.keys
  | .delegate => ds.delegates.keys

/-- The kind of an entity that is declared under its name. -/
def Entity.kind? : Entity → Option DeclarationKind
  | .enum _ => some .enum
  | .interface _ => some .interface
  | .struct _ => some .struct
  | .delegate _ => some .delegate
  | .globals _ _ | .nothing => none

/-- The names that an entity of a given name declares. -/
def Entity.keysOf (name : String) (e : Entity) (kind : DeclarationKind) : List String :=
  match e, kind with
  | .globals constants _, .constant => constants.map Prod.fst
  | .globals _ functions, .function => functions.map Prod.fst
  | e, kind => if e.kind? = some kind then [name] else []

variable {ds ds' : Declarations} {name k : String} {e : Entity} {kind kind' : DeclarationKind}

theorem mem_keys_setAll_iff {α : Type} {t : Table α} {l : List (String × α)} :
    k ∈ (setAll t l).keys ↔ k ∈ t.keys ∨ k ∈ l.map Prod.fst := by
  induction l generalizing t with
  | nil => simp [setAll]
  | cons e l ih =>
    show k ∈ (setAll (t.set e.1 e.2) l).keys ↔ _
    rw [ih, Table.mem_keys_set, List.map_cons, List.mem_cons]
    grind

theorem nodup_keys_setAll {α : Type} {t : Table α} {l : List (String × α)} (h : t.keys.Nodup) :
    (setAll t l).keys.Nodup := by
  induction l generalizing t with
  | nil => exact h
  | cons e l ih => exact ih (Table.nodup_keys_set h)

theorem mem_keysOf_declare :
    k ∈ (ds.declare name e).keysOf kind ↔ k ∈ ds.keysOf kind ∨ k ∈ e.keysOf name kind := by
  rcases e with ⟨cs, fs⟩ | x | x | x | x | _ <;> rcases kind <;>
    simp [declare, keysOf, Entity.keysOf, Entity.kind?, mem_keys_setAll_iff, Table.mem_keys_set,
      or_comm]

/-- Declaring an entity repeats no name. -/
theorem nodup_keysOf_declare (h : ∀ kind, (ds.keysOf kind).Nodup) :
    ((ds.declare name e).keysOf kind).Nodup := by
  have hkind := h kind
  rcases e with ⟨cs, fs⟩ | x | x | x | x | _ <;> rcases kind
  case globals.constant => exact nodup_keys_setAll hkind
  case globals.function => exact nodup_keys_setAll hkind
  case enum.enum => exact Table.nodup_keys_set hkind
  case interface.interface => exact Table.nodup_keys_set hkind
  case struct.struct => exact Table.nodup_keys_set hkind
  case delegate.delegate => exact Table.nodup_keys_set hkind
  -- All other tables stay as they are.
  all_goals exact hkind

/-- An entity of some kind declares its own name in the table of that kind. -/
theorem Entity.mem_keysOf (h : e.kind? = some kind) :
    k ∈ e.keysOf name kind' ↔ kind' = kind ∧ k = name := by
  have hkeys : e.keysOf name kind' = if e.kind? = some kind' then [name] else [] := by
    rcases e with ⟨cs, fs⟩ | x | x | x | x | _ <;> rcases kind' <;> first | rfl | cases h
  by_cases hkind : kind' = kind
  · subst hkind
    rw [hkeys, if_pos h, List.mem_singleton]
    exact ⟨fun hk => ⟨rfl, hk⟩, fun hk => hk.2⟩
  · have hother : e.kind? ≠ some kind' := fun h' => hkind (Option.some.inj (h'.symm.trans h))
    rw [hkeys, if_neg hother]
    exact ⟨fun hk => (List.not_mem_nil hk).elim, fun hk => absurd hk.1 hkind⟩

/-- An entity is declared under a name. -/
def Keeps (ds : Declarations) (k : String) : Entity → Prop
  | .enum e => (k, e) ∈ ds.enums
  | .interface i => (k, i) ∈ ds.interfaces
  | .struct s => (k, s) ∈ ds.structs
  | .delegate m => (k, m) ∈ ds.delegates
  | .globals _ _ | .nothing => False

/-- Declaring an entity adds none but that one. -/
theorem keeps_declare {e' : Entity} (h : (ds.declare name e').Keeps k e) :
    (k = name ∧ e = e') ∨ ds.Keeps k e := by
  have hset {α : Type} {t : Table α} {v v' : α} (hmem : (k, v) ∈ t.set name v') :
      (k = name ∧ v = v') ∨ (k, v) ∈ t := (Table.mem_set hmem).imp_left Prod.mk.inj
  rcases e with ⟨cs, fs⟩ | x | x | x | x | _ <;> rcases e' with ⟨cs', fs'⟩ | y | y | y | y | _
  case enum.enum => exact (hset h).imp_left fun heq => ⟨heq.1, congrArg _ heq.2⟩
  case interface.interface => exact (hset h).imp_left fun heq => ⟨heq.1, congrArg _ heq.2⟩
  case struct.struct => exact (hset h).imp_left fun heq => ⟨heq.1, congrArg _ heq.2⟩
  case delegate.delegate => exact (hset h).imp_left fun heq => ⟨heq.1, congrArg _ heq.2⟩
  -- All other tables stay as they are.
  all_goals exact .inr h

/-! ## 2.  One definition -/

end Declarations

variable {r : Repository} {p : Profile} {d : TypeDef} {kind kind' : DeclarationKind} {k : String}

/-- The names that a definition of the namespace itself declares.  The container of globals declares
its fields and methods, an excluded enum declares nothing, and all others declare their own name. -/
def TypeDef.OwnKey (p : Profile) (d : TypeDef) (kind : DeclarationKind) (k : String) : Prop :=
  if d.name = globalsContainer then
    (kind = .constant ∧ k ∈ d.fields.map Field.name) ∨
      (kind = .function ∧ k ∈ d.methods.map Method.name)
  else d.IsOfKind kind ∧ (kind = .enum → d.name ∉ p.excludedTypes) ∧ k = d.name

/-- The names that a definition of the shared namespace declares. -/
def TypeDef.SharedKey (p : Profile) (d : TypeDef) (kind : DeclarationKind) (k : String) : Prop :=
  d.name ∈ p.sharedAllowList ∧ kind.IsShareable ∧ d.IsOfKind kind ∧ k = d.name

namespace Declarations

open Reading

variable {t : Table InterfaceDecl} {e : Entity} {ds ds' : Declarations} {s s' : Session}

theorem kind_of_described {α : Type} {x : Except Failure α} {f : α → Entity}
    (hf : ∀ a, (f a).kind? = some kind) (h : (do return f (← x)) = Except.ok e) :
    e.kind? = some kind := by
  obtain ⟨a, -, ha⟩ := Result.bind_eq_ok.1 h
  obtain rfl : f a = e := Except.ok.inj ha
  exact hf a

/-- Describing entries keeps their names. -/
theorem map_fst_of_described {α β : Type} {name : α → String} {describe : α → Except Failure β}
    {l : List α} {entries : List (String × β)}
    (h : (l.mapM fun a => do return (name a, ← describe a)) = .ok entries) :
    entries.map Prod.fst = l.map name := by
  induction l generalizing entries with
  | nil =>
    obtain rfl := Except.ok.inj h
    rfl
  | cons a l ih =>
    rw [List.mapM_cons] at h
    obtain ⟨entry, hentry, h⟩ := Result.bind_eq_ok.1 h
    obtain ⟨b, -, hb⟩ := Result.bind_eq_ok.1 hentry
    obtain rfl := Except.ok.inj hb
    obtain ⟨rest, hrest, hentries⟩ := Result.bind_eq_ok.1 h
    obtain rfl := Except.ok.inj hentries
    rw [List.map_cons, List.map_cons, ih hrest]

theorem keysOf_globals (h : globalsEntity d = .ok e) :
    k ∈ e.keysOf d.name kind ↔
      (kind = .constant ∧ k ∈ d.fields.map Field.name) ∨
        (kind = .function ∧ k ∈ d.methods.map Method.name) := by
  obtain ⟨constants, hconstants, hrest⟩ := Result.bind_eq_ok.1 h
  obtain rfl := Except.ok.inj hrest
  have hfields := map_fst_of_described hconstants
  rcases kind <;> simp [Entity.keysOf, Entity.kind?, hfields]

theorem isOfKind_interface (henum : ¬ d.isEnum = true) (hd : d.isInterface = true) :
    d.IsOfKind .interface :=
  ⟨fun hbase => henum (TypeDef.isEnum_iff.2 hbase), hd⟩

theorem isOfKind_struct (henum : ¬ d.isEnum = true) (hinterface : ¬ d.isInterface = true)
    (hd : d.isValueType = true) : d.IsOfKind .struct :=
  ⟨(TypeDef.isValueType_iff.1 hd).resolve_right henum, Bool.eq_false_iff.2 hinterface⟩

/-- An entity is what a definition describes. -/
def Entity.IsOf (r : Repository) (d : TypeDef) : Entity → Prop
  | .globals constants functions => globalsEntity d = .ok (.globals constants functions)
  | .enum e => EnumDecl.describe d = .ok e
  | .interface i => InterfaceDecl.ofDefinition d = .ok i
  | .struct s => StructDecl.describe r d = .ok s
  | .delegate m => MethodDecl.describeDelegate d = .ok m
  | .nothing => True

theorem isOf_of_described {α : Type} {x : Except Failure α} {f : α → Entity}
    (h : (do return f (← x)) = Except.ok e) (hf : ∀ a, x = .ok a → (f a).IsOf r d) :
    e.IsOf r d := by
  obtain ⟨a, ha, h⟩ := Result.bind_eq_ok.1 h
  obtain rfl : f a = e := Except.ok.inj h
  exact hf a ha

/-- **A definition of the namespace itself** declares what it describes. -/
theorem isOf_ownEntity (h : ownEntity r p d = .ok e) : e.IsOf r d := by
  rw [ownEntity] at h
  split at h
  · have hglobals := h
    obtain ⟨constants, -, h⟩ := Result.bind_eq_ok.1 h
    obtain rfl := Except.ok.inj h
    exact hglobals
  split at h
  · split at h
    · obtain rfl := Except.ok.inj h
      trivial
    · exact isOf_of_described h fun _ hx => hx
  split at h
  · exact isOf_of_described h fun _ hx => hx
  split at h
  · exact isOf_of_described h fun _ hx => hx
  split at h
  · exact isOf_of_described h fun _ hx => hx
  · cases h

/-- So does one of the shared namespace. -/
theorem isOf_sharedEntity (h : sharedEntity r p d = .ok e) : e.IsOf r d := by
  rw [sharedEntity] at h
  split at h
  · obtain rfl := Except.ok.inj h
    trivial
  split at h
  · exact isOf_of_described h fun _ hx => hx
  split at h
  · exact isOf_of_described h fun _ hx => hx
  split at h
  · exact isOf_of_described h fun _ hx => hx
  · cases h

theorem told_nil (m : Reading) : m.told [] d = m.entity d := by
  rw [told]
  split
  · rename_i hnone
    cases hnone
  · rfl

/-- A definition of the namespace itself that can be added has a kind, and declares something of
that kind unless it is excluded. -/
theorem kind_of_own (hname : d.name ≠ globalsContainer)
    (h : (ownReading r p).told t d = .ok e) :
    ∃ kind, d.IsOfKind kind ∧
      (e = .nothing ∧ kind = .enum ∧ d.name ∈ p.excludedTypes ∨
        e.kind? = some kind ∧ (kind = .enum → d.name ∉ p.excludedTypes)) := by
  by_cases hd : isOwnInterface d = true
  · obtain ⟨⟨-, henum⟩, hinterface⟩ := isOwnInterface_iff.1 hd
    obtain ⟨i, rfl⟩ := interface_of_told hd h
    exact ⟨.interface, isOfKind_interface henum hinterface, .inr ⟨rfl, fun hk => by cases hk⟩⟩
  rw [told_of_not (Bool.eq_false_iff.2 hd)] at h
  change ownEntity r p d = .ok e at h
  rw [ownEntity, if_neg hname] at h
  split at h
  · rename_i henum
    refine ⟨.enum, TypeDef.isEnum_iff.1 henum, ?_⟩
    split at h
    · rename_i hexcluded
      exact .inl ⟨(Except.ok.inj h).symm, rfl, List.contains_iff_mem.1 hexcluded⟩
    · rename_i hincluded
      exact .inr ⟨kind_of_described (fun _ => rfl) h,
        fun _ hexcluded => hincluded (List.contains_iff_mem.2 hexcluded)⟩
  rename_i henum
  split at h
  · rename_i hinterface
    exact ⟨.interface, isOfKind_interface henum hinterface,
      .inr ⟨kind_of_described (fun _ => rfl) h, fun hk => by cases hk⟩⟩
  rename_i hinterface
  split at h
  · rename_i hstruct
    exact ⟨.struct, isOfKind_struct henum hinterface hstruct,
      .inr ⟨kind_of_described (fun _ => rfl) h, fun hk => by cases hk⟩⟩
  split at h
  · rename_i hdelegate
    exact ⟨.delegate, ⟨TypeDef.isDelegate_iff.1 hdelegate, Bool.eq_false_iff.2 hinterface⟩,
      .inr ⟨kind_of_described (fun _ => rfl) h, fun hk => by cases hk⟩⟩
  · cases h

/-- A definition of the shared namespace that is allowed and can be added has a kind that can be
borrowed, and declares something of that kind. -/
theorem kind_of_shared (hallowed : d.name ∈ p.sharedAllowList)
    (h : (sharedReading r p).told t d = .ok e) :
    ∃ kind, kind.IsShareable ∧ d.IsOfKind kind ∧ e.kind? = some kind := by
  by_cases hd : isSharedInterface p d = true
  · obtain ⟨⟨-, henum⟩, hinterface⟩ := isSharedInterface_iff.1 hd
    obtain ⟨i, rfl⟩ := interface_of_told hd h
    exact ⟨.interface, .inr (.inl rfl), isOfKind_interface henum hinterface, rfl⟩
  rw [told_of_not (Bool.eq_false_iff.2 hd)] at h
  change sharedEntity r p d = .ok e at h
  rw [sharedEntity, if_neg (by simpa using hallowed)] at h
  split at h
  · rename_i henum
    exact ⟨.enum, .inl rfl, TypeDef.isEnum_iff.1 henum, kind_of_described (fun _ => rfl) h⟩
  rename_i henum
  split at h
  · rename_i hinterface
    exact ⟨.interface, .inr (.inl rfl), isOfKind_interface henum hinterface,
      kind_of_described (fun _ => rfl) h⟩
  rename_i hinterface
  split at h
  · rename_i hstruct
    exact ⟨.struct, .inr (.inr rfl), isOfKind_struct henum hinterface hstruct,
      kind_of_described (fun _ => rfl) h⟩
  · cases h

/-- The kind of what a definition of the namespace itself declares is its own. -/
theorem isOfKind_ownEntity (h : ownEntity r p d = .ok e) (he : e.kind? = some kind) :
    d.IsOfKind kind := by
  by_cases hname : d.name = globalsContainer
  · rw [ownEntity, if_pos hname] at h
    obtain ⟨constants, -, h⟩ := Result.bind_eq_ok.1 h
    obtain rfl := Except.ok.inj h
    cases he
  · obtain ⟨own, hown, ⟨rfl, -⟩ | ⟨hkind, -⟩⟩ :=
      kind_of_own hname ((told_nil (ownReading r p)).trans h)
    · cases he
    · exact Option.some.inj (hkind.symm.trans he) ▸ hown

/-- So is that of what one of the shared namespace declares, and the profile allows it. -/
theorem isOfKind_sharedEntity (h : sharedEntity r p d = .ok e) (he : e.kind? = some kind) :
    d.name ∈ p.sharedAllowList ∧ d.IsOfKind kind := by
  by_cases hallowed : d.name ∈ p.sharedAllowList
  · obtain ⟨own, -, hown, hkind⟩ :=
      kind_of_shared hallowed ((told_nil (sharedReading r p)).trans h)
    exact ⟨hallowed, Option.some.inj (hkind.symm.trans he) ▸ hown⟩
  · rw [sharedEntity, if_pos (by simpa using hallowed)] at h
    obtain rfl := Except.ok.inj h
    cases he

/-- **What a definition of the namespace itself adds.** -/
theorem own_told (h : (ownReading r p).told t d = .ok e) :
    k ∈ e.keysOf d.name kind ↔ d.OwnKey p kind k := by
  by_cases hname : d.name = globalsContainer
  · rw [TypeDef.OwnKey, if_pos hname]
    have hnot : (ownReading r p).isInterface d = false := by
      simp [ownReading, isOwnInterface, hname]
    rw [told_of_not hnot] at h
    change ownEntity r p d = .ok e at h
    rw [ownEntity, if_pos hname] at h
    exact keysOf_globals h
  rw [TypeDef.OwnKey, if_neg hname]
  obtain ⟨own, hown, ⟨rfl, rfl, hexcluded⟩ | ⟨he, hincluded⟩⟩ := kind_of_own hname h
  · constructor
    · intro hk
      rcases kind <;> cases hk
    · rintro ⟨hkind, hincluded, -⟩
      exact absurd hexcluded (hincluded (hkind.unique hown))
  · rw [Entity.mem_keysOf he]
    constructor
    · rintro ⟨rfl, rfl⟩
      exact ⟨hown, hincluded, rfl⟩
    · rintro ⟨hkind, -, rfl⟩
      exact ⟨hkind.unique hown, rfl⟩

/-- **What a definition of the shared namespace adds.** -/
theorem shared_told (h : (sharedReading r p).told t d = .ok e) :
    k ∈ e.keysOf d.name kind ↔ d.SharedKey p kind k := by
  by_cases hallowed : d.name ∈ p.sharedAllowList
  · obtain ⟨own, hshareable, hown, he⟩ := kind_of_shared hallowed h
    rw [Entity.mem_keysOf he]
    constructor
    · rintro ⟨rfl, rfl⟩
      exact ⟨hallowed, hshareable, hown, rfl⟩
    · rintro ⟨-, -, hkind, rfl⟩
      exact ⟨hkind.unique hown, rfl⟩
  · have hnot : (sharedReading r p).isInterface d = false := by
      simp [sharedReading, isSharedInterface, hallowed]
    rw [told_of_not hnot] at h
    change sharedEntity r p d = .ok e at h
    rw [sharedEntity, if_pos (by simpa using hallowed)] at h
    obtain rfl := Except.ok.inj h
    constructor
    · intro hk
      rcases kind <;> cases hk
    · intro hk
      exact absurd hk.1 hallowed

/-! ## 3.  All definitions -/

/-- **The keys of a run.**  Where it is known what each definition adds, a run that ends well has
added that and no more, and it has repeated nothing. -/
theorem keysOf_foldlM {m : Reading} {Key : TypeDef → DeclarationKind → String → Prop}
    (hkey : ∀ {d kind k t e}, m.told t d = .ok e → (k ∈ e.keysOf d.name kind ↔ Key d kind k))
    {l : List TypeDef} (hnodup : ∀ kind, (ds.keysOf kind).Nodup)
    (h : (l.foldlM m.add ds).perform s = (.ok ds', s')) :
    (∀ kind, (ds'.keysOf kind).Nodup) ∧
      (∀ kind k, k ∈ ds'.keysOf kind ↔ k ∈ ds.keysOf kind ∨ ∃ d ∈ l, Key d kind k) ∧
      ∀ d ∈ l, ∃ t e, m.told t d = .ok e := by
  induction l generalizing ds s with
  | nil =>
    cases h
    exact ⟨hnodup, fun kind k => by simp, fun d hd => by cases hd⟩
  | cons d l ih =>
    rw [List.foldlM_cons] at h
    obtain ⟨made, u, hmade, h⟩ := Pass.perform_bind_ok.1 h
    obtain ⟨e, he, rfl, -⟩ := of_add_ok hmade
    obtain ⟨hnodup', hkeys, htold⟩ := ih (fun _ => nodup_keysOf_declare hnodup) h
    refine ⟨hnodup', fun kind k => ?_, List.forall_mem_cons.2 ⟨⟨_, e, he⟩, htold⟩⟩
    rw [hkeys, mem_keysOf_declare, hkey he, List.exists_mem_cons_iff, or_assoc]

/-- **What a run keeps** it was told by definitions, unless it was there before. -/
theorem keeps_foldlM {m : Reading} {l : List TypeDef}
    (h : (l.foldlM m.add ds).perform s = (.ok ds', s')) (hkeeps : ds'.Keeps k e) :
    (∃ d ∈ l, d.name = k ∧ ∃ t, m.told t d = .ok e) ∨ ds.Keeps k e := by
  induction l generalizing ds s with
  | nil =>
    cases h
    exact .inr hkeeps
  | cons d l ih =>
    rw [List.foldlM_cons] at h
    obtain ⟨made, u, hmade, h⟩ := Pass.perform_bind_ok.1 h
    obtain ⟨e', he', rfl, -⟩ := of_add_ok hmade
    rcases ih h with ⟨c, hc, htold⟩ | hkeeps
    · exact .inl ⟨c, List.mem_cons_of_mem _ hc, htold⟩
    · rcases keeps_declare hkeeps with ⟨rfl, rfl⟩ | hkeeps
      · exact .inl ⟨d, List.mem_cons_self, rfl, _, he'⟩
      · exact .inr hkeeps

theorem sharedNamespace?_eq_some {ns : String} :
    sharedNamespace? p = some ns ↔ p.sharedNamespace = some ns ∧ ns ≠ "" := by
  simp [sharedNamespace?, Option.filter_eq_some_iff]

/-- **The keys of both namespaces.** -/
theorem keysOf_collect (h : (collect r p).perform s = (.ok ds, s')) :
    (∀ kind, (ds.keysOf kind).Nodup) ∧
      (∀ kind k, k ∈ ds.keysOf kind ↔
        (∃ d ∈ r.typesIn (.str p.namespaceName), d.OwnKey p kind k) ∨
          ∃ ns, sharedNamespace? p = some ns ∧ ∃ d ∈ r.typesIn (.str ns), d.SharedKey p kind k) ∧
      (∀ d ∈ r.typesIn (.str p.namespaceName), ∃ t e, (ownReading r p).told t d = .ok e) ∧
      ∀ ns, sharedNamespace? p = some ns →
        ∀ d ∈ r.typesIn (.str ns), ∃ t e, (sharedReading r p).told t d = .ok e := by
  obtain ⟨own, u, hown, hshared⟩ := Pass.perform_bind_ok.1 h
  have hempty (kind : DeclarationKind) :
      (keysOf { namespaceName := p.namespaceName } kind) = [] := by
    rcases kind <;> rfl
  obtain ⟨hnodup, hkeys, htold⟩ := keysOf_foldlM (m := ownReading r p) own_told
    (fun kind => (hempty kind).symm ▸ .nil) hown
  have hkeys (kind : DeclarationKind) (k : String) : k ∈ own.keysOf kind ↔
      ∃ d ∈ r.typesIn (.str p.namespaceName), d.OwnKey p kind k := by
    rw [hkeys, hempty, or_iff_right List.not_mem_nil]
  rcases hns : sharedNamespace? p with _ | ns
  · rw [hns] at hshared
    cases hshared
    refine ⟨hnodup, fun kind k => ?_, htold, fun ns h => by cases h⟩
    rw [hkeys, or_iff_left]
    rintro ⟨ns, h, -⟩
    cases h
  · rw [hns] at hshared
    obtain ⟨hnodup, hkeys', htold'⟩ :=
      keysOf_foldlM (m := sharedReading r p) shared_told hnodup hshared
    refine ⟨hnodup, fun kind k => ?_, htold, fun ns h => ?_⟩
    · rw [hkeys', hkeys]
      simp
    · cases h
      exact htold'

/-- What a namespace is classified as was collected in some session. -/
theorem exists_collect_of_classify (h : (classify r p).perform s = (.ok ds, s')) :
    ∃ u v, (collect r p).perform u = (.ok ds, v) := by
  have hdone := congrArg Prod.fst h
  rw [classify, Pass.perform_timed_fst, Pass.perform_bind] at hdone
  split at hdone
  · rename_i made v hmade
    cases hdone
    exact ⟨_, v, hmade⟩
  · cases hdone

/-- **Classification is an exact partition.**  Suppose that classification ends well.  Then no name
is kept twice in a table, and the names that are kept are those that the top-level definitions of
the namespace declare, together with those that the allowed definitions of the shared namespace
declare.

If a definition that is no container of globals is of no kind, or if an allowed definition of the
shared namespace is of no kind that can be borrowed, then classification fails. -/
theorem classify_partition (r : Repository) (p : Profile) (s : Session) :
    (∀ ds s', (classify r p).perform s = (.ok ds, s') →
      (∀ kind, (ds.keysOf kind).Nodup) ∧
      ∀ kind k, k ∈ ds.keysOf kind ↔
        (∃ d, r.Holds p.namespaceName d ∧ d.OwnKey p kind k) ∨
          ∃ ns, (p.sharedNamespace = some ns ∧ ns ≠ "") ∧
            ∃ d, r.Holds ns d ∧ d.SharedKey p kind k) ∧
    ((∃ d, r.Holds p.namespaceName d ∧ d.name ≠ globalsContainer ∧ ∀ kind, ¬ d.IsOfKind kind) ∨
        (∃ ns, (p.sharedNamespace = some ns ∧ ns ≠ "") ∧ ∃ d, r.Holds ns d ∧
          d.name ∈ p.sharedAllowList ∧ ∀ kind, kind.IsShareable → ¬ d.IsOfKind kind) →
      ∃ e, ((classify r p).perform s).1 = .error e) := by
  have hcollect {ds s'} (h : (classify r p).perform s = (.ok ds, s')) :
      ∃ u v, (collect r p).perform u = (.ok ds, v) := by
    have hdone := congrArg Prod.fst h
    rw [classify, Pass.perform_timed_fst, Pass.perform_bind] at hdone
    split at hdone
    · rename_i ds' v hds
      cases hdone
      exact ⟨_, v, hds⟩
    · cases hdone
  refine ⟨fun ds s' h => ?_, fun hnone => ?_⟩
  · obtain ⟨u, v, h⟩ := hcollect h
    obtain ⟨hnodup, hkeys, -, -⟩ := keysOf_collect h
    refine ⟨hnodup, fun kind k => ?_⟩
    simp only [hkeys, Repository.mem_typesIn, sharedNamespace?_eq_some]
  · rcases h : (classify r p).perform s with ⟨e | ds, s'⟩
    · exact ⟨e, rfl⟩
    · obtain ⟨u, v, h⟩ := hcollect h
      obtain ⟨-, -, hown, hshared⟩ := keysOf_collect h
      exfalso
      rcases hnone with ⟨d, hd, hname, hnone⟩ | ⟨ns, hns, d, hd, hallowed, hnone⟩
      · obtain ⟨t, e, he⟩ := hown d (Repository.mem_typesIn.2 hd)
        obtain ⟨kind, hkind, -⟩ := kind_of_own hname he
        exact hnone kind hkind
      · obtain ⟨t, e, he⟩ :=
          hshared ns (sharedNamespace?_eq_some.2 hns) d (Repository.mem_typesIn.2 hd)
        obtain ⟨kind, hshareable, hkind, -⟩ := kind_of_shared hallowed he
        exact hnone kind hshareable hkind

/-- A definition with nothing in it. -/
def bareType (namespaceName name base : String) : TypeDef where
  namespaceName := .str namespaceName
  name := name
  isInterface := false
  baseType := .str base
  declaringType := .null
  explicitLayout := false
  interfaces := []
  fields := []
  methods := []
  attributes := []

/-- Two enums, one of which is declared elsewhere, and a struct that can be borrowed. -/
def bareShapes : List TypeDef := [
  bareType "Shapes" "KIND" "System.Enum",
  bareType "Shapes" "FILL" "System.Enum",
  bareType "Shapes.Common" "POINT" "System.ValueType"]

/-- The profile that excludes the one and borrows the other. -/
def shapesProfile : Profile where
  namespaceName := "Shapes"
  outputFile := "shapes.h"
  library := "shapes"
  includes := []
  excludedTypes := ["FILL"]
  sharedNamespace := some "Shapes.Common"
  sharedAllowList := ["POINT"]

/-- The shapes are classified, but not if there is a class among them. -/
theorem bareShapes_partition :
    (∃ ds s', (classify (.ofList bareShapes) shapesProfile).perform {} = (.ok ds, s') ∧
      "KIND" ∈ ds.keysOf .enum ∧ "FILL" ∉ ds.keysOf .enum ∧ "POINT" ∈ ds.keysOf .struct) ∧
    ∃ e, ((classify (.ofList (bareShapes ++ [bareType "Shapes" "Widget" "System.Object"]))
      shapesProfile).perform {}).1 = .error e := by
  refine ⟨?_, ?_⟩
  · have hends : ((classify (.ofList bareShapes) shapesProfile).perform {}).1.isOk = true := by
      decide +kernel
    rcases h : (classify (.ofList bareShapes) shapesProfile).perform {} with ⟨e | ds, s'⟩
    · rw [h] at hends
      cases hends
    obtain ⟨-, hkeys⟩ := (classify_partition (.ofList bareShapes) shapesProfile {}).1 ds s' h
    refine ⟨ds, s', rfl, (hkeys _ _).2 (.inl ⟨bareType "Shapes" "KIND" "System.Enum", ?_⟩), ?_,
      (hkeys _ _).2 (.inr ⟨"Shapes.Common", by decide, bareType "Shapes.Common" "POINT"
        "System.ValueType", ?_⟩)⟩
    · exact ⟨⟨.head _, rfl, rfl⟩, rfl, fun _ => by decide, rfl⟩
    · rw [hkeys]
      rintro (⟨d, -, hown⟩ | ⟨ns, -, d, -, hallowed, -, -, hname⟩)
      · rw [TypeDef.OwnKey] at hown
        split at hown
        · simp at hown
        · exact hown.2.1 rfl (hown.2.2 ▸ .head _)
      · rw [← hname] at hallowed
        exact absurd hallowed (by decide)
    · exact ⟨⟨.tail _ (.tail _ (.head _)), rfl, rfl⟩, .head _, .inr (.inr rfl), ⟨rfl, rfl⟩, rfl⟩
  · refine (classify_partition _ shapesProfile {}).2 (.inl ⟨_, ⟨List.mem_append_right _ (.head _),
      rfl, rfl⟩, by decide, fun kind => ?_⟩)
    rcases kind <;> simp [TypeDef.IsOfKind, bareType]

end Declarations

end ComHeaders
