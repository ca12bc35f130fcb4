import ComHeaders.Proofs.Classification.Readings
import ComHeaders.Proofs.Repositories
import ComHeaders.Proofs.Tables

/-!
# Classification without an order

A namespace is classified definition by definition, each adding to tables that keep the order
of their keys.  This file proves that the order of the definitions shows in nothing but the order
of the tables.

## 1.  Declarations that are alike

`Declarations.Alike` compares tables by their entries.  Entities under different names can be
declared in either order (`declare_comm`), as long as one of them is not the container of globals:
its constants and functions have names of their own.  There is only one container in a namespace,
so a whole namespace can be declared in any order (`foldl_declare_perm`).

## 2.  Classification

Describing an interface writes it down for the rest of the pass, but no answer changes by that.
So the declarations do not depend on the session (`classify_yields`), and in repositories that are
alike they are alike (`collected_alike`).
-/

namespace ComHeaders

namespace Declarations

variable {r r' : Repository} {p : Profile} {ds ds' : Declarations}

/-! ## 1.  Declarations that are alike -/

/-- Declarations that differ at most in the order of the entries in four of the tables. -/
structure Alike (ds ds' : Declarations) : Prop where
  namespaceName : ds.namespaceName = ds'.namespaceName
  constants : ds.constants = ds'.constants
  functions : ds.functions = ds'.functions
  delegates : ds.delegates.Alike ds'.delegates
  enums : ds.enums.Alike ds'.enums
  structs : ds.structs.Alike ds'.structs
  interfaces : ds.interfaces.Alike ds'.interfaces

namespace Alike

theorem left (h : Alike ds ds') : Alike ds ds :=
  ⟨rfl, rfl, rfl, .refl h.delegates.nodup, .refl h.enums.nodup, .refl h.structs.nodup,
    .refl h.interfaces.nodup⟩

theorem right (h : Alike ds ds') : Alike ds' ds' :=
  ⟨rfl, rfl, rfl, .refl h.delegates.nodup', .refl h.enums.nodup', .refl h.structs.nodup',
    .refl h.interfaces.nodup'⟩

theorem trans {ds'' : Declarations} (h : Alike ds ds') (h' : Alike ds' ds'') : Alike ds ds'' :=
  ⟨h.namespaceName.trans h'.namespaceName, h.constants.trans h'.constants,
    h.functions.trans h'.functions, h.delegates.trans h'.delegates, h.enums.trans h'.enums,
    h.structs.trans h'.structs, h.interfaces.trans h'.interfaces⟩

/-- Declaring an entity keeps declarations alike. -/
theorem declare (h : Alike ds ds') (name : String) (e : Entity) :
    Alike (ds.declare name e) (ds'.declare name e) := by
  cases e with
  | globals constants functions =>
    exact ⟨h.namespaceName, congrArg (setAll · constants) h.constants,
      congrArg (setAll · functions) h.functions, h.delegates, h.enums, h.structs, h.interfaces⟩
  | enum e => exact { h with enums := h.enums.set name e }
  | interface i => exact { h with interfaces := h.interfaces.set name i }
  | struct s => exact { h with structs := h.structs.set name s }
  | delegate m => exact { h with delegates := h.delegates.set name m }
  | nothing => exact h

theorem foldl_declare (h : Alike ds ds') (entity : TypeDef → Entity) (l : List TypeDef) :
    Alike (l.foldl (fun ds d => ds.declare d.name (entity d)) ds)
      (l.foldl (fun ds d => ds.declare d.name (entity d)) ds') := by
  induction l generalizing ds ds' with
  | nil => exact h
  | cons d l ih => exact ih (h.declare _ _)

end Alike

/-- **Entities can be declared in either order.**  They set different keys or belong to different
tables. -/
theorem declare_comm (h : Alike ds ds) {name name' : String} (hne : name ≠ name') {e e' : Entity}
    (hglobals : e.isGlobals = false ∨ e'.isGlobals = false) :
    Alike ((ds.declare name e).declare name' e') ((ds.declare name' e').declare name e) := by
  have hde := h.declare name e
  have hde' := h.declare name' e'
  rcases e with ⟨cs, fs⟩ | x | x | x | x | _ <;> rcases e' with ⟨cs', fs'⟩ | y | y | y | y | _
  case globals.globals => simp [Entity.isGlobals] at hglobals
  case enum.enum => exact { h with enums := .set_comm h.enums.nodup hne x y }
  case interface.interface => exact { h with interfaces := .set_comm h.interfaces.nodup hne x y }
  case struct.struct => exact { h with structs := .set_comm h.structs.nodup hne x y }
  case delegate.delegate => exact { h with delegates := .set_comm h.delegates.nodup hne x y }
  -- All other pairs belong to different tables, so the two orders are one.
  all_goals exact (hde.declare _ _).left

/-- Entities of definitions with distinct names, at most one of which is the container of globals,
can be declared in any order. -/
theorem foldl_declare_perm {entity : TypeDef → Entity}
    (hglobals : ∀ d, (entity d).isGlobals = true → d.name = globalsContainer)
    {l l' : List TypeDef} (hperm : l.Perm l') (hnames : (l.map TypeDef.name).Nodup)
    (h : Alike ds ds') :
    Alike (l.foldl (fun ds d => ds.declare d.name (entity d)) ds)
      (l'.foldl (fun ds d => ds.declare d.name (entity d)) ds') := by
  induction hperm generalizing ds ds' with
  | nil => exact h
  | cons d _ ih => exact ih (List.nodup_cons.1 hnames).2 (h.declare _ _)
  | swap c d l =>
    have hne : d.name ≠ c.name := by
      intro heq
      exact (List.nodup_cons.1 hnames).1 (by rw [heq]; exact List.mem_cons_self)
    have hone : (entity d).isGlobals = false ∨ (entity c).isGlobals = false := by
      by_contra hboth
      simp only [not_or, Bool.not_eq_false] at hboth
      exact hne ((hglobals d hboth.1).trans (hglobals c hboth.2).symm)
    have hswapped := (declare_comm h.left hne hone).trans ((h.declare _ _).declare _ _)
    exact hswapped.foldl_declare entity l
  | trans hperm₁ _ ih₁ ih₂ =>
    exact (ih₁ hnames h).trans (ih₂ ((hperm₁.map _).nodup_iff.1 hnames) h.right)

/-! ## 2.  Classification -/

/-- The declarations of a profile's namespace and of what it borrows, without a session. -/
def collected (r : Repository) (p : Profile) : Except Failure Declarations := do
  let own ← (r.typesIn (.str p.namespaceName)).foldlM (step (ownEntity r p))
    { namespaceName := p.namespaceName }
  match sharedNamespace? p with
  | some ns => (r.typesIn (.str ns)).foldlM (step (sharedEntity r p)) own
  | none => return own

/-- **The declarations do not depend on the session.** -/
theorem classify_yields
    (hfind : ∀ ns, ∀ d ∈ r.typesIn ns, r.find? d.fullName = some d) :
    Pass.Yields r (classify r p) (collected r p) := by
  have hcollect : Pass.Yields r (collect r p) (collected r p) := by
    refine (Pass.Yields.foldlM (fun ds d hd => (ownReading r p).yields (hfind _ d hd)) _).bind
      fun own => ?_
    rcases sharedNamespace? p with _ | ns
    · exact .pure own
    · exact .foldlM (fun ds d hd => (sharedReading r p).yields (hfind _ d hd)) own
  have hclassify := (hcollect.bind fun ds => .note_bind ds.summary (.pure ds)).timed
    .classifier "TypeClassifier.classify"
  have hsame : (collected r p >>= fun ds => .ok ds) = collected r p := bind_pure _
  rwa [hsame] at hclassify

/-- Declaring definitions ends well if each of them can be described. -/
theorem foldlM_step_ok {entity : TypeDef → Except Failure Entity} {l : List TypeDef} :
    l.foldlM (step entity) ds = .ok ds' ↔
      (∀ d ∈ l, ∃ e, entity d = .ok e) ∧
        ds' = l.foldl (fun ds d => ds.declare d.name ((entity d).toOption.getD .nothing)) ds := by
  induction l generalizing ds with
  | nil =>
    simp [eq_comm, pure, Except.pure]
  | cons d l ih =>
    rw [List.foldlM_cons, List.foldl_cons, List.forall_mem_cons]
    rcases hd : entity d with e | e
    · simp [step, hd, bind, Except.bind]
    · have hstep : step entity ds d = .ok (ds.declare d.name e) := by
        rw [step, hd]
        rfl
      rw [hstep]
      show l.foldlM (step entity) (ds.declare d.name e) = .ok ds' ↔ _
      rw [ih]
      simp [Except.toOption]

/-- Definitions that can be declared can be declared in any order. -/
theorem foldlM_step_perm {entity : TypeDef → Except Failure Entity}
    (hglobals : ∀ d e, entity d = .ok e → e.isGlobals = true → d.name = globalsContainer)
    {l l' : List TypeDef} (hperm : l.Perm l') (hnames : (l.map TypeDef.name).Nodup)
    {start start' : Declarations} (h : Alike start start')
    (hok : l.foldlM (step entity) start = .ok ds) :
    ∃ ds', l'.foldlM (step entity) start' = .ok ds' ∧ Alike ds ds' := by
  obtain ⟨hall, rfl⟩ := foldlM_step_ok.1 hok
  refine ⟨_, foldlM_step_ok.2 ⟨fun d hd => hall d (hperm.mem_iff.2 hd), rfl⟩, ?_⟩
  refine foldl_declare_perm (fun d hd => ?_) hperm hnames h
  rcases he : entity d with e | e
  · rw [he] at hd
    cases hd
  · rw [he] at hd
    exact hglobals d e he hd

/-- **In repositories that are alike the declarations are alike.** -/
theorem collected_alike (hr : r.Alike r')
    (hnames : ∀ ns, ((r.typesIn (.str ns)).map TypeDef.name).Nodup)
    (h : collected r p = .ok ds) : ∃ ds', collected r' p = .ok ds' ∧ Alike ds ds' := by
  have hown : ownEntity r p = ownEntity r' p := by
    funext d
    simp only [ownEntity, hr.describe_struct_eq]
  have hshared : sharedEntity r p = sharedEntity r' p := by
    funext d
    simp only [sharedEntity, hr.describe_struct_eq]
  have hempty : Alike { namespaceName := p.namespaceName } { namespaceName := p.namespaceName } :=
    ⟨rfl, rfl, rfl, .refl .nil, .refl .nil, .refl .nil, .refl .nil⟩
  rw [collected, hown, hshared] at h
  rw [collected]
  rcases hfold : (r.typesIn (.str p.namespaceName)).foldlM (step (ownEntity r' p))
    { namespaceName := p.namespaceName } with e | own
  · rw [hfold] at h
    cases h
  · rw [hfold] at h
    obtain ⟨own', hfold', halike⟩ := foldlM_step_perm (fun _ _ => globals_ownEntity)
      (hr.typesIn _) (hnames _) hempty hfold
    rw [hfold']
    show ∃ ds', (match sharedNamespace? p with
      | some ns => (r'.typesIn (.str ns)).foldlM (step (sharedEntity r' p)) own'
      | none => return own') = .ok ds' ∧ Alike ds ds'
    rcases hns : sharedNamespace? p with _ | ns
    · rw [hns] at h
      obtain rfl : own = ds := Except.ok.inj h
      exact ⟨own', rfl, halike⟩
    · rw [hns] at h
      refine foldlM_step_perm (fun _ _ hd he => ?_) (hr.typesIn _) (hnames ns) halike h
      rw [isGlobals_sharedEntity hd] at he
      cases he

end Declarations

end ComHeaders
