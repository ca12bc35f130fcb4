import ComHeaders.Proofs.Classification.Readings

/-!
# Definitions that add nothing

A definition that is added twice adds nothing the second time.  Nor does another one that declares
the same.  And of two interfaces with one full name only the first is described: what the session
has described before stands for the second.

This file says what it means that a definition adds nothing (`Absorbs`), shows that a definition
has this property once one that it repeats was added (`absorbs_of_repeats`), and that it keeps it
while other names are declared (`Absorbs.declare`).

## 1.  Setting keys again

The container of globals sets many keys, some of them maybe more than once.  Setting all of them
again changes nothing.

## 2.  What a session remembers

An interface is described in the session, which remembers it under its full name.  All that adding
a definition does is said by `add_perform`.

## 3.  Absorption

A definition that adds nothing can be left out: only the journal knows of it (`Absorbs.perform`).
-/

namespace ComHeaders

namespace Declarations

/-! ## 1.  Setting keys again -/

section

variable {α : Type} {t : Table α} {l : List (String × α)} {key : String} {v : α}

theorem mem_keys_setAll (h : key ∈ t.keys) : key ∈ (setAll t l).keys := by
  induction l generalizing t with
  | nil => exact h
  | cons e l ih => exact ih (Table.mem_keys_set.2 (.inr h))

/-- A key that is there can be set before or after some others. -/
theorem set_setAll (hmem : key ∈ t.keys) (hnew : key ∉ l.map Prod.fst) :
    (setAll t l).set key v = setAll (t.set key v) l := by
  induction l generalizing t with
  | nil => rfl
  | cons e l ih =>
    rw [List.map_cons, List.mem_cons, not_or] at hnew
    have hcomm : (t.set e.1 e.2).set key v = (t.set key v).set e.1 e.2 :=
      (Table.set_comm_of_mem hmem hnew.1).symm
    show (setAll (t.set e.1 e.2) l).set key v = setAll ((t.set key v).set e.1 e.2) l
    rw [← hcomm]
    exact ih (Table.mem_keys_set.2 (.inr hmem)) hnew.2

/-- A key that is there and set by some settings need not be set before. -/
theorem setAll_set (hmem : key ∈ t.keys) (hset : key ∈ l.map Prod.fst) :
    setAll (t.set key v) l = setAll t l := by
  induction l generalizing t with
  | nil => cases hset
  | cons e l ih =>
    show setAll ((t.set key v).set e.1 e.2) l = setAll (t.set e.1 e.2) l
    by_cases he : key = e.1
    · rw [← he, Table.set_set]
    · rw [Table.set_comm_of_mem hmem he]
      rw [List.map_cons, List.mem_cons] at hset
      exact ih (Table.mem_keys_set.2 (.inr hmem)) (hset.resolve_left he)

/-- **Setting the same keys again changes nothing.** -/
theorem setAll_setAll : setAll (setAll t l) l = setAll t l := by
  induction l generalizing t with
  | nil => rfl
  | cons e l ih =>
    have hmem : e.1 ∈ (t.set e.1 e.2).keys := Table.mem_keys_set.2 (.inl rfl)
    show setAll ((setAll (t.set e.1 e.2) l).set e.1 e.2) l = setAll (t.set e.1 e.2) l
    by_cases he : e.1 ∈ l.map Prod.fst
    · rw [setAll_set (mem_keys_setAll hmem) he, ih]
    · rw [set_setAll hmem he, Table.set_set, ih]

end

/-! ## 2.  What a session remembers -/

variable {ds : Declarations} {d d' : TypeDef} {t : Table InterfaceDecl} {s : Session} {e : Entity}
  {m : Reading}

/-- An interface is described once. -/
theorem addInterface_perform (ds : Declarations) (d : TypeDef) (s : Session) :
    (ds.addInterface d).perform s =
      match s.interfaces.lookup d.fullName with
      | some i => (.ok (ds.declare d.name (.interface i)), s)
      | none =>
        match InterfaceDecl.ofDefinition d with
        | .ok i => (.ok (ds.declare d.name (.interface i)),
            { s with interfaces := s.interfaces.set d.fullName i })
        | .error c => (.error c, s) := by
  rw [addInterface, Pass.perform_bind, InterfaceDecl.describe, Pass.perform_bind, Pass.perform_get]
  rcases hs : s.interfaces.lookup d.fullName with _ | i
  · simp only [hs, Pass.perform_bind, Pass.perform_ofExcept]
    rcases InterfaceDecl.ofDefinition d with c | i
    · rfl
    · rfl
  · simp only [hs, Pass.perform_pure]
    rfl

namespace Reading

/-- What a definition declares in a session that has described some interfaces: if it is added as
an interface, the one that was described under its full name, and else what is its own. -/
def told (m : Reading) (t : Table InterfaceDecl) (d : TypeDef) : Except Failure Entity :=
  match m.isInterface d, t.lookup d.fullName with
  | true, some i => .ok (.interface i)
  | _, _ => m.entity d

/-- The interfaces that are described once a definition declares an entity. -/
def described (m : Reading) (t : Table InterfaceDecl) (d : TypeDef) (e : Entity) :
    Table InterfaceDecl :=
  match m.isInterface d, e with
  | true, .interface i => t.set d.fullName i
  | _, _ => t

theorem told_of_not (h : m.isInterface d = false) : m.told t d = m.entity d := by
  rw [told, h]

theorem described_of_not (h : m.isInterface d = false) : m.described t d e = t := by
  simp only [described, h]

theorem described_of_isInterface (h : m.isInterface d = true) {i : InterfaceDecl} :
    m.described t d (.interface i) = t.set d.fullName i := by
  simp only [described, h]

/-- **What adding a definition does.**  It declares what the definition declares in the session and,
of this, remembers no more than the interface. -/
theorem add_perform (m : Reading) (ds : Declarations) (d : TypeDef) (s : Session) :
    ∃ j, (m.add ds d).perform s =
      match m.told s.interfaces d with
      | .ok e => (.ok (ds.declare d.name e),
          { s with interfaces := m.described s.interfaces d e, journal := j })
      | .error c => (.error c, { s with journal := j }) := by
  by_cases hd : m.isInterface d = true
  · obtain ⟨j, hj⟩ := m.add_of_isInterface ds s hd
    refine ⟨j, ?_⟩
    rw [hj, addInterface_perform, told, hd, m.entity_of_isInterface hd]
    rcases hlookup : s.interfaces.lookup d.fullName with _ | i
    · rcases InterfaceDecl.ofDefinition d with c | i
      · rfl
      · simp only [bind, Except.bind, pure, Except.pure, described_of_isInterface hd]
    · have hkeep : s.interfaces.set d.fullName i = s.interfaces :=
        Table.set_eq_self_iff.2 hlookup
      simp only [described_of_isInterface hd, hkeep]
  · rw [Bool.not_eq_true] at hd
    obtain ⟨j, hj⟩ := m.add_of_not ds s hd
    refine ⟨j, ?_⟩
    rw [hj, step, told_of_not hd]
    rcases m.entity d with c | e
    · rfl
    · simp only [described_of_not hd]
      rfl

theorem interface_of_told (hd : m.isInterface d = true) (h : m.told t d = .ok e) :
    ∃ i, e = .interface i := by
  rw [told, hd, m.entity_of_isInterface hd] at h
  split at h
  · exact ⟨_, (Except.ok.inj h).symm⟩
  · obtain ⟨i, -, hi⟩ := Result.bind_eq_ok.1 h
    exact ⟨i, (Except.ok.inj hi).symm⟩

theorem name_of_told_globals (h : m.told t d = .ok e) (he : e.isGlobals = true) :
    d.name = globalsContainer := by
  rw [told] at h
  split at h
  · obtain rfl := Except.ok.inj h
    cases he
  · exact m.name_of_globals h he

/-- What was added was declared. -/
theorem of_add_ok {ds' : Declarations} {s' : Session}
    (h : (m.add ds d).perform s = (.ok ds', s')) :
    ∃ e, m.told s.interfaces d = .ok e ∧ ds' = ds.declare d.name e ∧
      s'.interfaces = m.described s.interfaces d e := by
  obtain ⟨j, hj⟩ := m.add_perform ds d s
  rw [h] at hj
  rcases he : m.told s.interfaces d with c | e
  · simp [he] at hj
  · rw [he] at hj
    cases hj
    exact ⟨e, rfl, rfl, rfl⟩

end Reading

/-! ## 3.  Absorption -/

theorem declare_declare (name : String) (e : Entity) :
    (ds.declare name e).declare name e = ds.declare name e := by
  rcases e with ⟨cs, fs⟩ | e | i | s | m | _
  case globals => simp only [declare, setAll_setAll]
  case nothing => rfl
  all_goals simp only [declare, Table.set_set]

/-- An entity that is declared already stays so when something is declared under another name. -/
theorem declare_of_declared {name name' : String} {e e' : Entity} (h : ds.declare name' e' = ds)
    (hne : name ≠ name') (hglobals : e.isGlobals = false ∨ e'.isGlobals = false) :
    (ds.declare name e).declare name' e' = ds.declare name e := by
  have hswapped : (ds.declare name' e').declare name e = ds.declare name e := by rw [h]
  rcases e with ⟨cs, fs⟩ | x | x | x | x | _ <;> rcases e' with ⟨cs', fs'⟩ | y | y | y | y | _
  case globals.globals => simp [Entity.isGlobals] at hglobals
  case enum.enum =>
    exact congrArg (fun t => { ds with enums := t })
      (Table.set_set_of_eq_self (congrArg enums h) hne)
  case interface.interface =>
    exact congrArg (fun t => { ds with interfaces := t })
      (Table.set_set_of_eq_self (congrArg interfaces h) hne)
  case struct.struct =>
    exact congrArg (fun t => { ds with structs := t })
      (Table.set_set_of_eq_self (congrArg structs h) hne)
  case delegate.delegate =>
    exact congrArg (fun t => { ds with delegates := t })
      (Table.set_set_of_eq_self (congrArg delegates h) hne)
  -- All other pairs belong to different tables, so they can be declared in the other order.
  all_goals exact hswapped

namespace Reading

/-- The same for the interfaces that are described. -/
theorem described_of_described {e' : Entity} (h : m.described t d' e' = t)
    (hne : d.fullName ≠ d'.fullName) :
    m.described (m.described t d e) d' e' = m.described t d e := by
  unfold described at h ⊢
  split at h
  · split
    · exact Table.set_set_of_eq_self h hne
    · exact h
  · rfl

/-- A definition that changes neither the declarations nor what is described. -/
def Absorbs (m : Reading) (ds : Declarations) (t : Table InterfaceDecl) (d : TypeDef) : Prop :=
  ∃ e, m.told t d = .ok e ∧ ds.declare d.name e = ds ∧ m.described t d e = t

/-- A definition that repeats another one: both are added as interfaces, or neither is and they
declare the same. -/
def Repeats (m : Reading) (d d' : TypeDef) : Prop :=
  m.isInterface d' = m.isInterface d ∧ (m.isInterface d = true ∨ m.entity d' = m.entity d)

theorem Repeats.refl (m : Reading) (d : TypeDef) : m.Repeats d d :=
  ⟨rfl, .inr rfl⟩

/-- **A definition adds nothing once one that it repeats was added.** -/
theorem absorbs_of_repeats (h : m.Repeats d d') (hname : d.name = d'.name)
    (hfullName : d.fullName = d'.fullName) (he : m.told t d = .ok e) :
    m.Absorbs (ds.declare d.name e) (m.described t d e) d' := by
  obtain ⟨hsame, hrepeats⟩ := h
  have hdeclared : (ds.declare d.name e).declare d'.name e = ds.declare d.name e :=
    hname ▸ declare_declare d.name e
  by_cases hd : m.isInterface d = true
  · obtain ⟨i, rfl⟩ := interface_of_told hd he
    refine ⟨.interface i, ?_, hdeclared, ?_⟩
    · rw [told, hsame, hd, described_of_isInterface hd, hfullName, Table.lookup_set, if_pos rfl]
    · rw [described_of_isInterface hd, described_of_isInterface (hsame.trans hd), hfullName,
        Table.set_set]
  · rw [Bool.not_eq_true] at hd
    have hd' : m.isInterface d' = false := hsame.trans hd
    refine ⟨e, ?_, hdeclared, described_of_not hd'⟩
    rw [told_of_not hd', hrepeats.resolve_left (by simp [hd]), ← he, told_of_not hd]

/-- **A definition goes on adding nothing while other names are declared.** -/
theorem Absorbs.declare (h : m.Absorbs ds t d') (hname : d.name ≠ d'.name)
    (hfullName : d.fullName ≠ d'.fullName) (he : m.told t d = .ok e) :
    m.Absorbs (ds.declare d.name e) (m.described t d e) d' := by
  obtain ⟨e', he', hdeclared, hdescribed⟩ := h
  have hlookup : (m.described t d e).lookup d'.fullName = t.lookup d'.fullName := by
    unfold described
    split
    · rw [Table.lookup_set, if_neg (Ne.symm hfullName)]
    · rfl
  have hglobals : e.isGlobals = false ∨ e'.isGlobals = false := by
    by_contra hboth
    simp only [not_or, Bool.not_eq_false] at hboth
    exact hname ((name_of_told_globals he hboth.1).trans (name_of_told_globals he' hboth.2).symm)
  refine ⟨e', ?_, declare_of_declared hdeclared hname hglobals,
    described_of_described hdescribed hfullName⟩
  rwa [told, hlookup]

/-- A definition that adds nothing can be added, and it shows in the journal only. -/
theorem Absorbs.perform (h : m.Absorbs ds s.interfaces d) :
    ∃ j, (m.add ds d).perform s = (.ok ds, { s with journal := j }) := by
  obtain ⟨e, he, hdeclared, hdescribed⟩ := h
  obtain ⟨j, hj⟩ := m.add_perform ds d s
  refine ⟨j, ?_⟩
  simp only [hj, he, hdeclared, hdescribed]

end Reading

end Declarations

end ComHeaders
