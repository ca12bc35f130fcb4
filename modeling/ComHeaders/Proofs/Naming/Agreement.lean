import ComHeaders.Naming
import ComHeaders.Proofs.Repositories

/-!
# Naming within a pass

What `Naming.name` does to a session, and that nothing but the remembered names and the content
of the repository bears on what a reference is called.

## 1.  One name

A reference is named from memory, or else by the rules and then remembered (`name_perform`).
The parts of the second case are definitions of their own here: `ruled` for references without
layers, `found` for all of them, and `renewed` with the remembering.

## 2.  Agreement

Two namings concur on some references, under a relation between sessions, if they give them the
same names; then they give the same of everything that is made of these names.  That a reference
has got a name also says something about it, as not every primitive has one.  Both depend on
nothing but the definition that the reference leads to (`agree_name`), provided that the related
sessions remember the same names and remember them rightly (`Session.Recording`).

## 3.  Namings that are alike

Two namings are alike if they know the same enums by their tags and their repositories are alike.
They concur on all references in sessions that are alike.
-/

namespace ComHeaders

namespace Naming

variable (n : Naming)

/-! ## 1.  One name -/

/-- The name of a reference without layers by the rules. -/
def ruled (r : TypeRef) : Pass Value := do
  if n.isUndefined r then note (undefinedNote r)
  Pass.ofExcept (n.baseName r)

/-- The name of a reference by the rules. -/
def found : TypeRef → Pass Value
  | .pointer element => do Pass.ofExcept (starred (← n.name element))
  | .array element _ => n.name element
  | r => n.ruled r

/-- The name of a reference by the rules, remembered. -/
def renewed (r : TypeRef) : Pass Value := do
  let v ← n.found r
  remember r v
  return v

/-- A reference is named from memory, or else by the rules. -/
theorem name_perform (r : TypeRef) (s : Session) :
    (n.name r).perform s =
      if r.isKey then
        match remembered? s r with
        | some v => (.ok v, s)
        | none => (n.renewed r).perform s
      else (.error (.fault .wrongKind), s) := by
  have hname : n.name r = (do
      if !r.isKey then throw (.fault .wrongKind)
      match remembered? (← get) r with
      | some v => return v
      | none => n.renewed r) := by
    rw [name]
    rcases hu : n.isUndefined r with _ | _ <;> rcases r with _ | _ | _ | _ | _ <;>
      simp only [renewed, found, ruled, bind_assoc, hu] <;> rfl
  rw [hname]
  by_cases hr : r.isKey = true
  · simp only [hr, Bool.not_true, Bool.false_eq_true, if_false, if_true, Pass.perform_bind,
      Pass.perform_get]
    rcases remembered? s r with _ | v
    · rfl
    · rfl
  · rw [if_neg hr]
    simp [hr]

/-! ## 2.  Agreement -/

end Naming

/-- A property that a reference shares with its innermost element, and with every reference that is
the same key. -/
structure TypeRef.Inherent (Named : TypeRef → Prop) : Prop where
  innermost : ∀ {r : TypeRef}, Named r.innermost ↔ Named r
  sameKey : ∀ {q r : TypeRef}, q.sameKey r = true → Named q → Named r

/-- A relation between sessions that remember the same names, all of them for references with a
property, and that may remember more of these. -/
structure Session.Recording (Named : TypeRef → Prop) (S : Session → Session → Prop) : Prop where
  names : ∀ {s t : Session}, S s t → s.names = t.names
  named : ∀ {s t : Session}, S s t → ∀ e ∈ s.names, Named e.1
  remember : ∀ {s t : Session}, S s t → ∀ {r : TypeRef}, Named r → ∀ v : Value,
    S { s with names := (r, v) :: s.names } { t with names := (r, v) :: t.names }

theorem Repository.resolve_innermost (rep : Repository) (r : TypeRef) :
    rep.resolve r.innermost = rep.resolve r := by
  rw [resolve, resolve, r.innermost_innermost]

namespace Naming

variable {n n' : Naming} {S : Session → Session → Prop} {Named : TypeRef → Prop}

theorem isTagged_eq (htags : n.taggedEnums = n'.taggedEnums) : n.isTagged = n'.isTagged := by
  funext v
  rw [isTagged, isTagged, htags]

theorem baseName_eq (htags : n.taggedEnums = n'.taggedEnums) {r : TypeRef}
    (hr : n.repository.resolve r = n'.repository.resolve r) : n.baseName r = n'.baseName r := by
  rw [baseName, baseName, isTagged_eq htags, hr]

theorem isEnum_eq {r : TypeRef} (hr : n.repository.resolve r = n'.repository.resolve r) :
    n.isEnum r = n'.isEnum r := by
  rw [isEnum, isEnum, hr]

theorem isUndefined_eq (htags : n.taggedEnums = n'.taggedEnums) {r : TypeRef}
    (hr : n.repository.resolve r = n'.repository.resolve r) :
    n.isUndefined r = n'.isUndefined r := by
  rw [isUndefined, isUndefined, isFixed, isFixed, isTagged_eq htags, hr]

theorem agree_remember (hS : Session.Recording Named S) {r : TypeRef} (hr : Named r) (v : Value) :
    Pass.Agree S (remember r v) (remember r v) fun _ => True := by
  unfold remember
  split
  · exact .pure trivial
  · exact fun s t h => ⟨rfl, hS.remember h hr _, fun _ _ => trivial⟩

/-- Where the rules agree on a reference, its names agree, since what is remembered is the
same. -/
theorem agree_name_of_found (hS : Session.Recording Named S) (hN : TypeRef.Inherent Named)
    {r : TypeRef} (h : Pass.Agree S (n.found r) (n'.found r) fun _ => Named r) :
    Pass.Agree S (n.name r) (n'.name r) fun _ => Named r := by
  have hrenewed : Pass.Agree S (n.renewed r) (n'.renewed r) fun _ => Named r :=
    h.bind fun v hr => (agree_remember hS hr v).bind fun _ _ => .pure hr
  intro s t hst
  have hremembered : remembered? s r = remembered? t r := by
    rw [remembered?, remembered?, hS.names hst]
  rw [name_perform, name_perform, ← hremembered]
  by_cases hr : r.isKey = true
  · rw [if_pos hr, if_pos hr]
    rcases hmemory : remembered? s r with _ | v
    · exact hrenewed s t hst
    · refine ⟨rfl, hst, fun _ _ => ?_⟩
      obtain ⟨e, he, -⟩ := Option.map_eq_some_iff.1 hmemory
      have hkey : e.1.sameKey r = true := by simpa using List.find?_some he
      exact hN.sameKey hkey (hS.named hst e (List.mem_of_find?_eq_some he))
  · rw [if_neg hr, if_neg hr]
    refine ⟨rfl, hst, fun _ hok => ?_⟩
    cases hok

/-- **Names agree where definitions do.**  A reference that has got a name has the property that
the rules show of the innermost element. -/
theorem agree_name [Session.Quiet S] (hS : Session.Recording Named S)
    (hN : TypeRef.Inherent Named) (htags : n.taggedEnums = n'.taggedEnums) {r : TypeRef}
    (hr : n.repository.resolve r = n'.repository.resolve r)
    (hnamed : ∀ v, n.baseName r.innermost = .ok v → Named r.innermost) :
    Pass.Agree S (n.name r) (n'.name r) fun _ => Named r := by
  have hruled : Pass.Agree S (n.ruled r.innermost) (n'.ruled r.innermost)
      fun _ => Named r.innermost := by
    have hinnermost : n.repository.resolve r.innermost = n'.repository.resolve r.innermost := by
      rw [Repository.resolve_innermost, Repository.resolve_innermost, hr]
    unfold ruled
    rw [isUndefined_eq htags hinnermost, baseName_eq htags hinnermost]
    rw [baseName_eq htags hinnermost] at hnamed
    split
    · exact .note_bind _ _ (.ofExcept hnamed)
    · exact .ofExcept hnamed
  refine agree_name_of_found hS hN ?_
  induction r with
  | pointer element ih =>
    refine (agree_name_of_found hS hN (ih hr hnamed hruled)).bind fun _ hv =>
      .ofExcept fun _ _ => ?_
    have hinnermost : Named element.innermost := hN.innermost.2 hv
    exact (hN.innermost (r := .pointer element)).1 hinnermost
  | array element length ih =>
    refine (agree_name_of_found hS hN (ih hr hnamed hruled)).weaken fun _ hv => ?_
    have hinnermost : Named element.innermost := hN.innermost.2 hv
    exact (hN.innermost (r := .array element length)).1 hinnermost
  | void => exact hruled
  | primitive _ => exact hruled
  | named _ _ _ _ => exact hruled

/-- Two namings that give the references of a kind the same names, which shows a property of these
references. -/
structure Concur (S : Session → Session → Prop) (Asked Named : TypeRef → Prop) (n n' : Naming) :
    Prop where
  name : ∀ {r : TypeRef}, Asked r → Pass.Agree S (n.name r) (n'.name r) fun _ => Named r
  isEnum : ∀ {r : TypeRef}, Asked r → n.isEnum r = n'.isEnum r

namespace Concur

variable {Asked : TypeRef → Prop} {r : TypeRef}

theorem parameterName (h : Concur S Asked Named n n') (hr : Asked r) (isConst : Bool) :
    Pass.Agree S (n.parameterName r isConst) (n'.parameterName r isConst) fun _ => Named r :=
  (h.name hr).bind fun _ hr' => .pure hr'

theorem parameterNames (h : Concur S Asked Named n n') {ps : List ParameterDecl}
    (hps : ∀ p ∈ ps, Asked p.type) :
    Pass.Agree S (ps.mapM fun p => n.parameterName p.type p.isConst)
      (ps.mapM fun p => n'.parameterName p.type p.isConst) fun _ => ∀ p ∈ ps, Named p.type :=
  .mapM fun p hp => h.parameterName (hps p hp) p.isConst

theorem nameText (h : Concur S Asked Named n n') (hr : Asked r) :
    Pass.Agree S (n.nameText r) (n'.nameText r) fun _ => Named r :=
  (h.name hr).bind fun _ hr' => .ofExcept fun _ _ => hr'

theorem returnsAggregate (h : Concur S Asked Named n n') (hr : Asked r) :
    Pass.Agree S (n.returnsAggregate r) (n'.returnsAggregate r) fun _ => True := by
  unfold Naming.returnsAggregate
  rw [h.isEnum hr]
  split
  · exact .pure trivial
  · split
    · exact .pure trivial
    · refine (h.name hr).bind fun v _ => ?_
      split
      · exact .pure trivial
      · exact (Pass.Agree.ofExcept fun _ _ => trivial).bind fun _ _ => .pure trivial

end Concur

/-! ## 3.  Namings that are alike -/

/-- Namings that know the same tags and the same definitions. -/
structure Alike (n n' : Naming) : Prop where
  repository : n.repository.Alike n'.repository
  taggedEnums : n.taggedEnums = n'.taggedEnums

theorem Alike.refl (n : Naming) : Alike n n :=
  ⟨.refl _, rfl⟩

theorem recording_alike (rep : Repository) :
    Session.Recording (fun _ => True) (Session.Alike rep) where
  names h := h.names
  named _ _ _ := trivial
  remember h r _ v := ⟨congrArg (List.cons (r, v)) h.names, h.interface?⟩

/-- Sessions that remember the same remember the same names. -/
theorem recording_same (Named : TypeRef → Prop) (Known : InterfaceDecl → Prop) :
    Session.Recording Named (Session.Same Named Known) where
  names h := h.names
  named h := h.named
  remember h r hr v := {
    names := congrArg (List.cons (r, v)) h.names
    named := List.forall_mem_cons.2 ⟨hr, h.named⟩
    interfaces := h.interfaces
    known := h.known }

/-- **Namings that are alike concur on all references.** -/
theorem Alike.concur (rep : Repository) (h : Alike n n') :
    Concur (Session.Alike rep) (fun _ => True) (fun _ => True) n n' where
  name {r} _ := agree_name (recording_alike rep) ⟨Iff.rfl, fun _ _ => trivial⟩ h.taggedEnums
    (congrFun h.repository.resolve_eq r) fun _ _ => trivial
  isEnum {r} _ := isEnum_eq (congrFun h.repository.resolve_eq r)

end Naming

end ComHeaders
