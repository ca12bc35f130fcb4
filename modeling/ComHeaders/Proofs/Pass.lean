import ComHeaders.Classify.Interface
import ComHeaders.Metadata.Repository
import ComHeaders.Proofs.Tables

/-!
# Computing with passes

A pass is a computation that may fail and that changes a session in any case.  This file says
what its building blocks do to a session, and which computations cannot tell two sessions apart.

## 1.  The building blocks

`Pass.perform_bind` takes a sequence apart, and the lemmas behind it evaluate its parts.  A sequence
that ends well is a first part that ends well and a second part that ends well
(`perform_bind_ok`).

## 2.  Sessions that answer alike

A session is asked for two things only: the names it remembers, and the interface of a full
name.  For the second it does not matter whether an interface was described before, since
describing it again gives the same; `Session.interface?` is the answer in both cases.  Sessions
are `Alike` if they give the same answers, whatever their tables and their journals look like.
A look-up gives the answer and leaves the session alike (`InterfaceDecl.lookup_perform`).

## 3.  Computations that agree

Two computations `Agree` under a relation between sessions if they give the same results in related
sessions and leave them related.  They can be one computation in two sessions, or the same one
with two repositories; and with a relation that only relates equal sessions of some kind, such as
`Session.Same`, this is about what one computation preserves.  The last part of `Agree` is what can
be said of a result, which is often something about the computation itself: that it ended well
shows that all its parts did.

## 4.  Computations that remember nothing

A computation `Yields` a result if it has this result in every session that answers like a new
one and leaves the session in this state.
-/

namespace ComHeaders

/-! ## 1.  The building blocks -/

namespace Result

variable {ε α β : Type}

theorem bind_eq_ok {x : Except ε α} {f : α → Except ε β} {b : β} :
    (x >>= f) = .ok b ↔ ∃ a, x = .ok a ∧ f a = .ok b := by
  rcases x with e | a
  · simp [bind, Except.bind]
  · simp [bind, Except.bind]

theorem faulty_eq_ok {x : Except Fault α} {a : α} : faulty x = .ok a ↔ x = .ok a := by
  cases x <;> simp [faulty, Except.mapError]

theorem eq_ok_of_toOption {x : Except ε α} {a : α} (h : x.toOption = some a) : x = .ok a := by
  rcases x with e | b
  · cases h
  · exact congrArg Except.ok (Option.some.inj h)

/-- A list that is gone through to its end has each of its members done. -/
theorem forall_of_mapM_ok {P : α → Prop} {f : α → Except ε β} {l : List α} {bs : List β}
    (h : l.mapM f = .ok bs) (hf : ∀ a b, f a = .ok b → P a) : ∀ a ∈ l, P a := by
  induction l generalizing bs with
  | nil => simp
  | cons a l ih =>
    rw [List.mapM_cons] at h
    obtain ⟨b, hb, h⟩ := bind_eq_ok.1 h
    obtain ⟨rest, hrest, -⟩ := bind_eq_ok.1 h
    exact List.forall_mem_cons.2 ⟨hf a b hb, ih hrest⟩

theorem mapM_congr {f g : α → Except ε β} {l : List α} (h : ∀ a ∈ l, f a = g a) :
    l.mapM f = l.mapM g := by
  induction l with
  | nil => rfl
  | cons a l ih =>
    obtain ⟨ha, hl⟩ := List.forall_mem_cons.1 h
    rw [List.mapM_cons, List.mapM_cons, ha, ih hl]

end Result

namespace Pass

variable {α β : Type}

/-- A sequence: the second part is performed in the session behind the first. -/
theorem perform_bind (x : Pass α) (f : α → Pass β) (s : Session) :
    (x >>= f).perform s =
      match x.perform s with
      | (.ok a, t) => (f a).perform t
      | (.error e, t) => (.error e, t) := by
  show StateT.run (ExceptT.run (x >>= f)) s = _
  rw [ExceptT.run_bind, StateT.run_bind, perform]
  rcases StateT.run x.run s with ⟨_ | a, t⟩
  · rfl
  · rfl

/-- A failure is caught in the session behind it. -/
theorem perform_tryCatch (x : Pass α) (f : Failure → Pass α) (s : Session) :
    (tryCatch x f).perform s =
      match x.perform s with
      | (.ok a, t) => (.ok a, t)
      | (.error e, t) => (f e).perform t := by
  show ExceptT.run (tryCatch x f) s = _
  simp only [tryCatch, tryCatchThe, MonadExceptOf.tryCatch, ExceptT.tryCatch, ExceptT.run_mk]
  show (StateT.bind x.run _) s = _
  simp only [StateT.bind, bind]
  rcases h : x.run s with ⟨_ | a, t⟩
  · simp only [perform, StateT.run, h]
    rfl
  · simp only [perform, StateT.run, h]
    rfl

@[simp]
theorem perform_pure (a : α) (s : Session) : (pure a : Pass α).perform s = (.ok a, s) :=
  rfl

@[simp]
theorem perform_throw (e : Failure) (s : Session) :
    (throw e : Pass α).perform s = (.error e, s) :=
  rfl

@[simp]
theorem perform_get (s : Session) : (get : Pass Session).perform s = (.ok s, s) :=
  rfl

@[simp]
theorem perform_note (e : Entry) (s : Session) :
    (note e : Pass Unit).perform s = (.ok (), { s with journal := s.journal.push e }) :=
  rfl

@[simp]
theorem perform_ofExcept (x : Except Failure α) (s : Session) :
    (ofExcept x).perform s = (x, s) :=
  rfl

/-- Timing an operation leaves its result alone. -/
theorem perform_timed_fst (speaker : Speaker) (operation : String) (x : Pass α) (s : Session) :
    ((timed speaker operation x).perform s).1 =
      (x.perform { s with
        journal := s.journal.push (.plain speaker .debug s!"Starting {operation}") }).1 := by
  simp only [timed, watched, perform_bind, perform_note, perform_tryCatch]
  rcases x.perform { s with
    journal := s.journal.push (.plain speaker .debug s!"Starting {operation}") } with ⟨e | a, t⟩
  · rfl
  · rfl

theorem perform_bind_ok {x : Pass α} {f : α → Pass β} {s s' : Session} {b : β} :
    (x >>= f).perform s = (.ok b, s') ↔
      ∃ a t, x.perform s = (.ok a, t) ∧ (f a).perform t = (.ok b, s') := by
  rw [perform_bind]
  rcases x.perform s with ⟨_ | a, t⟩
  · simp
  · simp only [Prod.mk.injEq, Except.ok.injEq]
    exact ⟨fun h => ⟨a, t, ⟨rfl, rfl⟩, h⟩, fun ⟨_, _, ⟨rfl, rfl⟩, h⟩ => h⟩

theorem perform_ofExcept_bind_ok {x : Except Failure α} {f : α → Pass β} {s s' : Session} {b : β} :
    (ofExcept x >>= f).perform s = (.ok b, s') ↔
      ∃ a, x = .ok a ∧ (f a).perform s = (.ok b, s') := by
  rw [perform_bind, perform_ofExcept]
  rcases x with e | a
  · simp
  · simp

theorem perform_ofExcept_ok {x : Except Failure α} {s s' : Session} {a : α} :
    (ofExcept x).perform s = (.ok a, s') ↔ x = .ok a ∧ s' = s := by
  rw [perform_ofExcept, Prod.mk.injEq, eq_comm (a := s)]

/-- A list that is gone through to its end: what holds of each member and its result, in sessions
with a property that is kept. -/
theorem forall₂_of_mapM {I : Session → Prop} {R : α → β → Prop} {f : α → Pass β} {l : List α}
    (hf : ∀ a ∈ l, ∀ {s : Session} {b : β} {s' : Session}, I s → (f a).perform s = (.ok b, s') →
      R a b ∧ I s')
    {s s' : Session} {bs : List β} (hs : I s) (h : (l.mapM f).perform s = (.ok bs, s')) :
    List.Forall₂ R l bs ∧ I s' := by
  induction l generalizing s bs with
  | nil =>
    obtain ⟨rfl, rfl⟩ : [] = bs ∧ s = s' := by simpa using h
    exact ⟨.nil, hs⟩
  | cons a l ih =>
    obtain ⟨ha, hl⟩ := List.forall_mem_cons.1 hf
    rw [List.mapM_cons] at h
    obtain ⟨b, t, hb, h₁⟩ := perform_bind_ok.1 h
    obtain ⟨bs', u, hbs', h₂⟩ := perform_bind_ok.1 h₁
    rw [perform_pure, Prod.mk.injEq, Except.ok.injEq] at h₂
    obtain ⟨rfl, rfl⟩ := h₂
    obtain ⟨hab, ht⟩ := ha hs hb
    obtain ⟨hrest, hs'⟩ := ih hl ht hbs'
    exact ⟨.cons hab hrest, hs'⟩

end Pass

/-! ## 2.  Sessions that answer alike -/

namespace Repository

/-- A repository is indexed if a definition that is found bears the name that was asked for. -/
def Indexed (r : Repository) : Prop :=
  ∀ fullName d, r.find? fullName = some d → d.fullName = fullName

theorem indexed_ofList (ds : List TypeDef) : (ofList ds).Indexed := by
  intro fullName d hd
  rw [find?_ofList] at hd
  simpa using List.find?_some hd

end Repository

namespace Session

/-- The interface of a full name: the one that was described, or else the one that would be
described now. -/
def interface? (r : Repository) (s : Session) (fullName : String) :
    Except Failure InterfaceDecl :=
  match s.interfaces.lookup fullName with
  | some i => .ok i
  | none =>
    match r.find? fullName with
    | some d =>
      if d.isInterface then InterfaceDecl.ofDefinition d
      else .error (.unknownInterface fullName)
    | none => .error (.unknownInterface fullName)

/-- Sessions that give the same answers. -/
structure Alike (r : Repository) (s t : Session) : Prop where
  names : s.names = t.names
  interface? : ∀ fullName, s.interface? r fullName = t.interface? r fullName

namespace Alike

variable {r : Repository} {s t u : Session}

theorem refl (r : Repository) (s : Session) : Alike r s s :=
  ⟨rfl, fun _ => rfl⟩

theorem symm (h : Alike r s t) : Alike r t s :=
  ⟨h.names.symm, fun k => (h.interface? k).symm⟩

theorem trans (h : Alike r s t) (h' : Alike r t u) : Alike r s u :=
  ⟨h.names.trans h'.names, fun k => (h.interface? k).trans (h'.interface? k)⟩

theorem journal (r : Repository) (s : Session) (j : Journal) :
    Alike r s { s with journal := j } :=
  ⟨rfl, fun _ => rfl⟩

/-- An interface may be written down as the answer that it is. -/
theorem set {k : String} {i : InterfaceDecl} (h : s.interface? r k = .ok i) :
    Alike r s { s with interfaces := s.interfaces.set k i } := by
  refine ⟨rfl, fun fullName => ?_⟩
  rw [Session.interface?, Session.interface?, Table.lookup_set]
  by_cases hk : fullName = k
  · subst hk
    rw [if_pos rfl]
    exact h
  · rw [if_neg hk]

end Alike

end Session

namespace InterfaceDecl

variable {r : Repository}

/-- Describing the definition of a name gives the answer for that name, and writes it down. -/
theorem describe_perform {d : TypeDef} (hfind : r.find? d.fullName = some d)
    (hd : d.isInterface = true) (s : Session) :
    ∃ t, (describe d).perform s = (s.interface? r d.fullName, t) ∧ s.Alike r t := by
  rw [describe, Pass.perform_bind, Pass.perform_get]
  rcases hs : s.interfaces.lookup d.fullName with _ | i
  · have hanswer : s.interface? r d.fullName = ofDefinition d := by
      simp only [Session.interface?, hs, hfind, hd, if_true]
    rw [hanswer]
    simp only [hs, Pass.perform_bind, Pass.perform_ofExcept]
    rcases hi : ofDefinition d with e | i
    · exact ⟨s, rfl, .refl r s⟩
    · exact ⟨_, rfl, .set (hanswer.trans hi)⟩
  · refine ⟨s, ?_, .refl r s⟩
    simp only [hs, Pass.perform_pure, Session.interface?]

/-- **A look-up gives the answer.**  What it writes down changes no answer. -/
theorem lookup_perform (hr : r.Indexed) (s : Session) (fullName : String) :
    ∃ t, (lookup r (.str fullName)).perform s = (s.interface? r fullName, t) ∧
      s.Alike r t := by
  rw [lookup, Pass.perform_bind, Pass.perform_get]
  rcases hs : s.interfaces.lookup fullName with _ | i
  · rcases hd : r.find? fullName with _ | d
    · refine ⟨s, ?_, .refl r s⟩
      simp only [hs, hd, Pass.perform_throw, Session.interface?]
    · obtain rfl : d.fullName = fullName := hr fullName d hd
      by_cases hi : d.isInterface = true
      · simpa only [hs, hd, hi, if_true] using describe_perform hd hi s
      · refine ⟨s, ?_, .refl r s⟩
        simp only [hs, hd, hi, Session.interface?]
        rfl
  · refine ⟨s, ?_, .refl r s⟩
    simp only [hs, Pass.perform_pure, Session.interface?]

/-- A name that is no text has no interface, and not every such name can be asked for. -/
theorem lookup_perform_of_ne {v : Value} (hv : ∀ fullName, v ≠ .str fullName) (s : Session) :
    (lookup r v).perform s =
      (.error (if v.isKey then .unknownInterface v.text else .fault .wrongKind), s) := by
  unfold lookup
  split
  · exact absurd rfl (hv _)
  · split
    · rfl
    · rfl

end InterfaceDecl

/-! ## 3.  Computations that agree -/

/-- A relation between sessions in which their journals play no part. -/
class Session.Quiet (S : Session → Session → Prop) : Prop where
  journals : ∀ {s t : Session}, S s t → ∀ j k : Journal,
    S { s with journal := j } { t with journal := k }

instance (r : Repository) : Session.Quiet (Session.Alike r) where
  journals h _ _ := ⟨h.names, h.interface?⟩

namespace Pass

variable {α β : Type} {r : Repository} {S : Session → Session → Prop}

/-- In related sessions the results are the same, the sessions stay related, and a result has a
property. -/
def Agree (S : Session → Session → Prop) (x y : Pass α) (P : α → Prop) : Prop :=
  ∀ s t, S s t →
    (x.perform s).1 = (y.perform t).1 ∧ S (x.perform s).2 (y.perform t).2 ∧
      ∀ a, (x.perform s).1 = .ok a → P a

namespace Agree

variable {P P' : α → Prop} {Q : β → Prop}

theorem weaken {x y : Pass α} (h : Agree S x y P) (hP : ∀ a, P a → P' a) : Agree S x y P' :=
  fun s t hst => ⟨(h s t hst).1, (h s t hst).2.1, fun a ha => hP a ((h s t hst).2.2 a ha)⟩

theorem ofExcept {x : Except Failure α} (hP : ∀ a, x = .ok a → P a) :
    Agree S (Pass.ofExcept x) (Pass.ofExcept x) P :=
  fun _ _ h => ⟨rfl, h, hP⟩

theorem pure {a : α} (ha : P a) : Agree S (Pure.pure a) (Pure.pure a) P :=
  fun _ _ h => ⟨rfl, h, fun _ hb => Except.ok.inj hb ▸ ha⟩

theorem throw (e : Failure) :
    Agree S (MonadExcept.throw e : Pass α) (MonadExcept.throw e) P := by
  refine fun _ _ h => ⟨rfl, h, fun a ha => ?_⟩
  cases ha

theorem note [Session.Quiet S] (e e' : Entry) :
    Agree S (Keeps.note e) (Keeps.note e') fun _ => True :=
  fun _ _ h => ⟨rfl, Session.Quiet.journals h _ _, fun _ _ => trivial⟩

theorem bind {x y : Pass α} {f g : α → Pass β} (hxy : Agree S x y P)
    (hfg : ∀ a, P a → Agree S (f a) (g a) Q) : Agree S (x >>= f) (y >>= g) Q := by
  intro s t h
  obtain ⟨hresult, hsession, hP⟩ := hxy s t h
  rw [perform_bind, perform_bind]
  rcases hs : x.perform s with ⟨_ | a, s'⟩ <;> rcases ht : y.perform t with ⟨_ | b, t'⟩ <;>
    rw [hs, ht] at hresult hsession <;> simp only [reduceCtorEq, Except.ok.injEq] at hresult
  · obtain rfl := Except.error.inj hresult
    refine ⟨rfl, hsession, fun b hb => ?_⟩
    cases hb
  · subst hresult
    exact hfg a (hP a (by rw [hs])) s' t' hsession

theorem note_bind [Session.Quiet S] (e e' : Entry) {x y : Pass α} (h : Agree S x y P) :
    Agree S (Keeps.note e >>= fun _ => x) (Keeps.note e' >>= fun _ => y) P :=
  (note e e').bind fun _ _ => h

theorem and {x y : Pass α} {P' : α → Prop} (h : Agree S x y P)
    (hP : ∀ s t, S s t → ∀ a s', x.perform s = (.ok a, s') → P' a) :
    Agree S x y fun a => P a ∧ P' a := by
  intro s t hst
  obtain ⟨hresult, hsession, hpost⟩ := h s t hst
  exact ⟨hresult, hsession, fun a ha => ⟨hpost a ha, hP s t hst a _ (Prod.ext ha rfl)⟩⟩

theorem ok {x y : Pass α} {s s' t : Session} {a : α} (hxy : Agree S x y P)
    (h : x.perform s = (.ok a, s')) (hst : S s t) :
    ∃ t', y.perform t = (.ok a, t') ∧ S s' t' := by
  obtain ⟨hresult, hsession, -⟩ := hxy s t hst
  rw [h] at hresult hsession
  exact ⟨(y.perform t).2, Prod.ext hresult.symm rfl, hsession⟩

theorem error {x y : Pass α} {s s' t : Session} {e : Failure} (hxy : Agree S x y P)
    (h : x.perform s = (.error e, s')) (hst : S s t) :
    ∃ t', y.perform t = (.error e, t') ∧ S s' t' := by
  obtain ⟨hresult, hsession, -⟩ := hxy s t hst
  rw [h] at hresult hsession
  exact ⟨(y.perform t).2, Prod.ext hresult.symm rfl, hsession⟩

/-- What holds of each member if its computation ends well holds of all of them. -/
theorem mapM {f g : α → Pass β} {l : List α} {P : α → Prop}
    (hfg : ∀ a ∈ l, Agree S (f a) (g a) fun _ => P a) :
    Agree S (l.mapM f) (l.mapM g) fun _ => ∀ a ∈ l, P a := by
  induction l with
  | nil => exact pure (by simp)
  | cons a l ih =>
    rw [List.mapM_cons, List.mapM_cons]
    refine (hfg a List.mem_cons_self).bind fun _ ha => ?_
    refine (ih fun c hc => hfg c (List.mem_cons_of_mem a hc)).bind fun _ hl => ?_
    exact pure (List.forall_mem_cons.2 ⟨ha, hl⟩)

theorem forM {f g : α → Pass Unit} {l : List α}
    (hfg : ∀ a ∈ l, Agree S (f a) (g a) fun _ => True) :
    Agree S (l.forM f) (l.forM g) fun _ => True := by
  induction l with
  | nil => exact pure trivial
  | cons a l ih =>
    exact (hfg a List.mem_cons_self).bind fun _ _ =>
      ih fun c hc => hfg c (List.mem_cons_of_mem a hc)

/-- What each step keeps is kept to the end. -/
theorem foldlM {f g : β → α → Pass β} {l : List α}
    (hfg : ∀ b, Q b → ∀ a ∈ l, Agree S (f b a) (g b a) Q) {b : β} (hb : Q b) :
    Agree S (l.foldlM f b) (l.foldlM g b) Q := by
  induction l generalizing b with
  | nil => exact pure hb
  | cons a l ih =>
    rw [List.foldlM_cons, List.foldlM_cons]
    exact (hfg b hb a List.mem_cons_self).bind fun c hc =>
      ih (fun b' hb' a' ha' => hfg b' hb' a' (List.mem_cons_of_mem a ha')) hc

theorem tryCatch {x y : Pass α} {f g : Failure → Pass α} (hxy : Agree S x y P)
    (hfg : ∀ e, Agree S (f e) (g e) P) :
    Agree S (MonadExcept.tryCatch x f) (MonadExcept.tryCatch y g) P := by
  intro s t h
  obtain ⟨hresult, hsession, hP⟩ := hxy s t h
  rw [perform_tryCatch, perform_tryCatch]
  rcases hs : x.perform s with ⟨e | a, s'⟩ <;> rcases ht : y.perform t with ⟨e' | b, t'⟩ <;>
    rw [hs, ht] at hresult hsession <;> simp only [reduceCtorEq, Except.ok.injEq] at hresult
  · obtain rfl : e = e' := Except.error.inj hresult
    exact hfg e s' t' hsession
  · exact ⟨congrArg Except.ok hresult, hsession, fun c hc => hP c (by rw [hs]; exact hc)⟩

theorem timed [Session.Quiet S] {x y : Pass α} (speaker : Speaker) (operation : String)
    (hxy : Agree S x y P) : Agree S (timed speaker operation x) (timed speaker operation y) P :=
  (note_bind _ _ (hxy.tryCatch fun _ => note_bind _ _ (throw _))).bind fun _ ha =>
    note_bind _ _ (pure ha)

end Agree

/-- A look-up gives the same answer in sessions that are alike. -/
theorem agree_lookup (hr : r.Indexed) (v : Value) :
    Agree (Session.Alike r) (InterfaceDecl.lookup r v) (InterfaceDecl.lookup r v)
      fun _ => True := by
  intro s t h
  by_cases hv : ∃ fullName, v = .str fullName
  · obtain ⟨fullName, rfl⟩ := hv
    obtain ⟨s', hs, hss'⟩ := InterfaceDecl.lookup_perform hr s fullName
    obtain ⟨t', ht, htt'⟩ := InterfaceDecl.lookup_perform hr t fullName
    rw [hs, ht]
    exact ⟨h.interface? fullName, (hss'.symm.trans h).trans htt', fun _ _ => trivial⟩
  · unfold InterfaceDecl.lookup
    split
    · exact absurd ⟨_, rfl⟩ hv
    · split
      · exact Agree.throw _ s t h
      · exact Agree.throw _ s t h

end Pass

/-- Sessions that remember the same: names of references of a kind, and interfaces of a kind. -/
structure Session.Same (Named : TypeRef → Prop) (Known : InterfaceDecl → Prop) (s t : Session) :
    Prop where
  names : s.names = t.names
  named : ∀ e ∈ s.names, Named e.1
  interfaces : s.interfaces = t.interfaces
  known : ∀ i ∈ s.interfaces.values, Known i

instance (Named : TypeRef → Prop) (Known : InterfaceDecl → Prop) :
    Session.Quiet (Session.Same Named Known) where
  journals h _ _ := ⟨h.names, h.named, h.interfaces, h.known⟩

theorem Session.Same.start (Named : TypeRef → Prop) (Known : InterfaceDecl → Prop) :
    Session.Same Named Known {} {} where
  names := rfl
  named := by simp
  interfaces := rfl
  known := by simp [Table.values]

namespace InterfaceDecl

variable {Named : TypeRef → Prop} {Known : InterfaceDecl → Prop} {r r' : Repository}

/-- A definition is described alike in sessions that remember the same. -/
theorem agree_describe {d : TypeDef} (hd : ∀ i, ofDefinition d = .ok i → Known i) :
    Pass.Agree (Session.Same Named Known) (describe d) (describe d) Known := by
  intro s t h
  rw [describe, Pass.perform_bind, Pass.perform_get, Pass.perform_bind, Pass.perform_get]
  rcases hs : s.interfaces.lookup d.fullName with _ | i
  · have ht : t.interfaces.lookup d.fullName = none := h.interfaces ▸ hs
    simp only [hs, ht, Pass.perform_bind, Pass.perform_ofExcept]
    rcases hi : ofDefinition d with e | i
    · refine ⟨rfl, h, fun _ hok => ?_⟩
      cases hok
    · have hknown : ∀ j ∈ (s.interfaces.set d.fullName i).values, Known j := by
        intro j hj
        rcases Table.mem_values_set hj with rfl | hj
        · exact hd j hi
        · exact h.known j hj
      refine ⟨rfl, ⟨h.names, h.named, ?_, hknown⟩, fun j hj => ?_⟩
      · exact congrArg (Table.set d.fullName i) h.interfaces
      · obtain rfl := Except.ok.inj hj
        exact hd i hi
  · have ht : t.interfaces.lookup d.fullName = some i := h.interfaces ▸ hs
    simp only [hs, ht]
    refine ⟨rfl, h, fun j hj => ?_⟩
    obtain rfl := Except.ok.inj hj
    exact h.known i (Table.mem_values_of_lookup hs)

/-- A name is looked up alike in sessions that remember the same, if it leads to the same
definition. -/
theorem agree_lookup {v : Value} (hfind : ∀ k, v = .str k → r.find? k = r'.find? k)
    (hknown : ∀ k d i, v = .str k → r'.find? k = some d → ofDefinition d = .ok i → Known i) :
    Pass.Agree (Session.Same Named Known) (lookup r v) (lookup r' v) Known := by
  by_cases hv : ∃ k, v = .str k
  · obtain ⟨k, rfl⟩ := hv
    intro s t h
    rw [lookup, lookup, Pass.perform_bind, Pass.perform_get, Pass.perform_bind, Pass.perform_get,
      hfind k rfl]
    rcases hs : s.interfaces.lookup k with _ | i
    · have ht : t.interfaces.lookup k = none := h.interfaces ▸ hs
      simp only [hs, ht]
      rcases hd : r'.find? k with _ | d
      · exact Pass.Agree.throw _ s t h
      · by_cases hi : d.isInterface = true
        · simp only [hi, if_true]
          exact agree_describe (fun i => hknown k d i rfl hd) s t h
        · simp only [hi]
          exact Pass.Agree.throw _ s t h
    · have ht : t.interfaces.lookup k = some i := h.interfaces ▸ hs
      simp only [hs, ht]
      exact Pass.Agree.pure (h.known i (Table.mem_values_of_lookup hs)) s t h
  · unfold lookup
    split
    · exact absurd ⟨_, rfl⟩ hv
    · split
      · exact .throw _
      · exact .throw _

end InterfaceDecl

/-! ## 4.  Computations that remember nothing -/

namespace Pass

variable {α β : Type} {r : Repository}

/-- In a session that answers like a new one, the result is a given one, and the session goes on
answering like a new one. -/
def Yields (r : Repository) (x : Pass α) (e : Except Failure α) : Prop :=
  ∀ s, s.Alike r {} → ∃ s', x.perform s = (e, s') ∧ s'.Alike r {}

namespace Yields

theorem pure (a : α) : Yields r (Pure.pure a) (.ok a) :=
  fun s h => ⟨s, rfl, h⟩

theorem throw (e : Failure) : Yields r (MonadExcept.throw e : Pass α) (.error e) :=
  fun s h => ⟨s, rfl, h⟩

theorem note (e : Entry) : Yields r (Keeps.note e) (.ok ()) :=
  fun s h => ⟨_, rfl, (Session.Alike.journal r s _).symm.trans h⟩

theorem bind {x : Pass α} {e : Except Failure α} {f : α → Pass β} {g : α → Except Failure β}
    (hx : Yields r x e) (hf : ∀ a, Yields r (f a) (g a)) : Yields r (x >>= f) (e >>= g) := by
  intro s hs
  obtain ⟨t, ht, hfresh⟩ := hx s hs
  rw [perform_bind, ht]
  rcases e with e | a
  · exact ⟨t, rfl, hfresh⟩
  · exact hf a t hfresh

theorem note_bind (n : Entry) {x : Pass α} {e : Except Failure α} (hx : Yields r x e) :
    Yields r (Keeps.note n >>= fun _ => x) e :=
  (note n).bind fun _ => hx

theorem foldlM {f : β → α → Pass β} {g : β → α → Except Failure β} {l : List α}
    (h : ∀ b, ∀ a ∈ l, Yields r (f b a) (g b a)) (b : β) :
    Yields r (l.foldlM f b) (l.foldlM g b) := by
  induction l generalizing b with
  | nil => exact pure b
  | cons a l ih =>
    rw [List.foldlM_cons, List.foldlM_cons]
    exact (h b a List.mem_cons_self).bind fun c =>
      ih (fun b' a' ha' => h b' a' (List.mem_cons_of_mem a ha')) c

theorem tryCatch {x : Pass α} {e : Except Failure α} {f : Failure → Pass α} (hx : Yields r x e)
    (hf : ∀ c, Yields r (f c) (.error c)) : Yields r (MonadExcept.tryCatch x f) e := by
  intro s hs
  obtain ⟨t, ht, hfresh⟩ := hx s hs
  rw [perform_tryCatch, ht]
  rcases e with c | a
  · exact hf c t hfresh
  · exact ⟨t, rfl, hfresh⟩

theorem timed {x : Pass α} {e : Except Failure α} (speaker : Speaker) (operation : String)
    (hx : Yields r x e) : Yields r (timed speaker operation x) e := by
  have hwatched : Yields r (watched speaker operation x) e :=
    note_bind _ (hx.tryCatch fun c => note_bind _ (throw c))
  have htimed := hwatched.bind fun a =>
    note_bind ⟨speaker, .debug, [.text s!"Completed {operation} in ", .seconds, .text "s"]⟩ (pure a)
  rcases e with c | a
  · exact htimed
  · exact htimed

end Yields

end Pass

namespace InterfaceDecl

variable {r : Repository}

theorem describe_yields {d : TypeDef} (hfind : r.find? d.fullName = some d)
    (hd : d.isInterface = true) : Pass.Yields r (describe d) (ofDefinition d) := by
  intro s hs
  obtain ⟨t, ht, hst⟩ := describe_perform hfind hd s
  refine ⟨t, ?_, hst.symm.trans hs⟩
  have hanswer : Session.interface? r {} d.fullName = ofDefinition d := by
    simp [Session.interface?, hfind, hd]
  rw [ht, hs.interface?, hanswer]

end InterfaceDecl

end ComHeaders
