import ComHeaders.Proofs.Keys
import ComHeaders.Proofs.Naming.Agreement
import Mathlib.Data.List.Forall2

/-!
# Names that stay

A name that was found is remembered, and what is remembered is never found anew.  So a reference
that was named once can be named again at any later time in the same pass, and unless its name
was null it is the same name again.

## 1.  Recalling

`Session.Recalls s t` says that `t` remembers everything that `s` remembers.  Naming only adds
to what is remembered: an entry for a new reference hides no old one, since references that
share an entry are the same key (`TypeRef.sameKey_of_common`).

## 2.  Naming again

`Naming.name_again` is about a session that recalls the one behind a naming.  Null is not
remembered, so a reference whose name was null is named by the rules again; they succeed again,
and that is all that can be said.
-/

namespace ComHeaders

namespace Session

/-! ## 1.  Recalling -/

/-- The second session gives every answer that the first one gives: it remembers the names that
the first one remembers and has the same interfaces. -/
structure Recalls (rep : Repository) (s t : Session) : Prop where
  remembered : ∀ r v, r.isKey = true → Naming.remembered? s r = some v →
    Naming.remembered? t r = some v
  interface? : ∀ fullName, s.interface? rep fullName = t.interface? rep fullName

namespace Recalls

variable {rep : Repository} {s t u : Session}

theorem refl (rep : Repository) (s : Session) : Recalls rep s s :=
  ⟨fun _ _ _ h => h, fun _ => rfl⟩

theorem trans (h : Recalls rep s t) (h' : Recalls rep t u) : Recalls rep s u :=
  ⟨fun r v hr hv => h'.remembered r v hr (h.remembered r v hr hv),
    fun k => (h.interface? k).trans (h'.interface? k)⟩

theorem journal (rep : Repository) (s : Session) (j : Journal) :
    Recalls rep s { s with journal := j } :=
  ⟨fun _ _ _ h => h, fun _ => rfl⟩

theorem of_alike (h : s.Alike rep t) : Recalls rep s t :=
  ⟨fun r v _ hv => by rwa [Naming.remembered?, ← h.names], h.interface?⟩

end Recalls

end Session

namespace Naming

variable {rep : Repository} {n : Naming} {s s' t : Session} {r : TypeRef} {v : Value}

/-- The session that also remembers a name. -/
def remembering (r : TypeRef) (v : Value) (s : Session) : Session :=
  { s with names := (r, v) :: s.names }

theorem remember_perform (hv : v ≠ .null) (s : Session) :
    (remember r v).perform s = (.ok (), remembering r v s) := by
  cases v <;> first | rfl | exact absurd rfl hv

theorem remembered?_remembering (q : TypeRef) :
    remembered? (remembering r v s) q = if r.sameKey q then some v else remembered? s q := by
  rw [remembered?, remembering, List.find?_cons]
  rcases r.sameKey q with _ | _
  · rfl
  · rfl

/-- A name for a reference that has none hides no other name. -/
theorem recalls_remembering (hr : remembered? s r = none) :
    s.Recalls rep (remembering r v s) := by
  refine ⟨fun q w hq hw => ?_, fun _ => rfl⟩
  have hskip : ¬ r.sameKey q = true := by
    intro hrq
    rw [remembered?, Option.map_eq_some_iff] at hw
    obtain ⟨e, he, -⟩ := hw
    have heq : e.1.sameKey q = true := by simpa using List.find?_some he
    have hnone : ∀ e ∈ s.names, ¬ e.1.sameKey r = true := by
      simpa [remembered?, List.find?_eq_none] using hr
    exact hnone e (List.mem_of_find?_eq_some he) (TypeRef.sameKey_of_common hq heq hrq)
  rw [remembered?_remembering, if_neg hskip, hw]

/-- A naming that ends well found the name in memory or by the rules. -/
theorem name_ok (h : (n.name r).perform s = (.ok v, s')) :
    r.isKey = true ∧
      ((remembered? s r = some v ∧ s' = s) ∨
        (remembered? s r = none ∧
          ∃ t, (n.found r).perform s = (.ok v, t) ∧
            (remember r v).perform t = (.ok (), s'))) := by
  rw [name_perform] at h
  split at h
  · rename_i hr
    refine ⟨hr, ?_⟩
    rcases hmemory : remembered? s r with _ | w
    · rw [hmemory] at h
      obtain ⟨w, t, hfound, h⟩ := Pass.perform_bind_ok.1 h
      obtain ⟨⟨⟩, u, hremember, h⟩ := Pass.perform_bind_ok.1 h
      obtain ⟨rfl, rfl⟩ : w = v ∧ u = s' := by simpa using h
      exact .inr ⟨rfl, t, hfound, hremember⟩
    · rw [hmemory] at h
      obtain ⟨rfl, rfl⟩ : w = v ∧ s = s' := by simpa using h
      exact .inl ⟨rfl, rfl⟩
  · simp at h

theorem name_of_remembered (hr : r.isKey = true) (h : remembered? t r = some v) :
    (n.name r).perform t = (.ok v, t) := by
  rw [name_perform, if_pos hr, h]

/-! ### What a naming adds -/

/-- The number of layers of a reference. -/
def layers : TypeRef → Nat
  | .pointer element => layers element + 1
  | .array element _ => layers element + 1
  | _ => 0

theorem found_of_layers (h : layers r = 0) : n.found r = n.ruled r := by
  cases r <;> first | rfl | cases h

theorem layers_eq_of_sameKey {q r : TypeRef} (h : q.sameKey r = true) : layers q = layers r := by
  induction q generalizing r with
  | pointer element ih =>
    cases r <;> simp only [TypeRef.sameKey, Bool.false_eq_true] at h
    rw [layers, layers, ih h]
  | array element length ih =>
    cases r <;> simp only [TypeRef.sameKey, Bool.false_eq_true, Bool.and_eq_true] at h
    rw [layers, layers, ih h.1]
  | _ => cases r <;> simp_all [TypeRef.sameKey, layers]

/-- A session that recalls another one and has learnt nothing about references of more layers
than a given number. -/
structure Adds (rep : Repository) (k : Nat) (s s' : Session) : Prop where
  recalls : s.Recalls rep s'
  above : ∀ q, k < layers q → remembered? s' q = remembered? s q

theorem Adds.journal (rep : Repository) (k : Nat) (s : Session) (j : Journal) :
    Adds rep k s { s with journal := j } :=
  ⟨.journal rep s j, fun _ _ => rfl⟩

/-- A name that the rules have found for a new reference is remembered from then on, unless it is
null. -/
theorem adds_remember (hr : r.isKey = true) (hmemory : remembered? t r = none)
    (h : (remember r v).perform t = (.ok (), s')) :
    Adds rep (layers r) t s' ∧ (v ≠ .null → remembered? s' r = some v) := by
  by_cases hv : v = .null
  · subst hv
    obtain rfl : t = s' := by simpa [remember] using h
    exact ⟨.journal rep _ t t.journal, fun hne => absurd rfl hne⟩
  · rw [remember_perform hv, Prod.mk.injEq] at h
    obtain ⟨-, rfl⟩ := h
    refine ⟨⟨recalls_remembering hmemory, fun q hq => ?_⟩, fun _ => ?_⟩
    · rw [remembered?_remembering, if_neg]
      intro hrq
      rw [layers_eq_of_sameKey hrq] at hq
      exact absurd hq (Nat.lt_irrefl _)
    · rw [remembered?_remembering, if_pos (TypeRef.sameKey_refl hr)]

theorem ruled_perform (n : Naming) (r : TypeRef) (s : Session) :
    ∃ j, (n.ruled r).perform s = (n.baseName r, { s with journal := j }) := by
  unfold ruled
  split
  · exact ⟨_, rfl⟩
  · exact ⟨s.journal, rfl⟩

/-- If the rules add nothing about a reference before it is remembered, then naming it adds
nothing about references of more layers. -/
theorem adds_of_found
    (hfound : ∀ {s t v}, (n.found r).perform s = (.ok v, t) →
      s.Recalls rep t ∧ ∀ q, layers r ≤ layers q → remembered? t q = remembered? s q)
    (h : (n.name r).perform s = (.ok v, s')) :
    Adds rep (layers r) s s' ∧ (v ≠ .null → remembered? s' r = some v) := by
  obtain ⟨hr, ⟨hmemory, rfl⟩ | ⟨hmemory, t, hrules, hremember⟩⟩ := name_ok h
  · exact ⟨.journal rep _ s' s'.journal, fun _ => hmemory⟩
  · obtain ⟨hrecalls, habove⟩ := hfound hrules
    have hnone : remembered? t r = none := (habove r (Nat.le_refl _)).trans hmemory
    obtain ⟨hadds, hv⟩ := adds_remember hr hnone hremember
    exact ⟨⟨hrecalls.trans hadds.recalls, fun q hq =>
      (hadds.above q hq).trans (habove q (Nat.le_of_lt hq))⟩, hv⟩

theorem ruled_adds (h : (n.ruled r).perform s = (.ok v, t)) :
    s.Recalls rep t ∧ ∀ q, layers r ≤ layers q → remembered? t q = remembered? s q := by
  obtain ⟨j, hj⟩ := ruled_perform n r s
  rw [hj, Prod.mk.injEq] at h
  obtain ⟨-, rfl⟩ := h
  exact ⟨.journal rep s j, fun _ _ => rfl⟩

/-- The rules for a reference add nothing about the reference itself. -/
theorem found_adds (h : (n.found r).perform s = (.ok v, t)) :
    s.Recalls rep t ∧ ∀ q, layers r ≤ layers q → remembered? t q = remembered? s q := by
  induction r generalizing s t v with
  | pointer element ih =>
    obtain ⟨w, u, helement, h⟩ := Pass.perform_bind_ok.1 h
    obtain ⟨-, rfl⟩ := Pass.perform_ofExcept_ok.1 h
    obtain ⟨hadds, -⟩ := adds_of_found ih helement
    exact ⟨hadds.recalls, fun q hq => hadds.above q hq⟩
  | array element _ ih =>
    obtain ⟨hadds, -⟩ := adds_of_found ih h
    exact ⟨hadds.recalls, fun q hq => hadds.above q hq⟩
  | _ =>
    rw [found_of_layers rfl] at h
    exact ruled_adds h

/-- **Nothing is forgotten.**  Naming a reference keeps all answers. -/
theorem name_recalls (h : (n.name r).perform s = (.ok v, s')) : s.Recalls rep s' :=
  (adds_of_found found_adds h).1.recalls

theorem name_remembered (h : (n.name r).perform s = (.ok v, s')) (hv : v ≠ .null) :
    remembered? s' r = some v := by
  have hadds : Adds n.repository (layers r) s s' ∧ (v ≠ .null → remembered? s' r = some v) :=
    adds_of_found found_adds h
  exact hadds.2 hv

/-! ## 2.  Naming again -/

theorem remember_ok (r : TypeRef) (v : Value) (s : Session) :
    ∃ s', (remember r v).perform s = (.ok (), s') := by
  cases v <;> exact ⟨_, rfl⟩

/-- A reference is named if it is remembered or the rules name it. -/
theorem name_of_found {w : Value} {u : Session} (hr : r.isKey = true)
    (h : (n.found r).perform t = (.ok w, u)) :
    ∃ w' t', (n.name r).perform t = (.ok w', t') := by
  rcases hmemory : remembered? t r with _ | w'
  · obtain ⟨t', ht'⟩ := remember_ok r w u
    refine ⟨w, t', ?_⟩
    rw [name_perform, if_pos hr, hmemory]
    exact Pass.perform_bind_ok.2 ⟨w, u, h, Pass.perform_bind_ok.2 ⟨(), t', ht', rfl⟩⟩
  · exact ⟨w', t, name_of_remembered hr hmemory⟩

theorem starred_ne_null (v : Value) : starred v ≠ .ok .null := by
  cases v <;> simp [starred, TypeRef.marked, faulty, Value.asText, bind, Except.bind, pure,
    Except.pure, Except.mapError]

theorem ruled_again (h : (n.ruled r).perform s = (.ok v, s')) (t : Session) :
    ∃ t', (n.ruled r).perform t = (.ok v, t') := by
  obtain ⟨j, hj⟩ := ruled_perform n r s
  obtain ⟨j', hj'⟩ := ruled_perform n r t
  rw [hj, Prod.mk.injEq] at h
  exact ⟨_, by rw [hj', h.1]⟩

/-- A reference whose name was null is named again. -/
theorem name_again_of_null (h : (n.name r).perform s = (.ok .null, s')) (ht : s'.Recalls rep t) :
    ∃ w t', (n.name r).perform t = (.ok w, t') := by
  induction r generalizing s s' with
  | pointer element _ =>
    obtain ⟨hkey, ⟨hmemory, rfl⟩ | ⟨-, u, hfound, -⟩⟩ := name_ok h
    · exact ⟨_, t, name_of_remembered hkey (ht.remembered _ _ hkey hmemory)⟩
    · obtain ⟨w, u', -, hstarred⟩ := Pass.perform_bind_ok.1 hfound
      exact absurd (Pass.perform_ofExcept_ok.1 hstarred).1 (starred_ne_null w)
  | array element _ ih =>
    obtain ⟨hkey, ⟨hmemory, rfl⟩ | ⟨-, u, hfound, hremember⟩⟩ := name_ok h
    · exact ⟨_, t, name_of_remembered hkey (ht.remembered _ _ hkey hmemory)⟩
    · obtain rfl : u = s' := by simpa [remember] using hremember
      obtain ⟨w, t', helement⟩ := ih hfound ht
      exact name_of_found hkey helement
  | _ =>
    obtain ⟨hkey, ⟨hmemory, rfl⟩ | ⟨-, u, hfound, -⟩⟩ := name_ok h
    · exact ⟨_, t, name_of_remembered hkey (ht.remembered _ _ hkey hmemory)⟩
    · rw [found_of_layers rfl] at hfound
      obtain ⟨t', hruled⟩ := ruled_again hfound t
      rw [← found_of_layers rfl] at hruled
      exact name_of_found hkey hruled

/-- **What was named is named again.** -/
theorem name_again (h : (n.name r).perform s = (.ok v, s')) (ht : s'.Recalls rep t) :
    ∃ w t', (n.name r).perform t = (.ok w, t') ∧ (v ≠ .null → w = v) ∧ t.Recalls rep t' := by
  have hkey := (name_ok h).1
  suffices hagain : ∃ w t', (n.name r).perform t = (.ok w, t') ∧ (v ≠ .null → w = v) by
    obtain ⟨w, t', hw, hv⟩ := hagain
    exact ⟨w, t', hw, hv, name_recalls hw⟩
  by_cases hv : v = .null
  · subst hv
    obtain ⟨w, t', hw⟩ := name_again_of_null h ht
    exact ⟨w, t', hw, fun hne => absurd rfl hne⟩
  · have hremembered := ht.remembered r v hkey (name_remembered h hv)
    exact ⟨v, t, name_of_remembered hkey hremembered, fun _ => rfl⟩

/-- A value that is a text wherever another one is. -/
def TextIfText (v w : Value) : Prop :=
  ∀ a, v = .str a → ∃ b, w = .str b

/-- A parameter whose type was named is named again, by a text if it was one before. -/
theorem parameterName_again {isConst : Bool}
    (h : (n.parameterName r isConst).perform s = (.ok v, s')) :
    s.Recalls rep s' ∧ ∀ t, s'.Recalls rep t → ∃ w t',
      (n.parameterName r isConst).perform t = (.ok w, t') ∧ TextIfText v w ∧ t.Recalls rep t' := by
  obtain ⟨found, u, hname, h⟩ := Pass.perform_bind_ok.1 h
  rw [Pass.perform_pure, Prod.mk.injEq, Except.ok.injEq] at h
  obtain ⟨rfl, rfl⟩ := h
  refine ⟨name_recalls hname, fun t ht => ?_⟩
  obtain ⟨w, t', hw, heq, ht'⟩ := name_again hname ht
  refine ⟨_, t', Pass.perform_bind_ok.2 ⟨w, t', hw, rfl⟩, ?_, ht'⟩
  rcases isConst with _ | _
  · intro a (ha : found = .str a)
    subst ha
    exact ⟨a, heq (by simp)⟩
  · exact fun _ _ => ⟨_, rfl⟩

/-- The types of some parameters, likewise. -/
theorem parameterNames_again {ps : List ParameterDecl} {types : List Value}
    (h : (ps.mapM fun p => n.parameterName p.type p.isConst).perform s = (.ok types, s')) :
    s.Recalls rep s' ∧ ∀ t, s'.Recalls rep t → ∃ types' t',
      (ps.mapM fun p => n.parameterName p.type p.isConst).perform t = (.ok types', t') ∧
        List.Forall₂ TextIfText types types' ∧ t.Recalls rep t' := by
  induction ps generalizing s types with
  | nil =>
    obtain ⟨rfl, rfl⟩ : types = [] ∧ s' = s := by
      simpa [List.mapM_nil, eq_comm] using h
    exact ⟨.refl rep _, fun t _ => ⟨[], t, rfl, .nil, .refl rep t⟩⟩
  | cons p ps ih =>
    rw [List.mapM_cons] at h
    obtain ⟨v, u, hhead, h⟩ := Pass.perform_bind_ok.1 h
    obtain ⟨vs, u', htail, h⟩ := Pass.perform_bind_ok.1 h
    rw [Pass.perform_pure, Prod.mk.injEq, Except.ok.injEq] at h
    obtain ⟨rfl, rfl⟩ := h
    obtain ⟨hsu, hheadAgain⟩ := parameterName_again hhead
    obtain ⟨huu', htailAgain⟩ := ih htail
    refine ⟨hsu.trans huu', fun t ht => ?_⟩
    obtain ⟨w, t₁, hw, hvw, htt₁⟩ := hheadAgain t (huu'.trans ht)
    obtain ⟨ws, t₂, hws, hvws, ht₁t₂⟩ := htailAgain t₁ (ht.trans htt₁)
    refine ⟨w :: ws, t₂, ?_, .cons hvw hvws, htt₁.trans ht₁t₂⟩
    rw [List.mapM_cons]
    exact Pass.perform_bind_ok.2 ⟨w, t₁, hw, Pass.perform_bind_ok.2 ⟨ws, t₂, hws, rfl⟩⟩

/-- Texts stay texts. -/
theorem mapM_asText_of_forall₂ {vs ws : List Value} {texts : List String}
    (h : List.Forall₂ TextIfText vs ws) (hvs : vs.mapM Value.asText = .ok texts) :
    ∃ texts', ws.mapM Value.asText = .ok texts' := by
  induction h generalizing texts with
  | nil => exact ⟨[], rfl⟩
  | @cons v w vs ws hvw _ ih =>
    rw [List.mapM_cons] at hvs
    rcases v with _ | _ | _ | _ | a | _ | _ <;> try cases hvs
    obtain ⟨b, rfl⟩ := hvw a rfl
    rcases htail : vs.mapM Value.asText with e | rest
    · rw [htail] at hvs
      cases hvs
    · obtain ⟨rest', hrest'⟩ := ih htail
      refine ⟨b :: rest', ?_⟩
      rw [List.mapM_cons, hrest']
      rfl

/-- Whether a remembered type is an aggregate depends on its name, and asking changes nothing. -/
theorem returnsAggregate_of_remembered (n : Naming) (hr : r.isKey = true) (v : Value) :
    ∃ e, ∀ t, remembered? t r = some v → (n.returnsAggregate r).perform t = (e, t) := by
  by_cases hlayers : r.isVoid || r.isPrimitive || r.isPointer
  · refine ⟨.ok false, fun t _ => ?_⟩
    rw [returnsAggregate, if_pos hlayers]
    rfl
  by_cases hvalue : !r.isValueType
  · refine ⟨.ok false, fun t _ => ?_⟩
    rw [returnsAggregate, if_neg hlayers, if_pos hvalue]
    rfl
  by_cases hscalar : scalarHandles.any fun h => v.sameKey (.str h)
  · refine ⟨.ok false, fun t ht => ?_⟩
    rw [returnsAggregate, if_neg hlayers, if_neg hvalue, Pass.perform_bind,
      name_of_remembered hr ht]
    simp only [if_pos hscalar]
    rfl
  · refine ⟨(n.isEnum r).map (!·), fun t ht => ?_⟩
    rw [returnsAggregate, if_neg hlayers, if_neg hvalue, Pass.perform_bind,
      name_of_remembered hr ht]
    simp only [if_neg hscalar, Pass.perform_bind, Pass.perform_ofExcept]
    rcases n.isEnum r with e | b
    · rfl
    · rfl

end Naming

end ComHeaders
