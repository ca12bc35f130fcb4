import ComHeaders.Proofs.Pass

/-!
# Passes side by side

Two computations can be done side by side, from the same sessions.  They are `Abreast` if they go on
to the same sessions, with results that look alike or with one failure.  Either of them may fall
behind: it ends with a failure that is excused, and nothing is said of the other one then.

Computations stay abreast when they are put together from parts that are (`Abreast.bind`,
`Abreast.mapM`), and what they have in common needs no proof (`Abreast.after`).
-/

namespace ComHeaders

namespace Pass

variable {α β : Type} {X Y V W : Failure → Prop} {R : α → α → Prop} {Q : β → β → Prop}

/-- What two runs come to: the same session with results that look alike, or with one failure; or
else one of them ends with a failure that is excused. -/
inductive Outcomes (X Y : Failure → Prop) (R : α → α → Prop) :
    Except Failure α × Session → Except Failure α × Session → Prop where
  | ok {a b : α} (h : R a b) (s : Session) : Outcomes X Y R (.ok a, s) (.ok b, s)
  | error (e : Failure) (s : Session) : Outcomes X Y R (.error e, s) (.error e, s)
  | left {e : Failure} (h : X e) (s : Session) (y : Except Failure α × Session) :
      Outcomes X Y R (.error e, s) y
  | right {e : Failure} (h : Y e) (x : Except Failure α × Session) (s : Session) :
      Outcomes X Y R x (.error e, s)

/-- From each session two computations come to the same. -/
def Abreast (X Y : Failure → Prop) (R : α → α → Prop) (x y : Pass α) : Prop :=
  ∀ s, Outcomes X Y R (x.perform s) (y.perform s)

namespace Abreast

variable {x y : Pass α}

theorem weaken (h : Abreast X Y R x y) (hX : ∀ e, X e → V e) (hY : ∀ e, Y e → W e) :
    Abreast V W R x y := by
  intro s
  have hs := h s
  generalize x.perform s = left at hs ⊢
  generalize y.perform s = right at hs ⊢
  rcases hs with ⟨hR, t⟩ | ⟨e, t⟩ | ⟨he, t, _⟩ | ⟨he, _, t⟩
  · exact .ok hR t
  · exact .error e t
  · exact .left (hX _ he) t _
  · exact .right (hY _ he) _ t

theorem pure {a b : α} (h : R a b) : Abreast X Y R (Pure.pure a) (Pure.pure b) :=
  fun s => .ok h s

theorem bind {f g : α → Pass β} (h : Abreast X Y R x y)
    (hfg : ∀ a b, R a b → Abreast X Y Q (f a) (g b)) : Abreast X Y Q (x >>= f) (y >>= g) := by
  intro s
  rw [perform_bind, perform_bind]
  have hs := h s
  generalize x.perform s = left at hs ⊢
  generalize y.perform s = right at hs ⊢
  rcases hs with ⟨hR, t⟩ | ⟨e, t⟩ | ⟨he, t, _⟩ | ⟨he, _, t⟩
  · exact hfg _ _ hR t
  · exact .error e t
  · exact .left he t _
  · exact .right he _ t

theorem after_of {P : α → Prop} {f g : α → Pass β}
    (hP : ∀ s a s', x.perform s = (.ok a, s') → P a) (hfg : ∀ a, P a → Abreast X Y Q (f a) (g a)) :
    Abreast X Y Q (x >>= f) (x >>= g) := by
  intro s
  rw [perform_bind, perform_bind]
  rcases hx : x.perform s with ⟨e | a, t⟩
  · exact .error e t
  · exact hfg a (hP s a t hx) t

theorem after {f g : α → Pass β} (hfg : ∀ a, Abreast X Y Q (f a) (g a)) :
    Abreast X Y Q (x >>= f) (x >>= g) :=
  after_of (P := fun _ => True) (fun _ _ _ _ => trivial) fun a _ => hfg a

/-- Members that look alike make lists that look alike. -/
theorem mapM {γ δ : Type} {view : γ → δ} {f g : α → Pass γ} {l : List α}
    (hfg : ∀ a ∈ l, Abreast X Y (fun c d => view c = view d) (f a) (g a)) :
    Abreast X Y (fun cs ds => cs.map view = ds.map view) (l.mapM f) (l.mapM g) := by
  induction l with
  | nil => exact .pure rfl
  | cons a l ih =>
    obtain ⟨ha, hl⟩ := List.forall_mem_cons.1 hfg
    rw [List.mapM_cons, List.mapM_cons]
    refine ha.bind fun c d hcd => (ih hl).bind fun cs ds hrest => .pure ?_
    rw [List.map_cons, List.map_cons, hcd, hrest]

/-- A failure that is passed on stays the outcome. -/
theorem tryCatch (h : Abreast X Y R x y) {f : Failure → Pass α}
    (hf : ∀ e s, ∃ s', (f e).perform s = (.error e, s')) :
    Abreast X Y R (MonadExcept.tryCatch x f) (MonadExcept.tryCatch y f) := by
  intro s
  rw [perform_tryCatch, perform_tryCatch]
  have hs := h s
  generalize x.perform s = left at hs ⊢
  generalize y.perform s = right at hs ⊢
  rcases hs with ⟨hR, t⟩ | ⟨e, t⟩ | @⟨e, he, t, _⟩ | @⟨e, he, _, t⟩
  · exact .ok hR t
  · obtain ⟨t', ht'⟩ := hf e t
    simp only [ht']
    exact .error e t'
  · obtain ⟨t', ht'⟩ := hf e t
    simp only [ht']
    exact .left he t' _
  · obtain ⟨t', ht'⟩ := hf e t
    simp only [ht']
    exact .right he _ t'

theorem timed (speaker : Speaker) (operation : String) (h : Abreast X Y R x y) :
    Abreast X Y R (timed speaker operation x) (timed speaker operation y) :=
  (after fun _ => h.tryCatch fun _ _ => ⟨_, rfl⟩).bind fun _ _ hab => after fun _ => .pure hab

end Abreast

end Pass

end ComHeaders
