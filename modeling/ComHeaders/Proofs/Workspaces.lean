import ComHeaders.Workspace

/-!
# Computing in workspaces

A computation in a workspace may fail and changes the workspace in any case.  This file says what
its building blocks do, and which of them have a result that no workspace can change.

## 1.  The building blocks

`Work.perform_bind` takes a sequence apart, as for passes.

## 2.  Results

A computation `Gives` a result if it has this result in every workspace.  It `Records` if besides it
does nothing to the workspace but keep a journal and count.  The journal never bears on a result,
nor does what was counted, and a whole pass brings a session of its own.  What reads a file has a
result in one workspace only (`RecordsAt`).
-/

namespace ComHeaders

namespace Work

variable {α β : Type}

/-! ## 1.  The building blocks -/

/-- A sequence: the second part is performed in the workspace behind the first. -/
theorem perform_bind (x : Work α) (f : α → Work β) (w : Workspace) :
    (x >>= f).perform w =
      match x.perform w with
      | (.ok a, v) => (f a).perform v
      | (.error e, v) => (.error e, v) := by
  show StateT.run (ExceptT.run (x >>= f)) w = _
  rw [ExceptT.run_bind, StateT.run_bind, perform]
  rcases StateT.run x.run w with ⟨_ | a, v⟩
  · rfl
  · rfl

/-- A failure is caught in the workspace behind it. -/
theorem perform_tryCatch (x : Work α) (f : Failure → Work α) (w : Workspace) :
    (tryCatch x f).perform w =
      match x.perform w with
      | (.ok a, v) => (.ok a, v)
      | (.error e, v) => (f e).perform v := by
  show ExceptT.run (tryCatch x f) w = _
  simp only [tryCatch, tryCatchThe, MonadExceptOf.tryCatch, ExceptT.tryCatch, ExceptT.run_mk]
  show (StateT.bind x.run _) w = _
  simp only [StateT.bind, bind]
  rcases h : x.run w with ⟨_ | a, v⟩
  · simp only [perform, StateT.run, h]
    rfl
  · simp only [perform, StateT.run, h]
    rfl

theorem perform_map (f : α → β) (x : Work α) (w : Workspace) :
    (f <$> x).perform w =
      match x.perform w with
      | (.ok a, v) => (.ok (f a), v)
      | (.error e, v) => (.error e, v) := by
  rw [← bind_pure_comp, perform_bind]
  rfl

@[simp]
theorem perform_note (e : Entry) (w : Workspace) :
    (note e : Work Unit).perform w = (.ok (), w.accept e) :=
  rfl

theorem perform_get (w : Workspace) : (get : Work Workspace).perform w = (.ok w, w) :=
  rfl

theorem perform_modify (f : Workspace → Workspace) (w : Workspace) :
    (modify f : Work Unit).perform w = (.ok (), f w) :=
  rfl

theorem perform_ofExcept (e : Except Failure α) (w : Workspace) :
    (ofExcept e).perform w = (e, w) :=
  rfl

theorem perform_makeDirectories (p : Path) (w : Workspace) :
    (makeDirectories p).perform w =
      (faulty (w.files.makeDirectories p).1, { w with files := (w.files.makeDirectories p).2 }) :=
  rfl

/-- A text is written if it can be, and else nothing happens. -/
theorem perform_writeText (p : Path) (text : String) (w : Workspace) :
    (writeText p text).perform w =
      match w.files.write p text.toUTF8 with
      | .ok files => (.ok (), { w with files := files })
      | .error f => (.error (.fault f), w) := by
  show ((get : Work Workspace) >>= fun v => _).perform w = _
  rw [perform_bind]
  show ((ofExcept (faulty (w.files.write p text.toUTF8))) >>= fun files => _).perform w = _
  rw [perform_bind]
  rcases w.files.write p text.toUTF8 with f | files
  · rfl
  · rfl

/-- An operation that is watched is performed behind the entry that announces it.  If it fails there
is another entry. -/
theorem perform_watched (speaker : Speaker) (operation : String) (x : Work α) (w : Workspace) :
    ∃ (n : Entry) (m : Failure → Entry), (watched speaker operation x).perform w =
      match x.perform (w.accept n) with
      | (.ok a, v) => (.ok a, v)
      | (.error e, v) => (.error e, v.accept (m e)) := by
  refine ⟨.plain speaker .debug s!"Starting {operation}", fun e => ⟨speaker, .error,
    [.text s!"Failed {operation} after ", .seconds, .text "s:", .cause e]⟩, ?_⟩
  rw [watched, perform_bind, perform_note]
  exact perform_tryCatch _ _ _

/-! ## 2.  Results -/

end Work

namespace Workspace

/-- The workspace that has taken the entries of a journal and has counted. -/
def recording (w : Workspace) (j : Journal) (f : Tally → Tally) : Workspace :=
  { j.foldl accept w with tally := f w.tally }

variable {w : Workspace} {j j' : Journal} {f f' : Tally → Tally}

theorem foldl_accept_counted (t : Tally) :
    j.foldl accept { w with tally := t } = { j.foldl accept w with tally := t } := by
  rw [← Array.foldl_toList, ← Array.foldl_toList]
  induction j.toList generalizing w with
  | nil => rfl
  | cons e l ih => exact ih (w := w.accept e)

theorem recording_recording :
    (w.recording j f).recording j' f' = w.recording (j ++ j') (f' ∘ f) := by
  rw [recording, recording, recording, Array.foldl_append, foldl_accept_counted]
  rfl

theorem accept_recording {e : Entry} : (w.accept e).recording j f = w.recording (#[e] ++ j) f := by
  rw [recording, recording, Array.foldl_append]
  rfl

theorem recording_id : w.recording j id = j.foldl accept w := by
  have hsame : j.foldl accept w = { j.foldl accept w with tally := w.tally } :=
    foldl_accept_counted w.tally
  exact hsame.symm

end Workspace

namespace Work

variable {α β : Type}

/-- In every workspace the result is a given one. -/
def Gives (x : Work α) (e : Except Failure α) : Prop :=
  ∀ w, (x.perform w).1 = e

/-- In every workspace the result is a given one, and nothing is done but keeping a journal and
counting in a given way. -/
def Records (x : Work α) (e : Except Failure α) (f : Tally → Tally) : Prop :=
  ∀ w, ∃ j, x.perform w = (e, w.recording j f)

/-- From one workspace the result is a given one, and nothing is done but keeping a journal and
counting in a given way. -/
def RecordsAt (w : Workspace) (x : Work α) (e : Except Failure α) (f : Tally → Tally) : Prop :=
  ∃ j, x.perform w = (e, w.recording j f)

namespace RecordsAt

variable {w : Workspace} {x : Work α} {e : Except Failure α} {f f' k : Tally → Tally} {c : Failure}
variable {a : α}

theorem pure (a : α) : RecordsAt w (Pure.pure a) (.ok a) id :=
  ⟨#[], rfl⟩

theorem throw (c : Failure) : RecordsAt w (MonadExcept.throw c : Work α) (.error c) id :=
  ⟨#[], rfl⟩

/-- What comes behind a result goes on from the workspace that has recorded. -/
theorem bind {g : α → Work β} {e : Except Failure β} (hx : RecordsAt w x (.ok a) f)
    (hg : ∀ j, RecordsAt (w.recording j f) (g a) e f') (hk : f' ∘ f = k := by rfl) :
    RecordsAt w (x >>= g) e k := by
  subst hk
  obtain ⟨j, hj⟩ := hx
  obtain ⟨j', hj'⟩ := hg j
  refine ⟨j ++ j', ?_⟩
  rw [perform_bind, hj, ← Workspace.recording_recording]
  exact hj'

theorem bind_error (hx : RecordsAt w x (.error c) f) (g : α → Work β) :
    RecordsAt w (x >>= g) (.error c) f := by
  obtain ⟨j, hj⟩ := hx
  refine ⟨j, ?_⟩
  rw [perform_bind, hj]

theorem sequence {g : α → Work β} {r : α → Except Failure β} (hx : RecordsAt w x e id)
    (hg : ∀ a j, e = .ok a → RecordsAt (w.recording j id) (g a) (r a) id) :
    RecordsAt w (x >>= g) (e >>= r) id := by
  rcases e with c | a
  · exact hx.bind_error g
  · exact hx.bind fun j => hg a j rfl

theorem note_bind (n : Entry) (hx : RecordsAt (w.accept n) x e f) :
    RecordsAt w (Keeps.note n >>= fun _ => x) e f := by
  obtain ⟨j, hj⟩ := hx
  refine ⟨#[n] ++ j, ?_⟩
  rw [perform_bind, perform_note, ← Workspace.accept_recording]
  exact hj

theorem tryCatch {h : Failure → Work α} (hx : RecordsAt w x e f)
    (hh : ∀ c v, RecordsAt v (h c) (.error c) id) :
    RecordsAt w (MonadExcept.tryCatch x h) e f := by
  obtain ⟨j, hj⟩ := hx
  rw [RecordsAt, perform_tryCatch, hj]
  rcases e with c | a
  · obtain ⟨j', hj'⟩ := hh c (w.recording j f)
    exact ⟨j ++ j', hj'.trans (congrArg (Prod.mk _) Workspace.recording_recording)⟩
  · exact ⟨j, rfl⟩

theorem bind_note (n : α → Entry) (hx : RecordsAt w x e f) :
    RecordsAt w (x >>= fun a => Keeps.note (n a) >>= fun _ => Pure.pure a) e f := by
  rcases e with c | a
  · exact hx.bind_error _
  · exact hx.bind (g := fun a => Keeps.note (n a) >>= fun _ => Pure.pure a) fun _ =>
      note_bind (n a) (pure a)

theorem timed (speaker : Speaker) (operation : String) (hx : ∀ n, RecordsAt (w.accept n) x e f) :
    RecordsAt w (timed speaker operation x) e f :=
  bind_note _ (note_bind _ ((hx _).tryCatch fun c _ => note_bind _ (throw c)))

end RecordsAt

namespace Records

variable {x : Work α} {e : Except Failure α} {f f' k : Tally → Tally} {c : Failure} {a : α}

theorem gives (h : Records x e f) : Gives x e := by
  intro w
  obtain ⟨j, hj⟩ := h w
  rw [hj]

theorem here (h : Records x e f) (w : Workspace) : RecordsAt w x e f :=
  h w

theorem pure (a : α) : Records (Pure.pure a) (.ok a) id :=
  fun _ => RecordsAt.pure a

theorem throw (c : Failure) : Records (MonadExcept.throw c : Work α) (.error c) id :=
  fun _ => RecordsAt.throw c

theorem ofExcept (e : Except Failure α) : Records (Work.ofExcept e) e id :=
  fun _ => ⟨#[], rfl⟩

theorem ofPass (x : Pass α) : Records (Work.ofPass x) (x.perform {}).1 id :=
  fun _ => ⟨(x.perform {}).2.journal, Prod.ext rfl Workspace.recording_id.symm⟩

theorem bind {g : α → Work β} {e : Except Failure β} (hx : Records x (.ok a) f)
    (hg : Records (g a) e f') (hk : f' ∘ f = k := by rfl) : Records (x >>= g) e k :=
  fun w => (hx.here w).bind (fun _ => hg.here _) hk

theorem bind_error (hx : Records x (.error c) f) (g : α → Work β) :
    Records (x >>= g) (.error c) f :=
  fun w => (hx.here w).bind_error g

theorem note_bind (n : Entry) (hx : Records x e f) : Records (Keeps.note n >>= fun _ => x) e f :=
  fun w => RecordsAt.note_bind n (hx.here (w.accept n))

theorem note (n : Entry) : Records (Keeps.note n) (.ok ()) id :=
  fun _ => ⟨#[n], rfl⟩

theorem forM_note (n : α → Entry) (l : List α) :
    Records (l.forM fun a => Keeps.note (n a)) (.ok ()) id := by
  induction l with
  | nil => exact .pure ()
  | cons a l ih => exact .note_bind (n a) ih

theorem count (f : Tally → Tally) : Records (Work.count f) (.ok ()) f :=
  fun _ => ⟨#[], rfl⟩

theorem get_bind {x : Workspace → Work α} (hx : ∀ v, Records (x v) e f) :
    Records (get >>= x) e f :=
  fun w => hx w w

/-- A failure that is passed on is the result. -/
theorem tryCatch {h : Failure → Work α} (hx : Records x e f)
    (hh : ∀ c, Records (h c) (.error c) id) : Records (MonadExcept.tryCatch x h) e f :=
  fun w => (hx.here w).tryCatch fun c => (hh c).here

theorem bind_note (n : α → Entry) (hx : Records x e f) :
    Records (x >>= fun a => Keeps.note (n a) >>= fun _ => Pure.pure a) e f :=
  fun w => (hx.here w).bind_note n

theorem timed (speaker : Speaker) (operation : String) (hx : Records x e f) :
    Records (timed speaker operation x) e f :=
  fun _ => RecordsAt.timed speaker operation fun _ => hx.here _

end Records

end Work

end ComHeaders
