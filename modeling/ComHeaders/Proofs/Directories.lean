import ComHeaders.Proofs.Files

/-!
# Making directories

Before anything is written the directories that it goes to are made, together with those above
them.  This file says what that does to a tree.

## 1.  Shapes

What can be done with paths depends on where there are directories and where there are files, and
not on what the files hold.  Trees that have the same shape lead paths to the same places, by the
same faults where they lead nowhere, and directories are made in them alike
(`SameShape.makeDirectories`).

## 2.  Growing trees

Making directories removes nothing and changes no file (`grows_makeDirectories`), so a file that was
there is read as before.

## 3.  Files beside the log

Where nothing is done but keeping the log, a file that is not the log is read as before.  It does
not become the log either (`FileApart`).
-/

namespace ComHeaders

namespace FileTree

variable {t t' t'' : FileTree} {place : Location} {p : Path} {c : Contents}

/-- A directory is made where a path leads, if nothing is found there and this is not refused. -/
theorem makeDirectory_of_locate (h : t.locate p = .ok place) :
    t.makeDirectory p = match t.node? place with
      | some _ => .error (.fileExists p.text)
      | none => if t.refuses place.dropLast .write then .error (.permissionDenied p.text)
        else .ok (t.set place .directory) := by
  rw [makeDirectory, h]
  rfl

theorem makeDirectory_of_error {f : Fault} (h : t.locate p = .error f) :
    t.makeDirectory p = .error f := by
  rw [makeDirectory, h]
  rfl

/-- No directory is made where a file stands. -/
theorem makeDirectories_of_file (hplace : t.locate p = .ok place)
    (hnode : t.node? place = some (.file c)) :
    t.makeDirectories p = (.error (.fileExists p.text), t) := by
  have hmade : t.makeDirectory p = .error (.fileExists p.text) := by
    rw [makeDirectory_of_locate hplace, hnode]
  have hdirectory : t.isDirectory p = false := by
    rw [isDirectory, find?, hplace]
    simp only [hnode]
  rw [makeDirectories.eq_def, hmade]
  simp only [hdirectory, Bool.false_eq_true, if_false]

theorem makeDirectories_of_nothing (hplace : t.locate p = .ok place) (hnode : t.node? place = none)
    (hallowed : t.refuses place.dropLast .write = false) :
    t.makeDirectories p = (.ok (), t.set place .directory) := by
  have hmade : t.makeDirectory p = .ok (t.set place .directory) := by
    rw [makeDirectory_of_locate hplace, hnode]
    simp only [hallowed, Bool.false_eq_true, if_false]
  rw [makeDirectories.eq_def, hmade]

theorem ne_root_of_nothing (h : t.node? place = none) : place ≠ [] := by
  rintro rfl
  cases h

/-! ## 1.  Shapes -/

/-- What is found at two places is of one kind. -/
inductive SameKind : Option Node → Option Node → Prop
  | nothing : SameKind none none
  | directory : SameKind (some .directory) (some .directory)
  | file (c c' : Contents) : SameKind (some (.file c)) (some (.file c'))

theorem SameKind.refl (n : Option Node) : SameKind n n := by
  rcases n with _ | _ | c
  · exact .nothing
  · exact .directory
  · exact .file c c

/-- Trees with directories and files at the same places, in which the same is refused. -/
structure SameShape (t t' : FileTree) : Prop where
  here : t.here = t'.here
  refuses : t.refuses = t'.refuses
  kind : ∀ place, SameKind (t.node? place) (t'.node? place)

namespace SameShape

theorem follow (h : SameShape t t') (text : String) (names : List String) :
    t.follow text place names = t'.follow text place names := by
  induction names generalizing place with
  | nil => rfl
  | cons name rest ih =>
    rw [FileTree.follow, FileTree.follow]
    have hkind := h.kind place
    generalize t.node? place = n at hkind ⊢
    generalize t'.node? place = n' at hkind ⊢
    cases hkind with
    | nothing => rfl
    | directory => simp only [ih, h.refuses]
    | file => rfl

/-- **Paths lead to the same places, or fail alike.** -/
theorem locate (h : SameShape t t') (p : Path) : t.locate p = t'.locate p := by
  rw [FileTree.locate, FileTree.locate, h.here, h.follow]

theorem find? (h : SameShape t t') (p : Path) : SameKind (t.find? p) (t'.find? p) := by
  rw [FileTree.find?, FileTree.find?, h.locate]
  rcases t'.locate p with f | place
  · exact .nothing
  · exact h.kind place

theorem isDirectory (h : SameShape t t') (p : Path) : t.isDirectory p = t'.isDirectory p := by
  rw [FileTree.isDirectory, FileTree.isDirectory]
  have hkind := h.find? p
  generalize t.find? p = n at hkind ⊢
  generalize t'.find? p = n' at hkind ⊢
  cases hkind with
  | nothing => rfl
  | directory => rfl
  | file => rfl

theorem set (h : SameShape t t') (hplace : place ≠ []) (n : Node) :
    SameShape (t.set place n) (t'.set place n) := by
  refine ⟨h.here, h.refuses, fun other => ?_⟩
  rw [node?_set hplace, node?_set hplace]
  split
  · exact .refl _
  · exact h.kind other

/-- A directory is made in both trees, or in neither and by one fault. -/
theorem makeDirectory (h : SameShape t t') (p : Path) :
    (∃ f, t.makeDirectory p = .error f ∧ t'.makeDirectory p = .error f) ∨
      ∃ u u', t.makeDirectory p = .ok u ∧ t'.makeDirectory p = .ok u' ∧ SameShape u u' := by
  rcases hplace' : t'.locate p with f | place
  · have hplace := (h.locate p).trans hplace'
    exact .inl ⟨f, makeDirectory_of_error hplace, makeDirectory_of_error hplace'⟩
  have hplace := (h.locate p).trans hplace'
  rw [makeDirectory_of_locate hplace, makeDirectory_of_locate hplace']
  have hkind := h.kind place
  rcases hnode : t.node? place with _ | n
  · rw [hnode] at hkind
    rcases hnode' : t'.node? place with _ | n'
    · simp only [h.refuses]
      split
      · exact .inl ⟨_, rfl, rfl⟩
      · exact .inr ⟨_, _, rfl, rfl, h.set (ne_root_of_nothing hnode) .directory⟩
    · rw [hnode'] at hkind
      cases hkind
  · rcases hnode' : t'.node? place with _ | n'
    · rw [hnode, hnode'] at hkind
      cases hkind
    · exact .inl ⟨_, rfl, rfl⟩

/-- **Directories are made alike.**  This goes up through the directories above. -/
theorem makeDirectories (h : SameShape t t') (p : Path) :
    (t.makeDirectories p).1 = (t'.makeDirectories p).1 ∧
      SameShape (t.makeDirectories p).2 (t'.makeDirectories p).2 := by
  rw [FileTree.makeDirectories.eq_def t, FileTree.makeDirectories.eq_def t']
  rcases h.makeDirectory p with ⟨f, hf, hf'⟩ | ⟨u, u', hu, hu', hmade⟩
  · rw [hf, hf']
    cases f with
    | fileNotFound text =>
      by_cases hparts : p.parts = []
      · simp only [hparts, dite_true]
        exact ⟨trivial, h⟩
      · simp only [hparts, dite_false]
        have := Path.length_parent_lt hparts
        obtain ⟨hresult, habove⟩ := makeDirectories h p.parent
        rcases hr : t.makeDirectories p.parent with ⟨x, above⟩
        rcases hr' : t'.makeDirectories p.parent with ⟨x', above'⟩
        rw [hr, hr'] at hresult habove
        obtain rfl : x = x' := hresult
        rcases x with e | _
        · exact ⟨rfl, habove⟩
        · rcases habove.makeDirectory p with ⟨f, hf, hf'⟩ | ⟨u, u', hu, hu', hmade⟩
          · simp only [hf, hf']
            cases f with
            | fileNotFound text => exact ⟨rfl, habove⟩
            | _ => exact ⟨by simp only [habove.isDirectory], habove⟩
          · simp only [hu, hu']
            exact ⟨trivial, hmade⟩
    | _ => exact ⟨by simp only [h.isDirectory], h⟩
  · rw [hu, hu']
    exact ⟨rfl, hmade⟩
termination_by p.parts.length

end SameShape

/-! ## 2.  Growing trees -/

/-- What is found in the first tree is found in the second one as well, and the same is refused. -/
structure Grows (t t' : FileTree) : Prop where
  here : t.here = t'.here
  refuses : t.refuses = t'.refuses
  node? : ∀ place n, t.node? place = some n → t'.node? place = some n

namespace Grows

theorem refl (t : FileTree) : Grows t t :=
  ⟨rfl, rfl, fun _ _ h => h⟩

theorem trans (h : Grows t t') (h' : Grows t' t'') : Grows t t'' :=
  ⟨h.here.trans h'.here, h.refuses.trans h'.refuses,
    fun place n hn => h'.node? place n (h.node? place n hn)⟩

theorem set (hplace : t.node? place = none) (n : Node) : Grows t (t.set place n) := by
  refine ⟨rfl, rfl, fun other m hm => ?_⟩
  rw [node?_set (ne_root_of_nothing hplace), if_neg]
  · exact hm
  · rintro rfl
    cases hplace.symm.trans hm

theorem follow (h : Grows t t') {text : String} {names : List String} {target : Location}
    (hfollow : t.follow text place names = .ok target) :
    t'.follow text place names = .ok target := by
  induction names generalizing place with
  | nil => exact hfollow
  | cons name rest ih =>
    obtain ⟨hplace, hallowed, hshort, hrest⟩ := follow_cons.1 hfollow
    exact follow_cons.2 ⟨h.node? place _ hplace, h.refuses ▸ hallowed, hshort, ih hrest⟩

/-- A path that leads somewhere goes on leading there. -/
theorem locate (h : Grows t t') (hplace : t.locate p = .ok place) : t'.locate p = .ok place := by
  rw [FileTree.locate] at hplace ⊢
  split at hplace
  · cases hplace
  split at hplace
  · cases hplace
  rename_i hnull hlong
  rw [if_neg hnull, if_neg hlong, ← h.here]
  exact h.follow hplace

/-- **A file that was there is read as before.** -/
theorem read (h : Grows t t') (hplace : t.locate p = .ok place)
    (hnode : t.node? place = some (.file c)) : t'.read p = t.read p := by
  rw [FileTree.read, FileTree.read, hplace, h.locate hplace]
  simp only [bind, Except.bind, hnode, h.node? place _ hnode, h.refuses]

theorem makeDirectory (h : t.makeDirectory p = .ok t') : Grows t t' := by
  rcases hplace : t.locate p with f | place
  · rw [makeDirectory_of_error hplace] at h
    cases h
  · rw [makeDirectory_of_locate hplace] at h
    rcases hnode : t.node? place with _ | n
    · rw [hnode] at h
      simp only at h
      split at h
      · cases h
      · cases h
        exact set hnode .directory
    · rw [hnode] at h
      cases h

end Grows

/-- **Making directories removes nothing.** -/
theorem grows_makeDirectories (t : FileTree) (p : Path) : Grows t (t.makeDirectories p).2 := by
  rw [makeDirectories.eq_def]
  split
  · rename_i made hmade
    exact .makeDirectory hmade
  · split
    · exact .refl t
    · rename_i hparts
      have := Path.length_parent_lt hparts
      have habove := grows_makeDirectories t p.parent
      split
      · rename_i e above hr
        rwa [hr] at habove
      · rename_i above hr
        rw [hr] at habove
        split
        · rename_i made hmade
          exact habove.trans (.makeDirectory hmade)
        · exact habove
        · exact habove
  · exact .refl t
termination_by p.parts.length

end FileTree

/-! ## 3.  Files beside the log -/

namespace Workspace

variable {w v : Workspace} {p : Path} {files : FileTree}

/-- A path leads to the log. -/
def LogsTo (w : Workspace) (p : Path) : Prop :=
  ∃ place, w.files.locate p = .ok place ∧ w.logPlace? = some place

namespace OnlyLogs

theorem sameShape (h : OnlyLogs w v) : w.files.SameShape v.files := by
  refine ⟨h.directories.here, h.directories.refuses, fun place => ?_⟩
  rcases h.kept place with hsame | ⟨-, data, more, hw, hv⟩
  · rw [hsame]
    exact .refl _
  · rw [hw, hv]
    exact .file _ _

theorem logsTo_iff (h : OnlyLogs w v) : v.LogsTo p ↔ w.LogsTo p := by
  rw [LogsTo, LogsTo, h.sameShape.locate, h.logPlace?]

/-- **A file that is not the log is read as before.** -/
theorem read (h : OnlyLogs w v) (hlog : ¬ w.LogsTo p) : v.files.read p = w.files.read p := by
  rw [FileTree.read, FileTree.read, ← h.sameShape.locate, ← h.directories.refuses]
  rcases hplace : w.files.locate p with f | place
  · rfl
  · have hsame := (h.kept place).node?_eq fun hlogPlace => hlog ⟨place, hplace, hlogPlace⟩
    simp only [bind, Except.bind, hsame]

end OnlyLogs

/-- A path leads to a file, and there is a log, which is another file. -/
structure FileApart (w : Workspace) (p : Path) : Prop where
  file : ∃ place c, w.files.locate p = .ok place ∧ w.files.node? place = some (.file c)
  log : ∃ place, w.logPlace? = some place
  apart : ¬ w.LogsTo p

namespace FileApart

theorem of_onlyLogs (h : w.FileApart p) (hlogs : OnlyLogs w v) : v.FileApart p where
  file := by
    obtain ⟨place, c, hplace, hnode⟩ := h.file
    have hsame := (hlogs.kept place).node?_eq fun hlog => h.apart ⟨place, hplace, hlog⟩
    exact ⟨place, c, hlogs.directories.locate.1 hplace, hsame.trans hnode⟩
  log := hlogs.logPlace? ▸ h.log
  apart := fun hlog => h.apart (hlogs.logsTo_iff.1 hlog)

/-- Also where the files grow the log stays another file. -/
theorem of_grows (h : w.FileApart p) (hgrows : w.files.Grows files) :
    { w with files := files }.FileApart p := by
  obtain ⟨place, c, hplace, hnode⟩ := h.file
  obtain ⟨logPlace, hlogPlace⟩ := h.log
  obtain ⟨q, hq, hlocate⟩ := logPlace?_eq_some.1 hlogPlace
  have hlocate' : files.locate (q.absolute files.here) = .ok logPlace :=
    hgrows.here ▸ hgrows.locate hlocate
  have hlogPlace' : { w with files := files }.logPlace? = some logPlace :=
    logPlace?_eq_some.2 ⟨q, hq, hlocate'⟩
  refine ⟨⟨place, c, hgrows.locate hplace, hgrows.node? place _ hnode⟩, ⟨logPlace, hlogPlace'⟩, ?_⟩
  rintro ⟨other, hother, hlog⟩
  obtain rfl := Except.ok.inj ((hgrows.locate hplace).symm.trans hother)
  obtain rfl := Option.some.inj (hlogPlace'.symm.trans hlog)
  exact h.apart ⟨_, hplace, hlogPlace⟩

theorem read_of_grows (h : w.FileApart p) (hgrows : w.files.Grows files) :
    files.read p = w.files.read p := by
  obtain ⟨place, c, hplace, hnode⟩ := h.file
  exact hgrows.read hplace hnode

end FileApart

end Workspace

end ComHeaders
