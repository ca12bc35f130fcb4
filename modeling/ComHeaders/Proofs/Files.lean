import ComHeaders.Proofs.Pass
import ComHeaders.Proofs.Workspaces

/-!
# Files that stay

Writing a file changes what is found at one place.  It also bears on where paths lead, since paths
are followed through the tree that is written to, so this has to be excluded first.

## 1.  Directories

Where a path leads depends on the directories alone, and writing makes none and removes none
(`SameDirectories`).

## 2.  The log

A workspace that takes an entry may write to a file as well, namely to its log.  `Kept` says what
remains true of a place then: the same is found there, or it holds the log, with more entries.
-/

namespace ComHeaders

namespace FileTree

variable {t t' t'' : FileTree} {place target : Location} {p : Path} {c : Contents}

/-! ## 1.  Directories -/

theorem locate_of_short (hnull : '\x00' ∉ p.text.toList)
    (hshort : p.text.utf8ByteSize ≤ maxPathBytes) :
    t.locate p = t.follow p.text (match p.anchor with | .here => t.here | _ => []) p.parts := by
  rw [locate, String.contains_char_eq, decide_eq_false hnull]
  exact (if_neg Bool.false_ne_true).trans (if_neg (Nat.not_lt.2 hshort))

/-- A path goes on from a directory that may be gone through, by a name that is not too long. -/
theorem follow_cons {text name : String} {rest : List String} :
    t.follow text place (name :: rest) = .ok target ↔
      t.node? place = some .directory ∧ t.refuses place .search = false ∧
        name.utf8ByteSize ≤ maxNameBytes ∧ t.follow text (down place name) rest = .ok target := by
  rw [follow]
  split
  · rename_i hplace
    cases hrefused : t.refuses place .search with
    | true => simp
    | false =>
      by_cases hlong : maxNameBytes < name.utf8ByteSize
      · simp [hlong]
      · simp [hplace, hlong, Nat.le_of_not_lt hlong]
  · rename_i hplace
    simp [hplace]
  · rename_i hplace
    simp [hplace]

/-- A tree and a later one with the same directories.  Paths start at the same place, the same is
refused, and no file was taken away. -/
structure SameDirectories (t t' : FileTree) : Prop where
  here : t.here = t'.here
  refuses : t.refuses = t'.refuses
  directory : ∀ place, t.node? place = some .directory ↔ t'.node? place = some .directory
  nothing : ∀ place, t'.node? place = none → t.node? place = none

namespace SameDirectories

theorem refl (t : FileTree) : SameDirectories t t :=
  ⟨rfl, rfl, fun _ => Iff.rfl, fun _ => id⟩

theorem trans (h : SameDirectories t t') (h' : SameDirectories t' t'') : SameDirectories t t'' :=
  ⟨h.here.trans h'.here, h.refuses.trans h'.refuses,
    fun place => (h.directory place).trans (h'.directory place),
    fun place hnone => h.nothing place (h'.nothing place hnone)⟩

theorem follow (h : SameDirectories t t') {text : String} {names : List String} :
    t.follow text place names = .ok target ↔ t'.follow text place names = .ok target := by
  induction names generalizing place with
  | nil => rfl
  | cons name rest ih => rw [follow_cons, follow_cons, h.directory, h.refuses, ih]

/-- **Paths lead to the same places.** -/
theorem locate (h : SameDirectories t t') : t.locate p = .ok place ↔ t'.locate p = .ok place := by
  rw [FileTree.locate, FileTree.locate, h.here]
  split
  · rfl
  · split
    · rfl
    · exact h.follow

end SameDirectories

theorem ne_root_of_not_directory (h : t.node? place ≠ some .directory) : place ≠ [] := by
  rintro rfl
  exact h rfl

/-- Where there is no directory, a file can be put. -/
theorem sameDirectories_set (h : t.node? place ≠ some .directory) :
    SameDirectories t (t.set place (.file c)) := by
  have hset (other : Location) := node?_set (t := t) (b := other) (n := .file c)
    (ne_root_of_not_directory h)
  refine ⟨rfl, rfl, fun other => ?_, fun other hnone => ?_⟩
  · rw [hset]
    split
    · rename_i hother
      simp [hother, h]
    · rfl
  · rw [hset] at hnone
    split at hnone
    · cases hnone
    · exact hnone

/-- A place at which a file can be written. -/
structure MayWrite (t : FileTree) (place : Location) : Prop where
  noDirectory : t.node? place ≠ some .directory
  allowed : t.refuses place .write = false
  /-- A new file needs a directory to which files can be added. -/
  above : t.node? place = none → t.refuses place.dropLast .write = false

/-- A path at which a file can be written. -/
def Writable (t : FileTree) (p : Path) : Prop :=
  ∃ place, t.locate p = .ok place ∧ t.MayWrite place

theorem SameDirectories.mayWrite (h : SameDirectories t t') (hp : t.MayWrite place) :
    t'.MayWrite place where
  noDirectory h' := hp.noDirectory ((h.directory place).2 h')
  allowed := h.refuses ▸ hp.allowed
  above hnone := h.refuses ▸ hp.above (h.nothing place hnone)

theorem SameDirectories.writable (h : SameDirectories t t') (hp : t.Writable p) :
    t'.Writable p := by
  obtain ⟨place, hlocate, hplace⟩ := hp
  exact ⟨place, h.locate.1 hlocate, h.mayWrite hplace⟩

theorem mayWrite_iff : t.MayWrite place ↔
    t.node? place ≠ some .directory ∧ t.refusesFile place = false := by
  constructor
  · rintro ⟨hnot, hallowed, habove⟩
    refine ⟨hnot, ?_⟩
    rw [refusesFile, hallowed]
    cases hnode : t.node? place with
    | none => simpa using habove hnode
    | some n => rfl
  · rintro ⟨hnot, hallowed⟩
    rw [refusesFile, Bool.or_eq_false_iff] at hallowed
    exact ⟨hnot, hallowed.1, fun hnone => by simpa [hnone] using hallowed.2⟩

theorem writePlace_ok : t.writePlace p = .ok place ↔ t.locate p = .ok place ∧ t.MayWrite place := by
  rw [writePlace, Result.bind_eq_ok, mayWrite_iff]
  constructor
  · rintro ⟨other, hlocate, h⟩
    split at h
    · cases h
    · rename_i hnot
      split at h
      · cases h
      · rename_i hallowed
        cases h
        exact ⟨hlocate, hnot, by simpa using hallowed⟩
  · rintro ⟨hlocate, hnot, hallowed⟩
    refine ⟨place, hlocate, ?_⟩
    split
    · rename_i hdirectory
      exact absurd hdirectory hnot
    · rw [hallowed]
      rfl

/-- **Writing puts a file where the path leads.** -/
theorem write_ok : t.write p c = .ok t' ↔
    ∃ place, t.locate p = .ok place ∧ t.MayWrite place ∧ t' = t.set place (.file c) := by
  rw [write, Result.bind_eq_ok]
  simp only [writePlace_ok, and_assoc, pure, Except.pure, Except.ok.injEq, eq_comm (a := t')]

/-- A file is read where the path leads, unless that is refused. -/
theorem read_ok (hlocate : t.locate p = .ok place) (hplace : t.node? place = some (.file c))
    (hallowed : t.refuses place .read = false) : t.read p = .ok c := by
  rw [read, hlocate]
  simp only [bind, Except.bind, hplace, hallowed]
  rfl

end FileTree

namespace Workspace

variable {w v u : Workspace} {place : Location} {e : Entry} {j : Journal} {f : Tally → Tally}

/-! ## 2.  The log -/

theorem logPlace?_eq_some : w.logPlace? = some place ↔
    ∃ p, w.sink.logFile = some p ∧ w.files.locate (p.absolute w.files.here) = .ok place := by
  rw [Workspace.logPlace?]
  rcases w.sink.logFile with _ | p
  · exact iff_of_false nofun fun ⟨_, h, _⟩ => nomatch h
  · rcases hlocate : w.files.locate (p.absolute w.files.here) with f | target
    · simp [hlocate, Except.toOption]
    · simp [hlocate, Except.toOption]

/-- From one workspace to a later one, what is found at a place has stayed, or the log is there and
has got more lines. -/
def Kept (w v : Workspace) (place : Location) : Prop :=
  v.files.node? place = w.files.node? place ∨
    w.logPlace? = some place ∧ ∃ data more, w.files.node? place = some (.file data) ∧
      v.files.node? place = some (.file (data ++ more))

/-- Workspaces in which paths lead to the same places, and which have the same log. -/
structure SameGround (w v : Workspace) : Prop where
  sink : w.sink = v.sink
  directories : w.files.SameDirectories v.files

namespace SameGround

theorem refl (w : Workspace) : SameGround w w :=
  ⟨rfl, .refl _⟩

theorem trans (h : SameGround w v) (h' : SameGround v u) : SameGround w u :=
  ⟨h.sink.trans h'.sink, h.directories.trans h'.directories⟩

theorem logPlace? (h : SameGround w v) : w.logPlace? = v.logPlace? := by
  refine Option.ext fun place => ?_
  rw [logPlace?_eq_some, logPlace?_eq_some, h.sink, h.directories.here]
  simp only [h.directories.locate]

end SameGround

theorem Kept.refl (w : Workspace) (place : Location) : Kept w w place :=
  .inl rfl

theorem Kept.trans (h : Kept w v place) (h' : Kept v u place) (hground : SameGround w v) :
    Kept w u place := by
  rcases h with h | ⟨hlog, data, more, hw, hv⟩
  · rcases h' with h' | ⟨hlog, data, more, hv, hu⟩
    · exact .inl (h'.trans h)
    · exact .inr ⟨hground.logPlace?.trans hlog, data, more, h ▸ hv, hu⟩
  · rcases h' with h' | ⟨-, data', more', hv', hu⟩
    · exact .inr ⟨hlog, data, more, hw, h'.trans hv⟩
    · rw [hv] at hv'
      cases hv'
      exact .inr ⟨hlog, data, more ++ more', hw, by rw [hu, ByteArray.append_assoc]⟩

theorem Kept.node?_eq (h : Kept w v place) (hlog : w.logPlace? ≠ some place) :
    v.files.node? place = w.files.node? place :=
  h.resolve_right fun h => hlog h.1

/-- Where nothing was written, a file can be written only if it could be before. -/
theorem Kept.mayWrite (h : Kept w v place) (hground : SameGround w v)
    (hmay : v.files.MayWrite place) : w.files.MayWrite place where
  noDirectory hdirectory := hmay.noDirectory ((hground.directories.directory place).1 hdirectory)
  allowed := hground.directories.refuses ▸ hmay.allowed
  above hnone := by
    rw [hground.directories.refuses]
    rcases h with hsame | ⟨-, data, -, hfile, -⟩
    · exact hmay.above (hsame.trans hnone)
    · cases hnone.symm.trans hfile

/-- Workspaces between which nothing was done to the files but keeping the log. -/
structure OnlyLogs (w v : Workspace) : Prop extends SameGround w v where
  kept : ∀ place, Kept w v place

namespace OnlyLogs

theorem refl (w : Workspace) : OnlyLogs w w :=
  ⟨.refl w, .refl w⟩

theorem trans (h : OnlyLogs w v) (h' : OnlyLogs v u) : OnlyLogs w u :=
  ⟨h.toSameGround.trans h'.toSameGround, fun place =>
    (h.kept place).trans (h'.kept place) h.toSameGround⟩

/-- **Taking an entry does nothing to the files but keeping the log.** -/
theorem accept (w : Workspace) (e : Entry) : OnlyLogs w (w.accept e) := by
  have of_eq (h : (w.accept e).files = w.files) : OnlyLogs w (w.accept e) :=
    ⟨⟨rfl, h ▸ .refl _⟩, fun place => .inl (h ▸ rfl)⟩
  rcases hlog : w.logPlace? with _ | place
  · exact of_eq (by simp only [Workspace.accept, hlog])
  have hfiles : (w.accept e).files = w.files.append place (w.lineOf e).toUTF8 := by
    simp only [Workspace.accept, hlog]
  rcases hnode : w.files.node? place with _ | _ | data
  · exact of_eq (by simp only [hfiles, FileTree.append, hnode])
  · exact of_eq (by simp only [hfiles, FileTree.append, hnode])
  · have hset : (w.accept e).files =
        w.files.set place (.file (data ++ (w.lineOf e).toUTF8)) := by
      simp only [hfiles, FileTree.append, hnode]
    have hplace : w.files.node? place ≠ some .directory := by simp [hnode]
    refine ⟨⟨rfl, hset ▸ FileTree.sameDirectories_set hplace⟩, fun other => ?_⟩
    have hother := FileTree.node?_set (t := w.files) (b := other)
      (n := .file (data ++ (w.lineOf e).toUTF8)) (FileTree.ne_root_of_not_directory hplace)
    rw [← hset] at hother
    by_cases heq : other = place
    · subst heq
      exact .inr ⟨hlog, data, _, hnode, by rw [hother, if_pos rfl]⟩
    · exact .inl (by rw [hother, if_neg heq])

theorem recording (w : Workspace) (j : Journal) (f : Tally → Tally) :
    OnlyLogs w (w.recording j f) := by
  have hfold : OnlyLogs w (j.foldl Workspace.accept w) := by
    rw [← Array.foldl_toList]
    induction j.toList generalizing w with
    | nil => exact .refl w
    | cons e l ih => exact (accept w e).trans (ih (w.accept e))
  exact ⟨⟨hfold.sink, hfold.directories⟩, hfold.kept⟩

end OnlyLogs

end Workspace

end ComHeaders
