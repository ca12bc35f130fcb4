import ComHeaders.CommandLine.Command
import ComHeaders.Proofs.Metadata.Reading
import ComHeaders.Proofs.Sessions
import ComHeaders.Proofs.Writing

/-!
# Generating headers

The command makes headers for profiles that are built in.  It first makes the directory that they go
to, and what goes wrong there leaves it.  From then on nothing does: the command succeeds if all
headers are written, and otherwise it notes why not.

## 1.  Different files

The headers of the built-in profiles go to different files, wherever the directory is.

## 2.  Writing that fails

Also where not all headers can be written, paths go on leading to the same places, and nothing
changes where no file can be written.

## 3.  Generating

`generate_of_usable` says how the command ends once the directory is made.
-/

namespace ComHeaders

open Work Workspace

/-! ## 1.  Different files -/

namespace Path

variable {p : Path} {here names : List String} {name : String}

/-- A path ends in the same name when it starts from a root. -/
theorem exists_parts_absolute (hparts : p.parts = names ++ [name]) (hname : name ≠ "..") :
    ∃ behind, (p.absolute here).parts = behind ++ [name] := by
  rw [absolute]
  cases p.anchor with
  | here =>
    simp only [hparts, ← List.append_assoc]
    rw [List.foldl_concat, if_neg hname]
    exact ⟨_, rfl⟩
  | root | doubleRoot =>
    simp only [hparts]
    rw [List.foldl_concat, if_neg hname]
    exact ⟨_, rfl⟩

end Path

namespace FileTree

variable {t : FileTree} {place target : Location} {text name : String} {names : List String}

/-- A path that goes on by a name leads to this name in some directory. -/
theorem exists_down_of_follow (h : t.follow text place (names ++ [name]) = .ok target) :
    ∃ above, target = down above name := by
  induction names generalizing place with
  | nil =>
    obtain ⟨-, -, -, htarget⟩ := follow_cons.1 h
    cases htarget
    exact ⟨place, rfl⟩
  | cons first rest ih =>
    obtain ⟨-, -, -, hrest⟩ := follow_cons.1 h
    exact ih hrest

theorem exists_down_of_locate {p : Path} (hparts : p.parts = names ++ [name])
    (h : t.locate p = .ok place) : ∃ above, place = down above name := by
  rw [locate, hparts] at h
  split at h
  · cases h
  split at h
  · cases h
  exact exists_down_of_follow h

theorem name_eq_of_down_eq {a b : Location} {m n : String} (h : down a m = down b n)
    (hm : m ≠ "..") (hn : n ≠ "..") : m = n := by
  rw [down, down, if_neg hm, if_neg hn] at h
  have hlast := congrArg List.getLast? h
  simpa using hlast

end FileTree

namespace Generator

variable {t : FileTree} {directory : Path} {place : Location} {p q : Profile}

theorem eq_of_mem_builtIn (hp : p ∈ Profile.builtIn) :
    p = .directWrite ∨ p = .direct2D := by
  simpa [Profile.builtIn] using hp

theorem exists_down_of_target (hp : p ∈ Profile.builtIn)
    (h : t.locate (target directory p) = .ok place) :
    ∃ above, place = FileTree.down above p.outputFile := by
  have hname : Path.ofString p.outputFile = ⟨.here, [p.outputFile]⟩ := by
    rcases eq_of_mem_builtIn hp with rfl | rfl
    · decide +kernel
    · decide +kernel
  rw [target, hname] at h
  exact FileTree.exists_down_of_locate rfl h

/-- **The headers of built-in profiles go to different files.** -/
theorem eq_of_target (hp : p ∈ Profile.builtIn) (hq : q ∈ Profile.builtIn)
    (h : t.locate (target directory p) = .ok place)
    (h' : t.locate (target directory q) = .ok place) : p = q := by
  obtain ⟨above, hplace⟩ := exists_down_of_target hp h
  obtain ⟨above', hplace'⟩ := exists_down_of_target hq h'
  have hdown : FileTree.down above p.outputFile = FileTree.down above' q.outputFile :=
    hplace.symm.trans hplace'
  have hnames (hne : p.outputFile ≠ q.outputFile) (hpname : p.outputFile ≠ "..")
      (hqname : q.outputFile ≠ "..") : p = q :=
    absurd (FileTree.name_eq_of_down_eq hdown hpname hqname) hne
  rcases eq_of_mem_builtIn hp with rfl | rfl <;> rcases eq_of_mem_builtIn hq with rfl | rfl
  · rfl
  · exact hnames (by decide) (by decide) (by decide)
  · exact hnames (by decide) (by decide) (by decide)
  · rfl

/-! ## 2.  Writing that fails -/

section

variable {w : Workspace} {stamp : String} {logs : Path}

/-- The name of a log is no name of a header, and it leads down. -/
theorem logName_ne {name : String} (h : name = ".." ∨ ∃ p ∈ Profile.builtIn, name = p.outputFile) :
    s!"winmd_c_headers_{stamp}.log" ≠ name := by
  intro hname
  have hfirst := congrArg (fun s => s.toList.head?) hname
  rcases h with rfl | ⟨p, hp, rfl⟩
  · simp [toString] at hfirst
  · rcases eq_of_mem_builtIn hp with rfl | rfl
    · simp [toString, Profile.directWrite] at hfirst
    · simp [toString, Profile.direct2D] at hfirst

theorem exists_down_of_logPlace (hlog : w.sink.logFile = some (logPath logs stamp))
    (h : w.logPlace? = some place) :
    ∃ above, place = FileTree.down above s!"winmd_c_headers_{stamp}.log" := by
  obtain ⟨_, hfile, hplace⟩ := logPlace?_eq_some.1 h
  cases hlog.symm.trans hfile
  obtain ⟨names, hnames⟩ : ∃ names, ((logPath logs stamp).absolute w.files.here).parts =
      names ++ [s!"winmd_c_headers_{stamp}.log"] :=
    Path.exists_parts_absolute rfl (logName_ne (.inl rfl))
  exact FileTree.exists_down_of_locate hnames hplace

/-- **The log is no header.** -/
theorem logPlace_ne_target (hlog : w.sink.logFile = some (logPath logs stamp))
    (hp : p ∈ Profile.builtIn) (h : w.files.locate (target directory p) = .ok place) :
    w.logPlace? ≠ some place := by
  intro hplace
  obtain ⟨above, rfl⟩ := exists_down_of_target hp h
  obtain ⟨above', hdown⟩ := exists_down_of_logPlace hlog hplace
  refine logName_ne (.inr ⟨p, hp, rfl⟩)
    (FileTree.name_eq_of_down_eq hdown.symm (logName_ne (.inl rfl)) ?_)
  rcases eq_of_mem_builtIn hp with rfl | rfl <;> decide

end

/-- Whatever comes of writing, paths go on leading to the same places, and nothing changes where no
file can be written. -/
theorem writeAll_keeps (hs : List (Path × String)) (w : Workspace) :
    SameGround w ((writeAll hs).perform w).2 ∧
      ∀ place, ¬ w.files.MayWrite place → Kept w ((writeAll hs).perform w).2 place := by
  induction hs generalizing w with
  | nil => exact ⟨.refl w, fun place _ => .refl w place⟩
  | cons e rest ih =>
    obtain ⟨path, text⟩ := e
    rcases hwrite : w.files.write path text.toUTF8 with f | files
    · rw [writeAll, perform_bind, perform_writeText, hwrite]
      exact ⟨.refl w, fun place _ => .refl w place⟩
    · obtain ⟨place, hplace, hmay, -⟩ := FileTree.write_ok.1 hwrite
      obtain ⟨v, hstep, hground, -, hothers⟩ := writeAll_step text hplace hmay
      rw [hstep]
      obtain ⟨hground', hkept⟩ := ih v
      refine ⟨hground.trans hground', fun other hnot => ?_⟩
      have hother : Kept w v other := hothers other fun heq => hnot (heq ▸ hmay)
      exact hother.trans (hkept other fun h => hnot (hother.mayWrite hground h)) hground

theorem writeHeaders_keeps (g : Generator) (profiles : List Profile) (directory : Path)
    (w : Workspace) :
    SameGround w ((g.writeHeaders profiles directory).perform w).2 ∧
      ∀ place, ¬ w.files.MayWrite place →
        Kept w ((g.writeHeaders profiles directory).perform w).2 place := by
  obtain ⟨j, hj⟩ := g.writeHeaders_perform profiles directory w
  have hlogs := OnlyLogs.recording w j (g.countedAll profiles)
  rw [hj]
  rcases g.headers directory profiles with e | hs
  · exact ⟨hlogs.toSameGround, fun place _ => hlogs.kept place⟩
  · obtain ⟨hground, hkept⟩ := writeAll_keeps hs (w.recording j (g.countedAll profiles))
    have hall : ((writeAll hs >>= fun _ => pure (hs.map Prod.fst) : Work (List Path)).perform
        (w.recording j (g.countedAll profiles))).2 =
          ((writeAll hs).perform (w.recording j (g.countedAll profiles))).2 := by
      rw [perform_bind]
      rcases (writeAll hs).perform (w.recording j (g.countedAll profiles)) with ⟨e | _, v⟩
      · rfl
      · rfl
    change SameGround w (Work.perform (writeAll hs >>= fun _ => _) _).2 ∧ ∀ place, _ →
      Kept w (Work.perform (writeAll hs >>= fun _ => _) _).2 place
    rw [hall]
    exact ⟨hlogs.toSameGround.trans hground, fun place hnot => (hlogs.kept place).trans
      (hkept place fun h => hnot ((hlogs.kept place).mayWrite hlogs.toSameGround h))
      hlogs.toSameGround⟩

/-- The headers for some profiles are all made, and each is found in its file, which can be
written. -/
def AllWritten (g : Generator) (directory : Path) (profiles : List Profile) (v : Workspace) :
    Prop :=
  ∀ p ∈ profiles, ∃ text place, Gives (g.header p) (.ok text) ∧
    v.files.locate (target directory p) = .ok place ∧ v.files.MayWrite place ∧
    v.files.node? place = some (.file text.toUTF8)

section

variable {g : Generator} {profiles : List Profile} {u u' v v' : Workspace} {stamp : String}
variable {logs : Path}

/-- What is found in files is found there when more was noted. -/
theorem AllWritten.of_onlyLogs (h : AllWritten g directory profiles v)
    (hprofiles : ∀ p ∈ profiles, p ∈ Profile.builtIn)
    (hlog : v.sink.logFile = some (logPath logs stamp)) (hlogs : OnlyLogs v v') :
    AllWritten g directory profiles v' := by
  intro p hp
  obtain ⟨text, place, htext, hplace, hmay, hnode⟩ := h p hp
  have hsame := (hlogs.kept place).node?_eq (logPlace_ne_target hlog (hprofiles p hp) hplace)
  exact ⟨text, place, htext, hlogs.directories.locate.1 hplace, hlogs.directories.mayWrite hmay,
    hsame.trans hnode⟩

/-- **Headers are written just if they are found in their files.** -/
theorem allWritten_iff {out : Except Failure (List Path)}
    (hprofiles : ∀ p ∈ profiles, p ∈ Profile.builtIn)
    (hlog : u.sink.logFile = some (logPath logs stamp))
    (hout : (g.writeHeaders profiles directory).perform u = (out, u')) (hlogs : OnlyLogs u' v) :
    AllWritten g directory profiles v ↔ ∃ paths, out = .ok paths := by
  obtain ⟨hground, hkept⟩ := writeHeaders_keeps g profiles directory u
  rw [hout] at hground hkept
  constructor
  · intro h
    have hmade (p : Profile) (hp : p ∈ profiles) : ∃ text, g.text p = .ok text := by
      obtain ⟨text, -, htext, -⟩ := h p hp
      exact ⟨text, (gives_header_iff g).1 htext⟩
    have hwritable (p : Profile) (hp : p ∈ profiles) :
        u.files.Writable (target directory p) := by
      obtain ⟨-, place, -, hplace, hmay, -⟩ := h p hp
      have hground' := hground.trans hlogs.toSameGround
      refine ⟨place, hground'.directories.locate.2 hplace, Classical.byContradiction fun hnot => ?_⟩
      -- Nothing was written where nothing can be, so nothing can be written there later.
      exact hnot (((hkept place hnot).trans (hlogs.kept place) hground).mayWrite hground' hmay)
    obtain ⟨w', hw'⟩ := exists_writeHeaders hmade hwritable
    cases hout.symm.trans hw'
    exact ⟨_, rfl⟩
  · rintro ⟨paths, rfl⟩
    refine AllWritten.of_onlyLogs (fun p hp => ?_) hprofiles (hground.sink ▸ hlog) hlogs
    obtain ⟨hfiles, -⟩ := put_of_writeHeaders hout
    obtain ⟨place, before, q, after, text, hplace, hplace', rfl, hsame, -, htext, hput⟩ :=
      hfiles p hp
    obtain rfl : q = p := eq_of_target (hprofiles q (by simp)) (hprofiles p hp) hsame hplace
    obtain ⟨other, hother, hmay⟩ := writable_of_writeHeaders hout q hp
    cases hplace.symm.trans hother
    have hnode := hput.resolve_right fun h =>
      logPlace_ne_target hlog (hprofiles q hp) hplace h.1
    exact ⟨text, place, (gives_header_iff g).2 htext, hplace', hground.directories.mayWrite hmay,
      hnode⟩

end

end Generator

/-! ## 3.  Generating -/

namespace Command

variable {w : Workspace} {c : Configuration} {settings : Settings} {profiles : List Profile}
variable {stamp : String} {logs : Path}

/-- The directory for the headers is not named, or cannot be made. -/
inductive Unusable (c : Configuration) (files : FileTree) : Failure → Prop
  | unnamed (h : c.outputDirectory = none) : Unusable c files (.fault .notAnObject)
  | notMade {directory : Path} {f : Fault} (hdirectory : c.outputDirectory = some directory)
    (h : (files.makeDirectories directory).1 = .error f) : Unusable c files (.fault f)

namespace Unusable

variable {t t' : FileTree} {e e' : Failure}

theorem of_sameShape (h : Unusable c t e) (hshape : t.SameShape t') : Unusable c t' e := by
  cases h with
  | unnamed h => exact .unnamed h
  | notMade hdirectory h =>
    exact .notMade hdirectory ((hshape.makeDirectories _).1.symm.trans h)

theorem unique (h : Unusable c t e) (h' : Unusable c t e') : e = e' := by
  cases h with
  | unnamed h =>
    cases h' with
    | unnamed => rfl
    | notMade hdirectory => cases h.symm.trans hdirectory
  | notMade hdirectory h =>
    cases h' with
    | unnamed h' => cases h'.symm.trans hdirectory
    | notMade hdirectory' h' =>
      cases hdirectory.symm.trans hdirectory'
      cases h.symm.trans h'
      rfl

/-- A directory that can be used is named and can be made. -/
theorem exists_or_usable (c : Configuration) (t : FileTree) :
    (∃ e, Unusable c t e) ∨ (∀ e, ¬ Unusable c t e) ∧ ∃ directory,
      c.outputDirectory = some directory ∧ (t.makeDirectories directory).1 = .ok () := by
  rcases hdirectory : c.outputDirectory with _ | directory
  · exact .inl ⟨_, .unnamed hdirectory⟩
  · rcases hmade : (t.makeDirectories directory).1 with f | _
    · exact .inl ⟨_, .notMade hdirectory hmade⟩
    · refine .inr ⟨fun e h => ?_, directory, rfl, hmade⟩
      cases h with
      | unnamed h => cases h.symm.trans hdirectory
      | notMade hdirectory' h =>
        cases hdirectory.symm.trans hdirectory'
        cases hmade.symm.trans h

end Unusable

/-- The metadata are loaded from what is read, and the headers for some profiles are written. -/
def Written (c : Configuration) (settings : Settings) (x : Except Fault Contents)
    (profiles : List Profile) (v : Workspace) : Prop :=
  ∃ directory r, c.outputDirectory = some directory ∧
    Repository.loadedFrom c.metadataFile x = .ok r ∧
    Generator.AllWritten ⟨r, settings⟩ directory profiles v

theorem generate_of_unusable (settings : Settings) (profiles : List Profile) {e : Failure}
    (h : Unusable c w.files e) :
    ∃ v, (generate c settings profiles).perform w = (.error e, v) := by
  rw [generate, perform_bind, perform_ofExcept, Configuration.headerDirectory]
  cases h with
  | unnamed h =>
    rw [h]
    exact ⟨w, rfl⟩
  | notMade hdirectory h =>
    rw [hdirectory]
    simp only [faulty, Except.mapError]
    rw [perform_bind, perform_makeDirectories, h]
    exact ⟨_, rfl⟩

theorem report_records (written : List Path) : Records (report written) (.ok ()) id :=
  (Records.forM_note _ _).bind (.note_bind _ (Records.forM_note _ _))

theorem noteFailure_records (f : Failure) : Records (noteFailure f) (.ok ()) id := by
  rw [noteFailure]
  split
  · exact .note _
  · exact .note _

/-- Writes headers in a session, and notes why not if that fails. -/
def attempt (c : Configuration) (settings : Settings) (profiles : List Profile)
    (directory : Path) : Work (Option (List Path)) :=
  tryCatch
    (some <$> Generator.session c.metadataFile settings fun g => g.writeHeaders profiles directory)
    fun f => do
      noteFailure f
      return none

/-- **What an attempt does.**  It fails in no way but by writing nothing. -/
theorem attempt_perform (settings : Settings) {directory : Path}
    (hapart : ¬ w.LogsTo c.metadataFile) (hlog : w.sink.logFile = some (logPath logs stamp))
    (hprofiles : ∀ p ∈ profiles, p ∈ Profile.builtIn)
    (hdirectory : c.outputDirectory = some directory) :
    ∃ written v, (attempt c settings profiles directory).perform w = (.ok written, v) ∧
      ∀ v', OnlyLogs v v' → (Written c settings (w.files.read c.metadataFile) profiles v' ↔
        written.isSome = true) := by
  rw [attempt, perform_tryCatch, perform_map]
  have hfailed (f : Failure) : Records (noteFailure f >>= fun _ =>
      (pure none : Work (Option (List Path)))) (.ok none) id :=
    (noteFailure_records f).bind (.pure none)
  rcases hloaded : Repository.loadedFrom c.metadataFile (w.files.read c.metadataFile) with e | r
  · obtain ⟨j, hj⟩ := Generator.session_of_error settings
      (fun g => g.writeHeaders profiles directory) hapart hloaded
    obtain ⟨j', hj'⟩ := hfailed e (w.recording j id)
    rw [hj]
    refine ⟨none, _, hj', fun v' _ => iff_of_false ?_ nofun⟩
    rintro ⟨_, r, -, hr, -⟩
    cases hloaded.symm.trans hr
  · obtain ⟨j, j', hj⟩ := Generator.session_of_ok settings
      (fun g => g.writeHeaders profiles directory) hapart hloaded
    rw [hj]
    rcases hout : (Generator.writeHeaders ⟨r, settings⟩ profiles directory).perform
      (w.recording j id) with ⟨out, u⟩
    have hlog' : (w.recording j id).sink.logFile = some (logPath logs stamp) :=
      (OnlyLogs.recording w j id).sink ▸ hlog
    have hwritten (v' : Workspace) (hlogs : OnlyLogs u v') :
        Written c settings (w.files.read c.metadataFile) profiles v' ↔
          ∃ paths, out = .ok paths := by
      rw [← Generator.allWritten_iff hprofiles hlog' hout hlogs]
      constructor
      · rintro ⟨_, _, hd, hr, h⟩
        cases hdirectory.symm.trans hd
        cases hloaded.symm.trans hr
        exact h
      · exact fun h => ⟨directory, r, hdirectory, hloaded, h⟩
    rcases out with e | paths
    · obtain ⟨j'', hj''⟩ := hfailed e (u.recording j' id)
      refine ⟨none, _, hj'', fun v' hlogs => ?_⟩
      have hbefore := (OnlyLogs.recording u j' id).trans (OnlyLogs.recording _ j'' id)
      rw [hwritten v' (hbefore.trans hlogs)]
      exact iff_of_false nofun nofun
    · refine ⟨some paths, _, rfl, fun v' hlogs => ?_⟩
      rw [hwritten v' ((OnlyLogs.recording u j' id).trans hlogs)]
      exact iff_of_true ⟨paths, rfl⟩ rfl

/-- Says which headers were written, if they were. -/
def conclude : Option (List Path) → Work Ending
  | none => return .failed
  | some paths => do
    report paths
    return .success

/-- **What generating does** once its directory is made: it succeeds if all headers are written, and
it fails otherwise. -/
theorem generate_of_usable (settings : Settings) {directory : Path}
    (hapart : w.FileApart c.metadataFile) (hlog : w.sink.logFile = some (logPath logs stamp))
    (hprofiles : ∀ p ∈ profiles, p ∈ Profile.builtIn)
    (hdirectory : c.outputDirectory = some directory)
    (hmade : (w.files.makeDirectories directory).1 = .ok ()) :
    ∃ ending v, (generate c settings profiles).perform w = (.ok ending, v) ∧
      (ending = .success ∧ Written c settings (w.files.read c.metadataFile) profiles v ∨
        ending = .failed ∧ ¬ Written c settings (w.files.read c.metadataFile) profiles v) := by
  rw [generate, perform_bind, perform_ofExcept, Configuration.headerDirectory, hdirectory]
  simp only [faulty, Except.mapError]
  rw [perform_bind, perform_makeDirectories, hmade]
  simp only [faulty, Except.mapError]
  rw [perform_bind, perform_note]
  show ∃ ending v, (attempt c settings profiles directory >>= conclude).perform _ = _ ∧ _
  have hgrows := w.files.grows_makeDirectories directory
  have hlogs := OnlyLogs.accept { w with files := (w.files.makeDirectories directory).2 }
    (.plain .main .info s!"Generating {profiles.length} header(s)")
  have hgrown := hapart.of_grows hgrows
  have hread := (hlogs.read hgrown.apart).trans (hapart.read_of_grows hgrows)
  obtain ⟨written, v, hv, hwritten⟩ := attempt_perform settings (hgrown.of_onlyLogs hlogs).apart
    (hlogs.sink ▸ hlog) hprofiles hdirectory
  rw [hread] at hwritten
  rw [perform_bind, hv]
  rcases written with _ | paths
  · refine ⟨.failed, v, rfl, .inr ⟨rfl, fun h => ?_⟩⟩
    cases (hwritten v (.refl v)).1 h
  · have hreport : Records (report paths >>= fun _ => (pure .success : Work Ending))
        (.ok .success) id := (report_records paths).bind (.pure _)
    obtain ⟨j, hj⟩ := hreport v
    exact ⟨.success, _, hj, .inl ⟨rfl, (hwritten _ (.recording v j _)).2 rfl⟩⟩

end Command

end ComHeaders
