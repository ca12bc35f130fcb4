import ComHeaders.Generator
import ComHeaders.Proofs.Directories
import ComHeaders.Proofs.Metadata.Loading

/-!
# Sessions with a log

A run of the command starts its log, and then works in a session over a metadata dump.  This file
says what these two do to a workspace.

## 1.  The console

The console shows entries of the journal and lines of the result.  The latter are the texts of a
workspace, and no entry changes them.

## 2.  The log

The log has a directory of its own, which is made if it is not there.  `FileTree.withLog` are the
files when the log is started.  Everything that was found before is found in them.

## 3.  The session

A session loads the dump and does what it is for in between entries.
-/

namespace ComHeaders

/-! ## 1.  The console -/

/-- The line of a result. -/
def ConsoleLine.text? : ConsoleLine → Option String
  | entry _ => none
  | text s => some s

namespace Workspace

variable {w : Workspace}

/-- The lines of the result on the console. -/
def texts (w : Workspace) : List String := w.shown.toList.filterMap ConsoleLine.text?

@[simp]
theorem texts_accept (w : Workspace) (e : Entry) : (w.accept e).texts = w.texts := by
  show (if w.sink.shows e then w.shown.push (.entry e) else w.shown).toList.filterMap _ = _
  split
  · rw [Array.toList_push, List.filterMap_append]
    exact List.append_nil _
  · rfl

@[simp]
theorem texts_recording (w : Workspace) (j : Journal) (f : Tally → Tally) :
    (w.recording j f).texts = w.texts := by
  show (j.foldl accept w).texts = w.texts
  rw [← Array.foldl_toList]
  induction j.toList generalizing w with
  | nil => rfl
  | cons e l ih => exact (ih (w.accept e)).trans (texts_accept w e)

end Workspace

namespace Work

open Workspace

variable {displays : String → Bool} {lines : List String}

theorem perform_say (displays : String → Bool) (line : String) (w : Workspace) :
    (say displays line).perform w =
      if displays line then (.ok (), { w with shown := w.shown.push (.text line) })
      else (.error (.fault .unencodable), w) := by
  rw [say]
  cases displays line <;> rfl

/-- Lines are shown one after the other, and nothing else happens. -/
theorem say_forM (h : ∀ line ∈ lines, displays line = true) (w : Workspace) :
    ∃ v, (lines.forM (say displays)).perform w = (.ok (), v) ∧ v.texts = w.texts ++ lines := by
  induction lines generalizing w with
  | nil => exact ⟨w, rfl, (List.append_nil _).symm⟩
  | cons line lines ih =>
    obtain ⟨hline, hlines⟩ := List.forall_mem_cons.1 h
    obtain ⟨v, hv, htexts⟩ := ih hlines { w with shown := w.shown.push (.text line) }
    refine ⟨v, ?_, ?_⟩
    · show (say displays line >>= fun _ => lines.forM (say displays)).perform w = _
      rw [perform_bind, perform_say, if_pos hline]
      exact hv
    · rw [htexts, texts, texts, Array.toList_push, List.filterMap_append, List.append_assoc]
      rfl

/-- A line that cannot be shown ends the showing. -/
theorem say_forM_error (h : ∃ line ∈ lines, displays line = false) (w : Workspace) :
    ∃ v, (lines.forM (say displays)).perform w = (.error (.fault .unencodable), v) := by
  induction lines generalizing w with
  | nil =>
    obtain ⟨_, hmem, -⟩ := h
    cases hmem
  | cons line lines ih =>
    show ∃ v, (say displays line >>= fun _ => lines.forM (say displays)).perform w = _
    rw [perform_bind, perform_say]
    cases hline : displays line with
    | false => exact ⟨w, rfl⟩
    | true =>
      obtain ⟨other, hmem, hother⟩ := h
      rcases List.mem_cons.1 hmem with rfl | hmem
      · cases hline.symm.trans hother
      · exact ih ⟨other, hmem, hother⟩ _

/-! ## 2.  The log -/

end Work

namespace FileTree

variable {t logged : FileTree} {directory p : Path} {stamp : String}

/-- The files when a log is started, in a directory that is made for it. -/
def withLog (t : FileTree) (directory : Path) (stamp : String) : Except Fault FileTree :=
  match t.makeDirectories directory with
  | (.error f, _) => .error f
  | (.ok _, made) => made.openEnd ((Work.logPath directory stamp).absolute made.here)

/-- Opening a file removes nothing, and the path leads to a file then. -/
theorem openEnd_ok (h : t.openEnd p = .ok logged) :
    Grows t logged ∧ ∃ place, logged.locate p = .ok place := by
  rw [openEnd] at h
  obtain ⟨place, hplace, h⟩ := Result.bind_eq_ok.1 h
  have hlocate := (writePlace_ok.1 hplace).1
  have hgrows : Grows t logged := by
    split at h
    · cases h
      exact .refl t
    · rename_i hnone
      cases h
      exact .set hnone _
  exact ⟨hgrows, place, hgrows.locate hlocate⟩

/-- **Starting the log** removes nothing, and there is a place for the log then. -/
theorem withLog_ok (h : t.withLog directory stamp = .ok logged) :
    Grows t logged ∧
      ∃ place, logged.locate ((Work.logPath directory stamp).absolute logged.here) = .ok place := by
  rw [withLog] at h
  have hgrows := t.grows_makeDirectories directory
  rcases hmade : t.makeDirectories directory with ⟨f | _, made⟩
  · rw [hmade] at h
    cases h
  · rw [hmade] at h hgrows
    obtain ⟨hopen, hplace⟩ := openEnd_ok h
    exact ⟨hgrows.trans hopen, hopen.here ▸ hplace⟩

end FileTree

namespace Work

variable {w : Workspace} {d : Path} {stamp : String}

theorem perform_startLog (p : Path) (w : Workspace) :
    (startLog p).perform w =
      match w.files.openEnd (p.absolute w.files.here) with
      | .ok files => (.ok (), { w with files := files, sink.logFile := some p })
      | .error f => (.error (.fault f), w) := by
  rw [startLog, perform_bind, perform_get]
  simp only
  rw [perform_bind, perform_ofExcept]
  rcases w.files.openEnd (p.absolute w.files.here) with f | files
  · rfl
  · rfl

/-- **Starting the log** fails as the files do. -/
theorem startLogging_error (isVerbose : Bool) {f : Fault} (hready : w.sink.isReady = false)
    (h : w.files.withLog d stamp = .error f) :
    ∃ v, (startLogging (some d) isVerbose stamp).perform w = (.error (.fault f), v) := by
  rw [FileTree.withLog] at h
  rw [startLogging]
  simp only [perform_bind, perform_get, hready, perform_modify, perform_makeDirectories,
    Bool.false_eq_true, if_false]
  rcases hmade : w.files.makeDirectories d with ⟨e | _, made⟩
  · rw [hmade] at h
    cases h
    exact ⟨_, rfl⟩
  · rw [hmade] at h
    simp only at h
    simp only [faulty, Except.mapError, perform_startLog, h]
    exact ⟨_, rfl⟩

/-- **Starting the log** otherwise leaves the files with the log, and entries. -/
theorem startLogging_ok (isVerbose : Bool) {logged : FileTree} (hready : w.sink.isReady = false)
    (h : w.files.withLog d stamp = .ok logged) :
    ∃ sink j, sink.logFile = some (logPath d stamp) ∧
      (startLogging (some d) isVerbose stamp).perform w =
        (.ok (), ({ w with files := logged, sink := sink } : Workspace).recording j id) := by
  rw [FileTree.withLog] at h
  rw [startLogging]
  simp only [perform_bind, perform_get, hready, perform_modify, perform_makeDirectories,
    Bool.false_eq_true, if_false]
  rcases hmade : w.files.makeDirectories d with ⟨e | _, made⟩
  · rw [hmade] at h
    cases h
  · rw [hmade] at h
    simp only at h
    simp only [faulty, Except.mapError, perform_startLog, h, perform_note]
    have hnoted (u : Workspace) (n n' : Entry) :
        (u.accept n).accept n' = u.recording #[n, n'] id :=
      (Workspace.recording_id (j := #[n, n'])).symm
    exact ⟨_, _, rfl, congrArg (Prod.mk _) (hnoted _ _ _)⟩

end Work

/-! ## 3.  The session -/

namespace Generator

open Work

variable {α : Type} {w : Workspace} {path : Path}

theorem recordsAt_start (settings : Settings) (hlog : ¬ w.LogsTo path) :
    RecordsAt w (start (some path) none settings)
      ((Repository.loadedFrom path (w.files.read path)).map fun r => ⟨r, settings⟩) id := by
  rw [start]
  have hload := Repository.recordsAt_load hlog
  rcases hloaded : Repository.loadedFrom path (w.files.read path) with e | r
  · rw [hloaded] at hload
    exact hload.bind_error _
  · rw [hloaded] at hload
    exact hload.bind (fun j => .note_bind _ (.note_bind _ (.pure _))) (Function.id_comp id)

theorem finish_records (succeeded : Bool) : Records (finish succeeded) (.ok ()) id := by
  have hmemory : Records Progress.memory (.ok ()) id := .note _
  cases succeeded with
  | false => exact hmemory
  | true =>
    refine Records.bind (a := ()) ?_ hmemory
    refine .get_bind fun v => .note_bind _ ?_
    split
    · exact .note _
    · exact .pure ()

theorem session_of_error (settings : Settings) (body : Generator → Work α) {e : Failure}
    (hlog : ¬ w.LogsTo path) (h : Repository.loadedFrom path (w.files.read path) = .error e) :
    RecordsAt w (session path settings body) (.error e) id := by
  have hstart := recordsAt_start settings hlog
  rw [h] at hstart
  exact hstart.bind_error _

/-- **What a session does.**  It does what it is for, and notes something before and behind it. -/
theorem session_of_ok (settings : Settings) (body : Generator → Work α) {r : Repository}
    (hlog : ¬ w.LogsTo path) (h : Repository.loadedFrom path (w.files.read path) = .ok r) :
    ∃ j j', (session path settings body).perform w =
      (((body ⟨r, settings⟩).perform (w.recording j id)).1,
        ((body ⟨r, settings⟩).perform (w.recording j id)).2.recording j' id) := by
  have hstart := recordsAt_start settings hlog
  rw [h] at hstart
  obtain ⟨j, hj⟩ := hstart
  refine ⟨j, ?_⟩
  rw [session, perform_bind, hj]
  show ∃ j', (tryCatch (body ⟨r, settings⟩) (fun f => finish false >>= fun _ => throw f) >>=
    fun a => finish true >>= fun _ => pure a).perform (w.recording j id) = _
  rw [perform_bind, perform_tryCatch]
  rcases (body ⟨r, settings⟩).perform (w.recording j id) with ⟨e | a, v⟩
  · have hfinish : Records (finish false >>= fun _ => (throw e : Work α)) (.error e) id :=
      (finish_records false).bind (.throw e)
    obtain ⟨j', hj'⟩ := hfinish v
    exact ⟨j', by simp only [hj']⟩
  · exact ((finish_records true).bind (.pure a)) v

end Generator

end ComHeaders
