import ComHeaders.Generator
import ComHeaders.Proofs.Workspaces

/-!
# Passes in a workspace

A generator makes its headers in passes.  This file says what passes do to the workspace they are
made in, which is little: they keep a journal, and they count.  Their results depend on the
generator and the profile alone (`header_records`).

Several passes are made one after the other, up to the first that fails.  All of them are counted,
but only those that end well have entities to count (`rendered_records`).
-/

namespace ComHeaders

open Work

namespace Progress

variable {α : Type} {x : Work α} {e : Except Failure α} {f : Tally → Tally}

theorem records_operation (name : String) (hx : Records x e f) :
    Records (operation name x) e f :=
  .note_bind _ (.bind_note _ (hx.tryCatch fun c => .note_bind _ (.throw c)))

theorem records_passOver (namespaceName : String) (hx : Records x e f) :
    Records (passOver namespaceName x) e (f ∘ Tally.startNamespace) :=
  (Records.count Tally.startNamespace).bind (.get_bind fun _ => .note_bind _ (.bind_note _
    ((records_operation namespaceName hx).tryCatch fun c => .note_bind _ (.throw c))))

end Progress

namespace Generator

variable (g : Generator)

/-- What the pass for a profile makes: the declarations of the header and its text. -/
def made (p : Profile) : Except Failure (Declarations × String) := ((g.pass p).perform {}).1

/-- The header that the pass for a profile makes. -/
def text (p : Profile) : Except Failure String := (g.made p).map (·.2)

/-- What the pass for a profile counts: nothing if it fails. -/
def counted (p : Profile) : Tally → Tally :=
  match g.made p with
  | .ok (declarations, _) => tallied declarations
  | .error _ => id

/-- **What a pass does.**  Whatever the workspace is, the header is that of a new session. -/
theorem header_records (p : Profile) : Records (g.header p) (g.text p) (g.counted p) := by
  refine .timed _ _ (.note_bind _ ?_)
  have hpass : Records (Work.ofPass (g.pass p)) (g.made p) id := .ofPass _
  rw [text, counted]
  rcases hmade : g.made p with c | ⟨declarations, text⟩
  · rw [hmade] at hpass
    exact hpass.bind_error _
  · rw [hmade] at hpass
    exact hpass.bind ((Records.count (tallied declarations)).bind (.note_bind _ (.pure text)))

theorem gives_header_iff {p : Profile} {e : Except Failure String} :
    Gives (g.header p) e ↔ g.text p = e := by
  constructor
  · intro h
    rw [← h { files := .fresh [] }, (g.header_records p).gives]
  · rintro rfl
    exact (g.header_records p).gives

/-! ## Several passes -/

/-- The path that the header of a profile goes to. -/
def target (directory : Path) (p : Profile) : Path := directory.join (.ofString p.outputFile)

/-- The headers for some profiles, each with the path it goes to, or the first failure. -/
def headers (directory : Path) (profiles : List Profile) :
    Except Failure (List (Path × String)) :=
  profiles.mapM fun p => do return (target directory p, ← g.text p)

/-- The profiles whose passes are started: all up to the first one whose pass fails. -/
def started : List Profile → List Profile
  | [] => []
  | p :: rest =>
    match g.text p with
    | .ok _ => p :: started rest
    | .error _ => [p]

/-- What several passes count: each that is started, and what it counts itself. -/
def countedAll (profiles : List Profile) (t : Tally) : Tally :=
  (g.started profiles).foldl (fun t p => g.counted p t.startNamespace) t

/-- **What several passes do.** -/
theorem rendered_records (directory : Path) (profiles : List Profile) :
    Records (g.rendered directory profiles) (g.headers directory profiles)
      (g.countedAll profiles) := by
  unfold countedAll
  induction profiles with
  | nil => exact .pure []
  | cons p rest ih =>
    have hpass := Progress.records_passOver p.namespaceName (g.header_records p)
    rw [headers, List.mapM_cons, started, rendered]
    rcases htext : g.text p with c | text
    · rw [htext] at hpass
      exact hpass.bind_error _
    · rw [htext] at hpass
      show Records _ (g.headers directory rest >>= fun more =>
        .ok ((target directory p, text) :: more)) _
      rcases hrest : g.headers directory rest with c | more
      · rw [hrest] at ih
        exact hpass.bind (ih.bind_error _)
      · rw [hrest] at ih
        exact hpass.bind (ih.bind (.pure _))

/-- Headers are made, and if all are there they are written. -/
theorem writeHeaders_perform (profiles : List Profile) (directory : Path) (w : Workspace) :
    ∃ j, (g.writeHeaders profiles directory).perform w =
      match g.headers directory profiles with
      | .ok hs => (do writeAll hs; return hs.map (·.1) : Work (List Path)).perform
          (w.recording j (g.countedAll profiles))
      | .error e => (.error e, w.recording j (g.countedAll profiles)) := by
  obtain ⟨j, hj⟩ := g.rendered_records directory profiles w
  refine ⟨j, ?_⟩
  rw [writeHeaders, perform_bind, hj]
  rcases g.headers directory profiles with e | hs
  · rfl
  · rfl

end Generator

end ComHeaders
