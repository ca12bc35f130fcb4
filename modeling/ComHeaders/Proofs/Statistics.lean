import ComHeaders.Proofs.Classification.Partition
import ComHeaders.Proofs.Writing
import Mathlib.Algebra.GroupWithZero.Nat

/-!
# What a generator has counted

A generator counts the passes that it follows and the entities of the headers that it has made.  The
two numbers are kept in different places, and calls can fail in between.  This file proves that they
are right at any time.

## 1.  One pass

A pass that makes a header counts the declarations in it, kind by kind, and a pass that fails counts
nothing (`counts_counted`).

## 2.  Calls

A generator is called in four ways, and a call may start any number of passes.  Only the writing of
headers follows its passes.  `Call.counts_after` says what one call counts.

## 3.  Histories

`history_tally` is the result for calls one after the other.  It also says that they share nothing
else: what a pass makes is what it would make in a fresh workspace.
-/

namespace ComHeaders

open Work

/-! ## 1.  One pass -/

/-- The name under which declarations of a kind are counted. -/
def DeclarationKind.label : DeclarationKind → String
  | .constant => "constants"
  | .function => "functions"
  | .enum => "enums"
  | .interface => "interfaces"
  | .struct => "structs"
  | .delegate => "typedefs"

namespace Generator

variable (g : Generator) {kind : DeclarationKind} {p : Profile} {t : Tally} {w : Workspace}

theorem countOf_tallied (ds : Declarations) :
    (tallied ds t).countOf kind.label = t.countOf kind.label + ((ds.keysOf kind).length : Int) := by
  rcases kind <;>
    simp [tallied, kindCounts, Tally.countOf_add, DeclarationKind.label, Declarations.keysOf,
      Table.keys]

theorem namespaceCount_tallied (ds : Declarations) :
    (tallied ds t).namespaceCount = t.namespaceCount := by
  simp [tallied, kindCounts, Tally.add]

/-- The number of declarations of a kind in the namespace of a profile and what it borrows, as they
are classified in a new session. -/
def classifiedCount (kind : DeclarationKind) (p : Profile) : Nat :=
  match ((Declarations.classify g.repository p).perform {}).1 with
  | .ok ds => (ds.keysOf kind).length
  | .error _ => 0

/-- Whether the pass for a profile makes a header. -/
def succeeds (p : Profile) : Bool := (g.text p).isOk

/-- What makes a header was classified. -/
theorem classify_of_made {ds : Declarations} {text : String} (h : g.made p = .ok (ds, text)) :
    ((Declarations.classify g.repository p).perform {}).1 = .ok ds := by
  rcases hpass : (g.pass p).perform {} with ⟨e, s⟩
  rw [made, hpass] at h
  subst h
  obtain ⟨ds', u, hclassify, hpass⟩ := Pass.perform_bind_ok.1 hpass
  obtain ⟨text', v, -, hpass⟩ := Pass.perform_bind_ok.1 hpass
  cases hpass
  rw [hclassify]

/-- The number of declarations of a kind in the headers that some passes make. -/
def entityCount (kind : DeclarationKind) (passes : List Profile) : Nat :=
  ((passes.filter g.succeeds).map (g.classifiedCount kind)).sum

theorem entityCount_append {passes more : List Profile} :
    g.entityCount kind (passes ++ more) = g.entityCount kind passes + g.entityCount kind more := by
  rw [entityCount, List.filter_append, List.map_append, List.sum_append]
  rfl

/-- From one tally to a later one, the headers that some passes make were counted, and some passes
themselves. -/
structure Counts (t t' : Tally) (made followed : List Profile) : Prop where
  countOf : ∀ kind : DeclarationKind,
    t'.countOf kind.label = t.countOf kind.label + (g.entityCount kind made : Int)
  namespaceCount : t'.namespaceCount = t.namespaceCount + followed.length

theorem Counts.refl (t : Tally) : g.Counts t t [] [] :=
  ⟨fun _ => (Int.add_zero _).symm, rfl⟩

variable {g} in
/-- Counting goes on where it was left. -/
theorem Counts.trans {t' t'' : Tally} {made followed made' followed' : List Profile}
    (h : g.Counts t t' made followed) (h' : g.Counts t' t'' made' followed') :
    g.Counts t t'' (made ++ made') (followed ++ followed') := by
  refine ⟨fun kind => ?_, ?_⟩
  · rw [h'.countOf, h.countOf, entityCount_append]
    push_cast
    omega
  · rw [h'.namespaceCount, h.namespaceCount, List.length_append]
    omega

theorem counts_startNamespace (p : Profile) : g.Counts t t.startNamespace [] [p] :=
  ⟨fun _ => (Int.add_zero _).symm, rfl⟩

/-- **What one pass counts.** -/
theorem counts_counted (p : Profile) : g.Counts t (g.counted p t) [p] [] := by
  rcases hmade : g.made p with e | ⟨ds, text⟩
  · have hfails : g.succeeds p = false := by
      rw [succeeds, Generator.text, hmade]
      rfl
    refine ⟨fun kind => ?_, ?_⟩ <;> simp [counted, hmade, entityCount, hfails]
  · have hsucceeds : g.succeeds p = true := by
      rw [succeeds, Generator.text, hmade]
      rfl
    refine ⟨fun kind => ?_, ?_⟩
    · simp [counted, hmade, countOf_tallied, entityCount, hsucceeds, classifiedCount,
        g.classify_of_made hmade]
    · simp [counted, hmade, namespaceCount_tallied]

/-- **What several passes count.** -/
theorem counts_countedAll (profiles : List Profile) :
    g.Counts t (g.countedAll profiles t) (g.started profiles) (g.started profiles) := by
  rw [countedAll]
  induction g.started profiles generalizing t with
  | nil => exact .refl g t
  | cons p passes ih =>
    exact ((g.counts_startNamespace p).trans (g.counts_counted p)).trans ih

/-- Writing counts nothing. -/
theorem tally_writeAll (hs : List (Path × String)) (w : Workspace) :
    ((writeAll hs).perform w).2.tally = w.tally := by
  induction hs generalizing w with
  | nil => rfl
  | cons e rest ih =>
    obtain ⟨path, text⟩ := e
    rw [writeAll, perform_bind, perform_writeText]
    rcases w.files.write path text.toUTF8 with f | files
    · rfl
    · exact ih _

/-! ## 2.  Calls -/

/-- A call of a generator. -/
inductive Call where
  /-- For the header of a namespace with a built-in profile. -/
  | headerOf (namespaceName : String)
  | header (p : Profile)
  | writeHeaders (profiles : List Profile) (directory : Path)
  | namespaces

namespace Call

/-- The workspace behind a call, whether or not the call fails. -/
def after (g : Generator) (w : Workspace) : Call → Workspace
  | headerOf n => ((g.headerOf n).perform w).2
  | header p => ((g.header p).perform w).2
  | writeHeaders profiles directory => ((g.writeHeaders profiles directory).perform w).2
  | namespaces => ((Work.ofExcept g.namespaces).perform w).2

/-- The profiles whose passes a call makes. -/
def passes (g : Generator) : Call → List Profile
  | headerOf n => (Profile.ofNamespace n).toOption.toList
  | header p => [p]
  | writeHeaders profiles _ => g.started profiles
  | namespaces => []

/-- The profiles whose passes a call follows. -/
def followed (g : Generator) : Call → List Profile
  | writeHeaders profiles _ => g.started profiles
  | headerOf _ | header _ | namespaces => []

end Call

theorem tally_of_records {α : Type} {x : Work α} {e : Except Failure α} {f : Tally → Tally}
    (h : Records x e f) (w : Workspace) : (x.perform w).2.tally = f w.tally := by
  obtain ⟨j, hj⟩ := h w
  rw [hj]
  rfl

/-- A header for a namespace with a built-in profile is the header for this profile. -/
theorem headerOf_records (n : String) :
    Records (g.headerOf n) (faulty (Profile.ofNamespace n) >>= g.text)
      (((Profile.ofNamespace n).toOption.map g.counted).getD id) := by
  have hprofile : Records (Work.ofExcept (faulty (Profile.ofNamespace n)))
    (faulty (Profile.ofNamespace n)) id := .ofExcept _
  rcases hp : Profile.ofNamespace n with f | p
  · rw [hp] at hprofile
    rw [headerOf, hp]
    exact hprofile.bind_error _
  · rw [hp] at hprofile
    rw [headerOf, hp]
    exact hprofile.bind (g.header_records p)

/-- The headers that are written are counted as they are made. -/
theorem tally_writeHeaders (profiles : List Profile) (directory : Path) (w : Workspace) :
    ((g.writeHeaders profiles directory).perform w).2.tally = g.countedAll profiles w.tally := by
  obtain ⟨j, hj⟩ := g.writeHeaders_perform profiles directory w
  rw [hj]
  rcases g.headers directory profiles with e | hs
  · rfl
  · show (Work.perform (_ >>= fun _ => _) _).2.tally = _
    have hkeeps := tally_writeAll hs (w.recording j (g.countedAll profiles))
    rw [perform_bind]
    rcases hwrite : (writeAll hs).perform (w.recording j (g.countedAll profiles)) with ⟨e | _, v⟩
    · rw [hwrite] at hkeeps
      exact hkeeps
    · rw [hwrite] at hkeeps
      exact hkeeps

/-- **What one call counts.** -/
theorem Call.counts_after (c : Call) :
    g.Counts w.tally (c.after g w).tally (c.passes g) (c.followed g) := by
  rcases c with n | p | ⟨profiles, directory⟩ | _
  case headerOf =>
    rw [after, tally_of_records (g.headerOf_records n), passes, followed]
    rcases Profile.ofNamespace n with f | p
    · exact .refl g w.tally
    · exact g.counts_counted p
  case header =>
    rw [after, tally_of_records (g.header_records p), passes, followed]
    exact g.counts_counted p
  case writeHeaders =>
    rw [after, tally_writeHeaders, passes, followed]
    exact g.counts_countedAll profiles
  case namespaces =>
    rw [after, tally_of_records (.ofExcept g.namespaces), passes, followed]
    exact .refl g w.tally

/-! ## 3.  Histories -/

/-- The workspace behind some calls, one after the other. -/
def history (w : Workspace) (calls : List Call) : Workspace :=
  calls.foldl (Call.after g) w

/-- **What calls count.**  Each goes on where the one before has left the tally. -/
theorem counts_history (calls : List Call) :
    g.Counts w.tally (g.history w calls).tally (calls.flatMap (Call.passes g))
      (calls.flatMap (Call.followed g)) := by
  rw [history]
  induction calls generalizing w with
  | nil => exact .refl g w.tally
  | cons c calls ih => exact (c.counts_after g).trans ih

/-- **The statistics are exact.**  Suppose that nothing was counted at first.  After any calls,
whether or not they failed, the declarations that were counted of a kind are those in the headers
that were made, and the passes that were counted are those that the writing of headers has started.

What the passes make is the same in every workspace, so it does not depend on the calls before. -/
theorem history_tally (w : Workspace) (calls : List Call) :
    (∀ kind : DeclarationKind,
      (g.history { w with tally := {} } calls).tally.countOf kind.label =
        (g.entityCount kind (calls.flatMap (Call.passes g)) : Int)) ∧
    (g.history { w with tally := {} } calls).tally.namespaceCount =
      (calls.flatMap (Call.followed g)).length ∧
    (∀ p, Gives (g.header p) (g.text p)) ∧
    (∀ n, Gives (g.headerOf n) (faulty (Profile.ofNamespace n) >>= g.text)) ∧
    ∀ profiles directory, Gives (g.rendered directory profiles) (g.headers directory profiles) := by
  have hcounts := g.counts_history (w := { w with tally := {} }) calls
  refine ⟨fun kind => ?_, ?_, fun p => (g.header_records p).gives,
    fun n => (g.headerOf_records n).gives,
    fun profiles directory => (g.rendered_records directory profiles).gives⟩
  · rw [hcounts.countOf]
    exact Int.zero_add _
  · rw [hcounts.namespaceCount]
    exact Nat.zero_add _

/-- The second call fails at its second profile.  Its first header is counted, its third profile is
not. -/
example :
    let shapes := shapesFor "Shapes" "a"
    let t := (shapesAndWidgets.history emptyWorkspace [.header shapes,
      .writeHeaders [shapes, shapesFor "Widgets" "a", shapes] ⟨.here, []⟩, .headerOf "Shapes"]).tally
    t.countOf "enums" = 2 ∧ t.namespaceCount = 2 := by
  decide +kernel

end Generator

end ComHeaders
