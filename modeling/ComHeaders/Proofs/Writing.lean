import ComHeaders.Proofs.Classification.Partition
import ComHeaders.Proofs.Files
import ComHeaders.Proofs.Pass
import ComHeaders.Proofs.Passes

/-!
# All headers or none

A build that uses the headers must not find some of them new and others old.  So headers are written
when all of them are made.  This file proves that a pass that fails leaves the files alone, and says
what the files hold when everything went well.

## 1.  What is to be written

`headers_ok` and `headers_error` say what several passes make together.

## 2.  Writing

Two headers may go to one file, under one name or under two: the later one stays.  What a file holds
is therefore said of places, to which paths lead.  While headers are written all paths go on leading
to the same places, and a place holds the last header that went there (`writeAll_ok`).  A header that
goes to the log has lines of the log behind it in the end.

## 3.  All or nothing

`writeHeaders_allOrNothing` is the result.
-/

namespace ComHeaders

namespace Generator

open Work Workspace

variable {g : Generator} {directory : Path} {profiles : List Profile} {w w' : Workspace}

/-! ## 1.  What is to be written -/

/-- Where all passes end well, each header is that of its profile. -/
theorem headers_ok {hs : List (Path × String)} (h : g.headers directory profiles = .ok hs) :
    ∃ text : Profile → String, (∀ p ∈ profiles, g.text p = .ok (text p)) ∧
      hs = profiles.map fun p => (target directory p, text p) := by
  refine ⟨fun p => (g.text p).toOption.getD "", ?_⟩
  rw [headers] at h
  induction profiles generalizing hs with
  | nil =>
    cases h
    exact ⟨fun p hp => (by cases hp), rfl⟩
  | cons p rest ih =>
    rw [List.mapM_cons] at h
    obtain ⟨e, he, h⟩ := Result.bind_eq_ok.1 h
    obtain ⟨text, htext, he⟩ := Result.bind_eq_ok.1 he
    obtain ⟨more, hmore, h⟩ := Result.bind_eq_ok.1 h
    obtain ⟨hrest, rfl⟩ := ih hmore
    have hvalue : (g.text p).toOption.getD "" = text := by
      rw [htext]
      rfl
    cases he
    cases h
    refine ⟨List.forall_mem_cons.2 ⟨?_, hrest⟩, ?_⟩
    · show g.text p = .ok ((g.text p).toOption.getD "")
      rw [hvalue, htext]
    · show (target directory p, text) :: _ = (target directory p, (g.text p).toOption.getD "") :: _
      rw [hvalue]

/-- Where all passes end well, there are headers. -/
theorem exists_headers (directory : Path) (h : ∀ p ∈ profiles, ∃ text, g.text p = .ok text) :
    ∃ hs, g.headers directory profiles = .ok hs := by
  induction profiles with
  | nil => exact ⟨[], rfl⟩
  | cons p rest ih =>
    obtain ⟨⟨text, htext⟩, hrest⟩ := List.forall_mem_cons.1 h
    obtain ⟨more, hmore⟩ := ih hrest
    rw [headers] at hmore ⊢
    rw [List.mapM_cons, hmore, htext]
    exact ⟨_, rfl⟩

/-- The first failure is the result. -/
theorem headers_error {before after : List Profile} {p : Profile} {e : Failure}
    (hbefore : ∀ q ∈ before, ∃ text, g.text q = .ok text) (hp : g.text p = .error e) :
    g.headers directory (before ++ p :: after) = .error e := by
  obtain ⟨hs, hhs⟩ := exists_headers directory hbefore
  rw [headers] at hhs ⊢
  rw [List.mapM_append, hhs, List.mapM_cons, hp]
  rfl

/-! ## 2.  Writing -/

section

variable {path : Path} {text : String} {rest hs : List (Path × String)}

/-- From one workspace to a later one, a text was put at a place.  If the log is there, it may have
got more lines since. -/
def Put (w w' : Workspace) (place : Location) (text : String) : Prop :=
  w'.files.node? place = some (.file text.toUTF8) ∨
    w.logPlace? = some place ∧ ∃ more, w'.files.node? place = some (.file (text.toUTF8 ++ more))

theorem Put.kept {v : Workspace} {place : Location} (h : Put w v place text)
    (hkept : Kept v w' place) (hground : SameGround w v) : Put w w' place text := by
  rcases h with h | ⟨hlog, more, h⟩
  · rcases hkept with hsame | ⟨hlog, data, more, hv, hw'⟩
    · exact .inl (hsame.trans h)
    · cases h.symm.trans hv
      exact .inr ⟨hground.logPlace?.trans hlog, more, hw'⟩
  · rcases hkept with hsame | ⟨-, data, more', hv, hw'⟩
    · exact .inr ⟨hlog, more, hsame.trans h⟩
    · cases h.symm.trans hv
      exact .inr ⟨hlog, more ++ more', by rw [hw', ByteArray.append_assoc]⟩

theorem Put.of_ground {v : Workspace} {place : Location} (hground : SameGround w v)
    (h : Put v w' place text) : Put w w' place text :=
  h.imp_right fun h => ⟨hground.logPlace?.trans h.1, h.2⟩

theorem writable_of_writeAll (h : (writeAll ((path, text) :: rest)).perform w = (.ok (), w')) :
    w.files.Writable path := by
  rw [writeAll, perform_bind, perform_writeText] at h
  rcases hwrite : w.files.write path text.toUTF8 with f | files
  · rw [hwrite] at h
    cases h
  · obtain ⟨place, hplace, hmay, -⟩ := FileTree.write_ok.1 hwrite
    exact ⟨place, hplace, hmay⟩

/-- **Writing one header.**  It is put where its path leads, and all other places are kept. -/
theorem writeAll_step (text : String) {place : Location} (hplace : w.files.locate path = .ok place)
    (hmay : w.files.MayWrite place) :
    ∃ v, (∀ rest, (writeAll ((path, text) :: rest)).perform w = (writeAll rest).perform v) ∧
      SameGround w v ∧ Put w v place text ∧ ∀ other, other ≠ place → Kept w v other := by
  have hwrite := FileTree.write_ok (c := text.toUTF8).2 ⟨place, hplace, hmay, rfl⟩
  have hset (other : Location) := FileTree.node?_set (t := w.files) (b := other)
    (n := .file text.toUTF8) (FileTree.ne_root_of_not_directory hmay.noDirectory)
  have hground : SameGround w { w with files := w.files.set place (.file text.toUTF8) } :=
    ⟨rfl, FileTree.sameDirectories_set hmay.noDirectory⟩
  have hnoted := OnlyLogs.accept { w with files := w.files.set place (.file text.toUTF8) }
    (.plain .generator .info s!"[SUCCESS] Generated: {path.text}")
  refine ⟨_, fun rest => ?_, hground.trans hnoted.toSameGround, ?_, fun other hother => ?_⟩
  · rw [writeAll, perform_bind, perform_writeText, hwrite]
    rfl
  · exact Put.kept (.inl ((hset place).trans (if_pos rfl))) (hnoted.kept place) hground
  · exact Kept.trans (.inl ((hset other).trans (if_neg hother))) (hnoted.kept other) hground

/-- **Writing headers.**  Each place that some path leads to holds the last header that went there,
and all other places are kept. -/
theorem writeAll_ok (h : (writeAll hs).perform w = (.ok (), w')) :
    SameGround w w' ∧
    (∀ e ∈ hs, w.files.Writable e.1) ∧
    (∀ before path text after place, hs = before ++ (path, text) :: after →
      w.files.locate path = .ok place → (∀ e ∈ after, w.files.locate e.1 ≠ .ok place) →
      Put w w' place text) ∧
    ∀ place, (∀ e ∈ hs, w.files.locate e.1 ≠ .ok place) → Kept w w' place := by
  induction hs generalizing w with
  | nil =>
    cases h
    refine ⟨.refl _, fun e he => (by cases he), fun before path text after place hsplit => ?_,
      fun place _ => .refl _ place⟩
    simp at hsplit
  | cons e rest ih =>
    obtain ⟨path, text⟩ := e
    obtain ⟨place, hplace, hmay⟩ := writable_of_writeAll h
    obtain ⟨v, hstep, hground, hwritten, hothers⟩ := writeAll_step text hplace hmay
    rw [hstep] at h
    obtain ⟨hground', hfound, hlast, hkept⟩ := ih h
    have hlocate (q : Path) (other : Location) :
        w.files.locate q = .ok other ↔ v.files.locate q = .ok other := hground.directories.locate
    refine ⟨hground.trans hground', List.forall_mem_cons.2 ⟨⟨place, hplace, hmay⟩, fun e he => ?_⟩,
      fun before path' text' after other hsplit hpath' hafter => ?_, fun other hnone => ?_⟩
    · obtain ⟨other, hother, hmay'⟩ := hfound e he
      refine ⟨other, (hlocate _ _).2 hother, ?_⟩
      by_cases heq : other = place
      · exact heq ▸ hmay
      · exact (hothers other heq).mayWrite hground hmay'
    · rcases before with _ | ⟨b, before⟩
      · -- The header that was just written is the last one that goes here.
        rw [List.nil_append, List.cons.injEq, Prod.mk.injEq] at hsplit
        obtain ⟨⟨rfl, rfl⟩, rfl⟩ := hsplit
        obtain rfl := Except.ok.inj (hplace.symm.trans hpath')
        exact hwritten.kept (hkept place fun e he h => hafter e he ((hlocate _ _).2 h)) hground
      · rw [List.cons_append, List.cons.injEq] at hsplit
        exact .of_ground hground (hlast before path' text' after other hsplit.2
          ((hlocate _ _).1 hpath') fun e he h => hafter e he ((hlocate _ _).2 h))
    · obtain ⟨hhead, hrest⟩ := List.forall_mem_cons.1 hnone
      have hne : other ≠ place := fun heq => hhead (heq ▸ hplace)
      exact (hothers other hne).trans (hkept other fun e he h => hrest e he ((hlocate _ _).2 h))
        hground

/-- Headers can be written if each of their paths can. -/
theorem exists_writeAll (h : ∀ e ∈ hs, w.files.Writable e.1) :
    ∃ w', (writeAll hs).perform w = (.ok (), w') := by
  induction hs generalizing w with
  | nil => exact ⟨w, rfl⟩
  | cons e rest ih =>
    obtain ⟨path, text⟩ := e
    obtain ⟨⟨place, hplace, hmay⟩, hrest⟩ := List.forall_mem_cons.1 h
    obtain ⟨v, hstep, hground, -, -⟩ := writeAll_step text hplace hmay
    obtain ⟨w', hw'⟩ := ih fun e he => hground.directories.writable (hrest e he)
    exact ⟨w', (hstep rest).trans hw'⟩

end

/-! ## 3.  All or nothing -/

/-- Of the members of a list that have a property there is a last one. -/
theorem exists_last {α : Type} {P : α → Prop} {l : List α} (h : ∃ a ∈ l, P a) :
    ∃ before a after, l = before ++ a :: after ∧ P a ∧ ∀ b ∈ after, ¬ P b := by
  induction l with
  | nil =>
    obtain ⟨a, ha, -⟩ := h
    cases ha
  | cons b l ih =>
    by_cases hl : ∃ a ∈ l, P a
    · obtain ⟨before, a, after, rfl, ha, hafter⟩ := ih hl
      exact ⟨b :: before, a, after, rfl, ha, hafter⟩
    · obtain ⟨a, ha, hPa⟩ := h
      rcases List.mem_cons.1 ha with rfl | ha
      · exact ⟨[], a, l, rfl, hPa, fun c hc hPc => hl ⟨c, hc, hPc⟩⟩
      · exact absurd ⟨a, ha, hPa⟩ hl

/-- A pass that fails ends the whole, and all files are kept. -/
theorem writeHeaders_error {before after : List Profile} {p : Profile} {e : Failure}
    (hbefore : ∀ q ∈ before, ∃ text, g.text q = .ok text) (hp : g.text p = .error e)
    (w : Workspace) : ∃ w', (g.writeHeaders (before ++ p :: after) directory).perform w =
      (.error e, w') ∧ ∀ place, Kept w w' place := by
  obtain ⟨j, hperform⟩ := g.writeHeaders_perform (before ++ p :: after) directory w
  rw [headers_error hbefore hp] at hperform
  exact ⟨_, hperform, (OnlyLogs.recording w j _).kept⟩

/-- Headers that were written were all made, and then they were written. -/
theorem of_writeHeaders_ok {paths : List Path}
    (h : (g.writeHeaders profiles directory).perform w = (.ok paths, w')) :
    paths = profiles.map (target directory) ∧
      ∃ (text : Profile → String) (v : Workspace), OnlyLogs w v ∧
        (∀ p ∈ profiles, g.text p = .ok (text p)) ∧
        (writeAll (profiles.map fun p => (target directory p, text p))).perform v = (.ok (), w') := by
  obtain ⟨j, hperform⟩ := g.writeHeaders_perform profiles directory w
  rcases hhs : g.headers directory profiles with e | hs
  · rw [h, hhs] at hperform
    cases hperform
  obtain ⟨text, htext, rfl⟩ := headers_ok hhs
  rw [h, hhs] at hperform
  change (_, _) = Work.perform (_ >>= fun _ => _) _ at hperform
  rw [perform_bind] at hperform
  split at hperform
  · rename_i v hwrite
    cases hperform
    exact ⟨by rw [List.map_map]; rfl, text, _, .recording w j _, htext, hwrite⟩
  · cases hperform

/-- **What the files hold.**  A place that some header went to holds the last header that went there,
and all other places are kept. -/
theorem put_of_writeHeaders {paths : List Path}
    (h : (g.writeHeaders profiles directory).perform w = (.ok paths, w')) :
    (∀ p ∈ profiles, ∃ place before q after text,
      w.files.locate (target directory p) = .ok place ∧
      w'.files.locate (target directory p) = .ok place ∧ profiles = before ++ q :: after ∧
      w.files.locate (target directory q) = .ok place ∧
      (∀ q' ∈ after, w.files.locate (target directory q') ≠ .ok place) ∧
      g.text q = .ok text ∧ Put w w' place text) ∧
    ∀ place, (∀ p ∈ profiles, w.files.locate (target directory p) ≠ .ok place) →
      Kept w w' place := by
  obtain ⟨-, text, v, hlogs, htext, hwrite⟩ := of_writeHeaders_ok h
  obtain ⟨hground, hfound, hlast, hkept⟩ := writeAll_ok hwrite
  have hlocate (q : Path) (place : Location) :
      w.files.locate q = .ok place ↔ v.files.locate q = .ok place := hlogs.directories.locate
  have hnone {l : List Profile} {place : Location}
      (h : ∀ q ∈ l, w.files.locate (target directory q) ≠ .ok place) :
      ∀ e ∈ l.map fun q => (target directory q, text q), v.files.locate e.1 ≠ .ok place := by
    intro e he
    obtain ⟨q, hq, rfl⟩ := List.mem_map.1 he
    exact fun h' => h q hq ((hlocate _ _).2 h')
  refine ⟨fun p hp => ?_, fun place hplace => ?_⟩
  · obtain ⟨place, hplace, -⟩ := hfound _ (List.mem_map_of_mem hp)
    rw [← hlocate] at hplace
    obtain ⟨before, q, after, rfl, hq, hafter⟩ :=
      exists_last (P := fun q => w.files.locate (target directory q) = .ok place) ⟨p, hp, hplace⟩
    have hwritten := hlast (before.map _) (target directory q) (text q) (after.map _) place
      (by rw [List.map_append, List.map_cons]) ((hlocate _ _).1 hq) (hnone hafter)
    exact ⟨place, before, q, after, text q, hplace,
      (hlogs.toSameGround.trans hground).directories.locate.1 hplace, rfl, hq, hafter,
      htext q (List.mem_append_right before List.mem_cons_self),
      .of_ground hlogs.toSameGround hwritten⟩
  · exact (hlogs.kept place).trans (hkept place (hnone hplace)) hlogs.toSameGround

/-- Headers that were written could all be written from the start. -/
theorem writable_of_writeHeaders {paths : List Path}
    (h : (g.writeHeaders profiles directory).perform w = (.ok paths, w')) :
    ∀ p ∈ profiles, w.files.Writable (target directory p) := by
  obtain ⟨-, text, v, hlogs, -, hwrite⟩ := of_writeHeaders_ok h
  obtain ⟨-, hfound, -, -⟩ := writeAll_ok hwrite
  intro p hp
  obtain ⟨place, hplace, hmay⟩ := hfound _ (List.mem_map_of_mem hp)
  exact ⟨place, hlogs.directories.locate.2 hplace,
    (hlogs.kept place).mayWrite hlogs.toSameGround hmay⟩

/-- Headers that are all made can be written if each of their paths can. -/
theorem exists_writeHeaders (hmade : ∀ p ∈ profiles, ∃ text, g.text p = .ok text)
    (hwritable : ∀ p ∈ profiles, w.files.Writable (target directory p)) :
    ∃ w', (g.writeHeaders profiles directory).perform w =
      (.ok (profiles.map (target directory)), w') := by
  obtain ⟨j, hperform⟩ := g.writeHeaders_perform profiles directory w
  obtain ⟨hs, hhs⟩ := exists_headers directory hmade
  obtain ⟨text, -, rfl⟩ := headers_ok hhs
  have hpaths : ∀ e ∈ profiles.map fun p => (target directory p, text p),
      (w.recording j (g.countedAll profiles)).files.Writable e.1 := by
    intro e he
    obtain ⟨p, hp, rfl⟩ := List.mem_map.1 he
    exact (OnlyLogs.recording w j _).directories.writable (hwritable p hp)
  obtain ⟨w', hw'⟩ := exists_writeAll hpaths
  refine ⟨w', ?_⟩
  rw [hperform, hhs]
  change Work.perform (_ >>= fun _ => _) _ = _
  rw [perform_bind, hw', List.map_map]
  rfl

/-- **All headers or none.**  If a pass fails, behind passes that end well, its failure is the
result, and all files are kept.

If everything goes well, the result is the paths of the headers in the order of the profiles.  The
file that such a path leads to, then as before, holds the header of the last profile that goes there,
and all other places are kept.  Only a header that goes to the log itself has lines behind it.
Everything goes well if all passes end well and files can be written at all paths. -/
theorem writeHeaders_allOrNothing (g : Generator) (profiles : List Profile) (directory : Path)
    (w : Workspace) :
    (∀ before p after e, profiles = before ++ p :: after →
      (∀ q ∈ before, ∃ text, Gives (g.header q) (.ok text)) → Gives (g.header p) (.error e) →
      ∃ w', (g.writeHeaders profiles directory).perform w = (.error e, w') ∧
        ∀ place, Kept w w' place) ∧
    (∀ paths w', (g.writeHeaders profiles directory).perform w = (.ok paths, w') →
      paths = profiles.map (target directory) ∧
      (∀ p ∈ profiles, ∃ place before q after text,
        w.files.locate (target directory p) = .ok place ∧
        w'.files.locate (target directory p) = .ok place ∧ profiles = before ++ q :: after ∧
        w.files.locate (target directory q) = .ok place ∧
        (∀ q' ∈ after, w.files.locate (target directory q') ≠ .ok place) ∧
        Gives (g.header q) (.ok text) ∧ Put w w' place text) ∧
      ∀ place, (∀ p ∈ profiles, w.files.locate (target directory p) ≠ .ok place) →
        Kept w w' place) ∧
    ((∀ p ∈ profiles, ∃ text, Gives (g.header p) (.ok text)) →
      (∀ p ∈ profiles, w.files.Writable (target directory p)) →
      ∃ w', (g.writeHeaders profiles directory).perform w =
        (.ok (profiles.map (target directory)), w')) := by
  simp only [gives_header_iff]
  refine ⟨fun before p after e hsplit hbefore hp => ?_, fun paths w' h => ?_, ?_⟩
  · subst hsplit
    exact writeHeaders_error hbefore hp w
  · exact ⟨(of_writeHeaders_ok h).1, put_of_writeHeaders h⟩
  · exact exists_writeHeaders

/-- A profile of a namespace, for a header of a fixed name. -/
def shapesFor (namespaceName library : String) : Profile where
  namespaceName := namespaceName
  outputFile := "shapes.h"
  library := library
  includes := []

/-- A namespace with an enum, and one with a class, which no header can declare. -/
def shapesAndWidgets : Generator where
  repository := .ofList [
    Declarations.bareType "Shapes" "KIND" "System.Enum",
    Declarations.bareType "Widgets" "Widget" "System.Object"]
  settings := {}

/-- A workspace with one directory and no log. -/
def emptyWorkspace : Workspace where
  files := .fresh ["out"]

/-- The namespace that fails leaves the files alone, although the one before it does not fail.  Of
two headers that go to one file the second one stays. -/
theorem shapes_allOrNothing :
    (∃ e w', (shapesAndWidgets.writeHeaders [shapesFor "Shapes" "a", shapesFor "Widgets" "a"]
        ⟨.here, []⟩).perform emptyWorkspace = (.error e, w') ∧
      w'.files.node? ["out", "shapes.h"] = none) ∧
    ∃ paths text w', (shapesAndWidgets.writeHeaders [shapesFor "Shapes" "a", shapesFor "Shapes" "b"]
        ⟨.here, []⟩).perform emptyWorkspace = (.ok paths, w') ∧ paths.length = 2 ∧
      Gives (shapesAndWidgets.header (shapesFor "Shapes" "b")) (.ok text) ∧
      w'.files.node? ["out", "shapes.h"] = some (.file text.toUTF8) := by
  have hok (library : String) (h : library = "a" ∨ library = "b") :
      ∃ text, Gives (shapesAndWidgets.header (shapesFor "Shapes" library)) (.ok text) := by
    have hends : (shapesAndWidgets.text (shapesFor "Shapes" library)).isOk = true := by
      rcases h with rfl | rfl <;> decide +kernel
    rcases htext : shapesAndWidgets.text (shapesFor "Shapes" library) with e | text
    · rw [htext] at hends
      cases hends
    · exact ⟨text, (gives_header_iff _).2 htext⟩
  have hfails : ∃ e, Gives (shapesAndWidgets.header (shapesFor "Widgets" "a")) (.error e) := by
    have hends : (shapesAndWidgets.text (shapesFor "Widgets" "a")).isOk = false := by
      decide +kernel
    rcases htext : shapesAndWidgets.text (shapesFor "Widgets" "a") with e | text
    · exact ⟨e, (gives_header_iff _).2 htext⟩
    · rw [htext] at hends
      cases hends
  have hlocate (namespaceName library : String) : emptyWorkspace.files.locate
      (target ⟨.here, []⟩ (shapesFor namespaceName library)) = .ok ["out", "shapes.h"] := by
    have hpath : Path.join ⟨.here, []⟩ (.ofString "shapes.h") = ⟨.here, ["shapes.h"]⟩ := by
      decide +kernel
    show FileTree.locate (.fresh ["out"]) (Path.join ⟨.here, []⟩ (.ofString "shapes.h")) = _
    rw [hpath]
    exact (FileTree.locate_of_short (by decide +kernel) (by decide +kernel)).trans
      (by decide +kernel)
  have hnew : emptyWorkspace.files.MayWrite ["out", "shapes.h"] := ⟨nofun, rfl, fun _ => rfl⟩
  refine ⟨?_, ?_⟩
  · obtain ⟨e, he⟩ := hfails
    obtain ⟨hfailed, -, -⟩ := writeHeaders_allOrNothing shapesAndWidgets
      [shapesFor "Shapes" "a", shapesFor "Widgets" "a"] ⟨.here, []⟩ emptyWorkspace
    obtain ⟨w', hw', hkept⟩ := hfailed [shapesFor "Shapes" "a"] (shapesFor "Widgets" "a") [] e rfl
      (List.forall_mem_singleton.2 (hok "a" (.inl rfl))) he
    refine ⟨e, w', hw', ?_⟩
    rcases hkept ["out", "shapes.h"] with hsame | ⟨hlog, -⟩
    · exact hsame
    · cases hlog
  · obtain ⟨-, hwritten, hwrites⟩ := writeHeaders_allOrNothing shapesAndWidgets
      [shapesFor "Shapes" "a", shapesFor "Shapes" "b"] ⟨.here, []⟩ emptyWorkspace
    obtain ⟨w', hw'⟩ := hwrites (by simpa using ⟨hok "a" (.inl rfl), hok "b" (.inr rfl)⟩)
      (by simpa using ⟨⟨_, hlocate _ _, hnew⟩, ⟨_, hlocate _ _, hnew⟩⟩)
    obtain ⟨-, hfiles, -⟩ := hwritten _ w' hw'
    obtain ⟨place, before, q, after, text, hplace, -, hsplit, -, hlast, hgives, hput⟩ :=
      hfiles _ List.mem_cons_self
    cases (hlocate _ _).symm.trans hplace
    refine ⟨_, text, w', hw', rfl, ?_, hput.resolve_right nofun⟩
    -- All headers go to one place, so the last profile is the last of the list.
    rcases before with _ | ⟨a, _ | ⟨b, before⟩⟩
    · cases hsplit
      exact absurd (hlocate _ _) (hlast _ List.mem_cons_self)
    · cases hsplit
      exact hgives
    · have hlength := congrArg List.length hsplit
      simp at hlength

end Generator

end ComHeaders
