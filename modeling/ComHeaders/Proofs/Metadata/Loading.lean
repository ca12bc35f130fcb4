import ComHeaders.Proofs.Directories
import ComHeaders.Proofs.Metadata.Malformed
import ComHeaders.Metadata.Loading

/-!
# Loading a dump

A dump is read from its file, decompressed, parsed, and then read as a document.  Each of these
steps can fail.  This file says which of the failures are reported as a wrong format, and which come
through as they are.

## 1.  Integers that are too long

The reader of values refuses an integer with too many digits by an error of its own, provided that a
value may stand in its place and nothing is wrong in front of it.

## 2.  Compressed streams

A compressed stream that is damaged is a fault of one of three kinds.

## 3.  Contents

What loading makes of a file depends on what the file holds (`loaded`).  `Contents.Escapes` are the
contents that cannot be loaded and are not reported as a wrong format: a damaged stream, an integer
that is too long, and documents that escape the report themselves.  Nothing is said of a document
that is right but for half a character in one of its strings.

## 4.  Loading

Loading does nothing to a workspace but keep the journal, and its result is what the contents of the
file make, unless the journal is kept in that very file.  `load_escapes` is the result.
-/

namespace ComHeaders

open Result (FailsBeyond)
open Failure (IsFormatError)

/-! ## 1.  Integers that are too long -/

/-- A fold fails at one of the members of its list, behind a fold that ends well. -/
theorem Result.foldlM_eq_error {ε α β : Type} {f : β → α → Except ε β} {b : β} {l : List α}
    {e : ε} : l.foldlM f b = .error e ↔ ∃ before a after c, l = before ++ a :: after ∧
      before.foldlM f b = .ok c ∧ f c a = .error e := by
  induction l generalizing b with
  | nil =>
    refine iff_of_false nofun ?_
    rintro ⟨before, a, after, c, h, -⟩
    simp at h
  | cons a l ih =>
    rw [List.foldlM_cons, Result.bind_eq_error]
    constructor
    · rintro (ha | ⟨c, hc, h⟩)
      · exact ⟨[], a, l, b, rfl, rfl, ha⟩
      · obtain ⟨before, a', after, d, rfl, hbefore, ha'⟩ := ih.1 h
        refine ⟨a :: before, a', after, d, rfl, ?_, ha'⟩
        rw [List.foldlM_cons, hc]
        exact hbefore
    · rintro ⟨_ | ⟨a', before⟩, a'', after, c, hsplit, hbefore, ha''⟩
      · cases hsplit
        cases hbefore
        exact .inl ha''
      · cases hsplit
        rw [List.foldlM_cons] at hbefore
        obtain ⟨d, hd, hbefore⟩ := Result.bind_eq_ok.1 hbefore
        exact .inr ⟨d, hd, ih.2 ⟨before, a'', after, c, rfl, hbefore, ha''⟩⟩

namespace Json

/-- Where the reader stands before the first token. -/
def Reading.start : Reading := ⟨[], .value, .null⟩

/-- Whether a value may come next. -/
def Reading.TakesValue (r : Reading) : Prop := r.expect = .value ∨ r.expect = .itemOrEnd

/-- Texts with an integer that is too long where a value may stand, and with nothing wrong in front
of it. -/
def MeetsHugeInteger (text : String) : Prop :=
  ∃ before after r, tokens text = before ++ .hugeInteger :: after ∧
    before.foldlM Reading.step .start = .ok r ∧ r.TakesValue

theorem Reading.startValue_eq_hugeInteger {frames : List Frame} {t : Token} :
    startValue frames t = .error .hugeInteger ↔ t = .hugeInteger := by
  cases t <;> simp [startValue]

/-- **A step meets an integer that is too long** just at such a token, where a value may stand. -/
theorem Reading.step_eq_hugeInteger {r : Reading} {t : Token} :
    r.step t = .error .hugeInteger ↔ t = .hugeInteger ∧ r.TakesValue := by
  rw [Reading.step.eq_def, TakesValue]
  split
  case h_1 hvalue => rw [startValue_eq_hugeInteger]; simp [hvalue]
  case h_3 hitem _ => rw [startValue_eq_hugeInteger]; simp [hitem]
  all_goals simp_all

theorem read_eq_hugeInteger {text : String} :
    read text = .error .hugeInteger ↔ MeetsHugeInteger text := by
  rw [read, Result.bind_eq_error, or_iff_left]
  · simp only [Result.foldlM_eq_error, Reading.step_eq_hugeInteger, MeetsHugeInteger]
    constructor
    · rintro ⟨before, t, after, r, htokens, hbefore, rfl, hr⟩
      exact ⟨before, after, r, htokens, hbefore, hr⟩
    · rintro ⟨before, after, r, htokens, hbefore, hr⟩
      exact ⟨before, _, after, r, htokens, hbefore, rfl, hr⟩
  · -- At the end of the text other errors are found.
    rintro ⟨r, -, h⟩
    split at h
    · split at h
      · cases h
      · cases h
    · cases h

end Json

/-! ## 2.  Compressed streams -/

namespace Gzip

/-- The bytes of a dump, decompressed if they are compressed. -/
def unpack (data : ByteArray) : Except Fault ByteArray :=
  if isCompressed data then decompress data else .ok data

/-- A result that is no failure, or a fault of a compressed stream. -/
def StreamFault {α : Type} (x : Except Fault α) : Prop :=
  ∀ f, x = .error f → f ∈ [.truncatedStream, .badFrame, .corruptStream]

namespace StreamFault

variable {α β : Type}

theorem ok (a : α) : StreamFault (.ok a) :=
  nofun

theorem error {f : Fault} (h : f ∈ [.truncatedStream, .badFrame, .corruptStream]) :
    StreamFault (.error f : Except Fault α) := by
  rintro _ ⟨⟩
  exact h

theorem bind {x : Except Fault α} {f : α → Except Fault β} (hx : StreamFault x)
    (hf : ∀ a, StreamFault (f a)) : StreamFault (x >>= f) := by
  rcases x with e | a
  · exact error (hx e rfl)
  · exact hf a

theorem skip (data : ByteArray) (pos count : Nat) : StreamFault (skip data pos count) := by
  rw [Gzip.skip]
  split
  · exact ok _
  · exact error (by decide)

theorem behindHeader (data : ByteArray) (pos : Nat) : StreamFault (behindHeader data pos) := by
  have hrest (behind : Nat) : StreamFault (if (byteAt data (pos + 3)).testBit 1 = true then
      Gzip.skip data behind 2 else pure behind) := by
    split
    · exact skip _ _ _
    · exact ok _
  rw [Gzip.behindHeader]
  split
  · exact error (by decide)
  refine (skip data pos 10).bind fun behind => ?_
  split
  · exact error (by decide)
  dsimp only
  split
  · exact (skip data behind 2).bind fun p => (skip data p _).bind fun _ => hrest _
  · exact hrest _

theorem readMember (data : ByteArray) (pos : Nat) : StreamFault (readMember data pos) := by
  refine (behindHeader data pos).bind fun start => ?_
  split
  · exact error (by decide)
  · exact error (by decide)
  refine (skip data _ 8).bind fun behind => ?_
  dsimp only
  split
  · exact error (f := .badFrame) (by decide)
  split
  · exact error (f := .badFrame) (by decide)
  · exact ok _

theorem readMembers (data : ByteArray) (fuel pos : Nat) (out : ByteArray) :
    StreamFault (readMembers data fuel pos out) := by
  induction fuel generalizing pos out with
  | zero => exact ok _
  | succ fuel ih =>
    rw [Gzip.readMembers]
    split
    · exact ok _
    · exact (readMember data pos).bind fun m => ih m.2 (out ++ m.1)

theorem unpack (data : ByteArray) : StreamFault (unpack data) := by
  rw [Gzip.unpack]
  split
  · exact readMembers _ _ _ _
  · exact ok _

end StreamFault

end Gzip

/-! ## 3.  Contents -/

/-- Contents that cannot be loaded and are not reported as a wrong format, with the failure that
comes instead. -/
inductive Contents.Escapes (data : Contents) : Failure → Prop
  | stream {f : Fault} (h : Gzip.unpack data = .error f) : data.Escapes (.fault f)
  | hugeInteger {plain : ByteArray} {text : String} (hplain : Gzip.unpack data = .ok plain)
    (htext : String.fromUTF8? plain = some text) (h : Json.MeetsHugeInteger text) :
    data.Escapes (.fault .unreadableNumber)
  | document {plain : ByteArray} {text : String} {v : Value} {e : Failure}
    (hplain : Gzip.unpack data = .ok plain) (htext : String.fromUTF8? plain = some text)
    (hv : Json.read text = .ok v) (h : Document.Escapes v e) : data.Escapes e

/-- Contents in which no string of a document holds half a character. -/
def Contents.IsWhole (data : Contents) : Prop :=
  ∀ plain text, Gzip.unpack data = .ok plain → String.fromUTF8? plain = some text →
    Json.read text ≠ .error .halfCharacter

/-- The faults that are not reported as a wrong format. -/
def escapingFaults : List Fault :=
  [.truncatedStream, .badFrame, .corruptStream, .unreadableNumber, .notAnObject, .outOfRange,
    .wrongKind]

theorem Contents.Escapes.exists_fault {c : Contents} {e : Failure} (h : c.Escapes e) :
    ∃ f ∈ escapingFaults, e = .fault f := by
  cases h with
  | stream h =>
    refine ⟨_, ?_, rfl⟩
    have hmem := Gzip.StreamFault.unpack _ _ h
    exact List.mem_append_left [.unreadableNumber, .notAnObject, .outOfRange, .wrongKind] hmem
  | hugeInteger => exact ⟨.unreadableNumber, by decide, rfl⟩
  | document _ _ _ h =>
    cases h with
    | definition _ h =>
      obtain ⟨_, _, _, -, -, h⟩ := h
      cases h with
      | notAnObject => exact ⟨.notAnObject, by decide, rfl⟩
      | outOfRange => exact ⟨.outOfRange, by decide, rfl⟩
    | index => exact ⟨.wrongKind, by decide, rfl⟩

namespace Repository

/-- What loading makes of the contents of a file. -/
def loaded (path : Path) (data : Contents) : Except Failure Repository := do
  let plain ← faulty (Gzip.unpack data)
  let document ← parseDocument path plain
  built (← decodeDocument document)

theorem failsBeyond_unpack (data : ByteArray) :
    FailsBeyond IsFormatError (fun e => ∃ f, Gzip.unpack data = .error f ∧ e = .fault f)
      (faulty (Gzip.unpack data)) := by
  intro e _
  rcases Gzip.unpack data with f | plain
  · constructor
    · rintro ⟨⟩
      exact ⟨f, rfl, rfl⟩
    · rintro ⟨_, ⟨⟩, rfl⟩
      rfl
  · refine iff_of_false nofun ?_
    rintro ⟨_, ⟨⟩, -⟩

theorem parseDocument_eq_ok {path : Path} {plain : ByteArray} {v : Value} :
    parseDocument path plain = .ok v ↔
      ∃ text, String.fromUTF8? plain = some text ∧ Json.read text = .ok v := by
  rw [parseDocument]
  rcases String.fromUTF8? plain with _ | text
  · refine iff_of_false nofun ?_
    rintro ⟨_, ⟨⟩, -⟩
  · rcases hread : Json.read text with (_ | _ | _) | v'
    · simp [hread]
    · simp [hread]
    · simp [hread]
    · simp [hread, pure, Except.pure]

theorem failsBeyond_parseDocument (path : Path) {plain : ByteArray}
    (hwhole : ∀ text, String.fromUTF8? plain = some text →
      Json.read text ≠ .error .halfCharacter) :
    FailsBeyond IsFormatError (fun e => ∃ text, String.fromUTF8? plain = some text ∧
      Json.MeetsHugeInteger text ∧ e = .fault .unreadableNumber) (parseDocument path plain) := by
  intro e he
  rw [parseDocument]
  rcases htext : String.fromUTF8? plain with _ | text
  · refine iff_of_false ?_ ?_
    · rintro ⟨⟩
      exact he rfl
    · rintro ⟨_, ⟨⟩, -⟩
  · simp only [Option.some.injEq, exists_eq_left', ← Json.read_eq_hugeInteger]
    rcases hread : Json.read text with (_ | _ | _) | v
    · refine iff_of_false ?_ nofun
      rintro ⟨⟩
      exact he rfl
    · constructor
      · rintro ⟨⟩
        exact ⟨rfl, rfl⟩
      · rintro ⟨-, rfl⟩
        rfl
    · exact absurd hread (hwhole text htext)
    · exact iff_of_false nofun nofun

/-- **What is reported of a file, and what escapes.** -/
theorem failsBeyond_loaded (path : Path) {c : Contents} (hwhole : c.IsWhole) :
    FailsBeyond IsFormatError c.Escapes (loaded path c) := by
  refine ((failsBeyond_unpack c).bind fun plain hplain =>
    (failsBeyond_parseDocument path fun text =>
      hwhole plain text (Result.faulty_eq_ok.1 hplain)).bind fun document _ =>
        failsBeyond_document document).congr fun e => ?_
  simp only [Result.faulty_eq_ok, parseDocument_eq_ok]
  constructor
  · rintro (⟨f, hf, rfl⟩ | ⟨plain, hplain, ⟨text, htext, h, rfl⟩ | ⟨v, ⟨text, htext, hv⟩, h⟩⟩)
    · exact .stream hf
    · exact .hugeInteger hplain htext h
    · exact .document hplain htext hv h
  · rintro (⟨hf⟩ | ⟨hplain, htext, h⟩ | ⟨hplain, htext, hv, h⟩)
    · exact .inl ⟨_, hf, rfl⟩
    · exact .inr ⟨_, hplain, .inl ⟨_, htext, h, rfl⟩⟩
    · exact .inr ⟨_, hplain, .inr ⟨_, ⟨_, htext, hv⟩, h⟩⟩

/-! ## 4.  Loading -/

section

open Work (RecordsAt)

variable {w : Workspace} {path : Path} {c : Contents}

theorem recordsAt_read (w : Workspace) (path : Path) :
    RecordsAt w (Work.read path) (faulty (w.files.read path)) id :=
  ⟨#[], rfl⟩

theorem recordsAt_readDump (w : Workspace) (path : Path) :
    RecordsAt w (readDump path)
      (do faulty (Gzip.unpack (← faulty (w.files.read path)))) id := by
  refine (recordsAt_read w path).sequence fun data j _ => ?_
  rw [Gzip.unpack]
  split
  · exact .note_bind _ ((Work.Records.ofExcept _).here _)
  · exact .pure data

/-- What loading makes of a file, or of none. -/
def loadedFrom (path : Path) (x : Except Fault Contents) : Except Failure Repository := do
  loaded path (← faulty x)

/-- **What loading does.**  The entry that announces it must not go to the very file that is
read. -/
theorem recordsAt_load (hlog : ¬ w.LogsTo path) :
    RecordsAt w (load path) (loadedFrom path (w.files.read path)) id := by
  refine .timed _ _ fun n => ?_
  rw [← (Workspace.OnlyLogs.accept w n).read hlog]
  have hread := recordsAt_readDump (w.accept n) path
  rcases hc : (w.accept n).files.read path with f | c
  · rw [hc] at hread
    exact hread.bind_error _
  · rw [hc] at hread
    refine hread.sequence fun plain _ _ => ?_
    refine ((Work.Records.ofExcept _).here _).sequence fun document _ _ => ?_
    refine .bind_note _ ?_
    rw [← ofDocument_perform_fst]
    exact ⟨(ofDocument document).perform.2, Prod.ext rfl Workspace.recording_id.symm⟩

end

/-- The path of a dump. -/
def dumpPath : Path := ⟨.here, ["dump"]⟩

/-- A document in which null stands for a definition. -/
def bareNull : String := "\x7b\"types\": [null]\x7d"

/-- A directory with that document. -/
def bareNullDump : Workspace where
  files := (FileTree.fresh ["here"]).set ["here", "dump"] (.file bareNull.toUTF8)

theorem read_bareNullDump : bareNullDump.files.read dumpPath = .ok bareNull.toUTF8 := by
  have hplace : bareNullDump.files.locate dumpPath = .ok ["here", "dump"] :=
    (FileTree.locate_of_short (by decide +kernel) (by decide +kernel)).trans (by decide +kernel)
  exact FileTree.read_ok hplace rfl rfl

theorem not_logsTo_bareNullDump : ¬ bareNullDump.LogsTo dumpPath := by
  rintro ⟨_, -, ⟨⟩⟩

theorem unpack_bareNull : Gzip.unpack bareNull.toUTF8 = .ok bareNull.toUTF8 := by
  have hbare : Gzip.isCompressed bareNull.toUTF8 = false := by decide +kernel
  rw [Gzip.unpack, hbare]
  rfl

theorem fromUTF8?_bareNull : String.fromUTF8? bareNull.toUTF8 = some bareNull := by
  decide +kernel

theorem json_bareNull : Json.read bareNull = .ok (.object [("types", .list [.null])]) := by
  with_unfolding_all rfl

theorem isWhole_bareNull : Contents.IsWhole bareNull.toUTF8 := by
  intro plain text hplain htext
  cases hplain.symm.trans unpack_bareNull
  cases htext.symm.trans fromUTF8?_bareNull
  rw [json_bareNull]
  nofun

/-- The document can be parsed, but then its definition has no label. -/
theorem escapes_bareNull : Contents.Escapes bareNull.toUTF8 (.fault .notAnObject) :=
  .document unpack_bareNull fromUTF8?_bareNull json_bareNull
    (.definition rfl ⟨[], .null, [], rfl, nofun, .notAnObject nofun⟩)

end Repository

end ComHeaders
