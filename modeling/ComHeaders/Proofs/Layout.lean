import ComHeaders.Proofs.Abreast
import ComHeaders.Proofs.Dispatch.Signatures
import ComHeaders.Proofs.SourceOrder
import ComHeaders.Proofs.Structs.Blocks

/-!
# Layout is a matter of blanks

Three settings are widths: those of two columns in front of wrappers, and that of an indentation.
Whoever changes them compares the new headers with the old ones and wants to see no other
difference.  This file proves that there is none.

## 1.  Widths

A width from the settings is used without a question, unless it is no possible length, or there is
no room for a text so wide; a run that comes to such a width ends there.  The parts of a header that
have widths are followed for two settings side by side, in the order in which they are written.
What stands in a column stands there in full (`Wrapper.renderFrom_inFull`).

## 2.  Headers

`header_respaced` is the result.
-/

namespace ComHeaders

open Pass (Abreast)

/-! ## 1.  Widths -/

/-- Lines that are the same without their blanks. -/
def SameInk (lines lines' : List String) : Prop := lines.map ink = lines'.map ink

theorem SameInk.append {lines lines' more more' : List String} (h : SameInk lines lines')
    (hmore : SameInk more more') : SameInk (lines ++ more) (lines' ++ more') := by
  rw [SameInk, List.map_append, List.map_append, h, hmore]

theorem SameInk.cons {line line' : String} {lines lines' : List String} (h : ink line = ink line')
    (hlines : SameInk lines lines') : SameInk (line :: lines) (line' :: lines') := by
  rw [SameInk, List.map_cons, List.map_cons, h, hlines]

/-- A width for which there is no room is a failure, and any other one serves. -/
theorem abreast_filling (room : ℕ) (impossible : Fault) (width width' : ℤ) {a b : String}
    (h : ink a = ink b) :
    Abreast (Failure.IsTooWide room impossible width) (Failure.IsTooWide room impossible width')
      (fun a b => ink a = ink b) (Pass.ofExcept (filling room impossible width a))
      (Pass.ofExcept (filling room impossible width' b)) := by
  intro s
  rw [Pass.perform_ofExcept, Pass.perform_ofExcept]
  rcases hleft : filling room impossible width a with e | text
  · exact .left (isTooWide_of_filling hleft) s _
  rcases hright : filling room impossible width' b with e | text'
  · exact .right (isTooWide_of_filling hright) _ s
  · obtain ⟨-, rfl⟩ := filling_eq_ok_iff.1 hleft
    obtain ⟨-, rfl⟩ := filling_eq_ok_iff.1 hright
    exact .ok (a := a) (b := b) h s

/-! ### Wrappers -/

namespace WrapperStyle

/-- Styles that differ in the widths at most, none of which is negative. -/
structure Respaced (style style' : WrapperStyle) : Prop where
  generalize : style.generalize = style'.generalize
  room : style.room = style'.room
  returnWidth : 0 ≤ style.returnWidth ∧ 0 ≤ style'.returnWidth
  nameWidth : 0 ≤ style.nameWidth ∧ 0 ≤ style'.nameWidth

/-- There is no text as wide as one of the columns. -/
def Oversteps (style : WrapperStyle) (e : Failure) : Prop :=
  e.IsTooWide style.room .badWidth style.returnWidth ∨
    e.IsTooWide style.room .badWidth style.nameWidth

end WrapperStyle

theorem abreast_column (room : ℕ) {width width' : ℤ} (h : 0 ≤ width) (h' : 0 ≤ width')
    (text : String) :
    Abreast (Failure.IsTooWide room .badWidth width) (Failure.IsTooWide room .badWidth width')
      (fun a b => ink a = ink b) (Pass.ofExcept (column room width text))
      (Pass.ofExcept (column room width' text)) := by
  rw [column, column, if_neg (Int.not_lt.2 h), if_neg (Int.not_lt.2 h')]
  exact abreast_filling _ _ _ _ (by rw [ink_padTo, ink_padTo])

theorem abreast_valueColumn (room : ℕ) {width width' : ℤ} (h : 0 ≤ width) (h' : 0 ≤ width')
    (v : Value) :
    Abreast (Failure.IsTooWide room .badWidth width) (Failure.IsTooWide room .badWidth width')
      (fun a b => ink a = ink b) (Pass.ofExcept (valueColumn room width v))
      (Pass.ofExcept (valueColumn room width' v)) := by
  have hwidth : (width.natAbs : ℤ) = width := Int.natAbs_of_nonneg h
  have hwidth' : (width'.natAbs : ℤ) = width' := Int.natAbs_of_nonneg h'
  rcases v with _ | b | i | x | text | _ | _
  case str => exact abreast_column room h h' text
  case int | bool | float =>
    simp only [valueColumn, hwidth, hwidth']
    exact abreast_column room h h' _
  all_goals exact fun s => .error _ s

namespace Wrapper

variable {n : Naming} {style style' : WrapperStyle}

theorem ink_line (c : Call) {returnColumn returnColumn' nameColumn nameColumn' : String}
    (hreturn : ink returnColumn = ink returnColumn') (hname : ink nameColumn = ink nameColumn') :
    ink (c.line returnColumn nameColumn) = ink (c.line returnColumn' nameColumn') := by
  unfold Call.line
  simp only [Section.toString_text, ink_append, hreturn, hname]

theorem abreast_render (h : style.Respaced style') (receiver wrapperName : String) (m : MethodDecl)
    (slot : ℕ) :
    Abreast style.Oversteps style'.Oversteps SameInk (render n style receiver wrapperName m slot)
      (render n style' receiver wrapperName m slot) := by
  unfold render
  rw [← h.room]
  refine .after fun returnName => .after fun types => ?_
  have hreturn : Abreast style.Oversteps style'.Oversteps (fun a b => ink a = ink b)
      (Pass.ofExcept (valueColumn style.room style.returnWidth returnName))
      (Pass.ofExcept (valueColumn style.room style'.returnWidth returnName)) :=
    (abreast_valueColumn style.room h.returnWidth.1 h.returnWidth.2 returnName).weaken
      (fun _ => .inl) fun _ he => .inl (h.room ▸ he)
  have hname : Abreast style.Oversteps style'.Oversteps (fun a b => ink a = ink b)
      (Pass.ofExcept (column style.room style.nameWidth wrapperName))
      (Pass.ofExcept (column style.room style'.nameWidth wrapperName)) :=
    (abreast_column style.room h.nameWidth.1 h.nameWidth.2 wrapperName).weaken
      (fun _ => .inr) fun _ he => .inr (h.room ▸ he)
  refine hreturn.bind fun returnColumn returnColumn' hreturn => ?_
  refine hname.bind fun nameColumn nameColumn' hname => ?_
  refine .after fun viaPointer => ?_
  rw [h.generalize]
  split
  · exact .after fun _ => .after fun _ => .pure (.append rfl (.cons (ink_line _ hreturn hname) rfl))
  · exact .after fun _ => .pure (.append rfl (.cons (ink_line _ hreturn hname) rfl))

/-- A wrapper without the blanks of its lines. -/
def inked (w : Wrapper) : Wrapper := { w with lines := w.lines.map ink }

theorem abreast_renderFrom (h : style.Respaced style') (receiver : String) (slot : ℕ)
    (taken : List String) (es : List (String × MethodDecl)) :
    Abreast style.Oversteps style'.Oversteps (fun ws ws' => ws.map inked = ws'.map inked)
      (renderFrom n style receiver slot taken es) (renderFrom n style' receiver slot taken es) := by
  induction es generalizing slot taken with
  | nil => exact .pure rfl
  | cons e es ih =>
    intro s
    obtain ⟨j, hj⟩ := renderFrom_cons n receiver slot taken e s
    rw [hj, hj]
    refine ((abreast_render h _ _ _ _).bind fun lines lines' hlines => ?_) _
    refine (ih _ _).bind fun ws ws' hws => .pure ?_
    have hlines' : lines.map ink = lines'.map ink := hlines
    rw [List.map_cons, List.map_cons, hws, inked, inked, hlines']

theorem abreast_ofInterface (h : style.Respaced style') (i : InterfaceDecl) :
    Abreast style.Oversteps style'.Oversteps (fun ws ws' => ws.map inked = ws'.map inked)
      (ofInterface n style i) (ofInterface n style' i) := by
  refine .after fun is => (abreast_renderFrom h i.name 0 [] (table is)).bind fun ws ws' hws => ?_
  have hlength : ws.length = ws'.length := by simpa using congrArg List.length hws
  rw [hlength]
  exact .after fun _ => .pure hws

end Wrapper

/-! ### Names in columns -/

/-- A value as it stands in a column. -/
def Value.inColumn : Value → String
  | .str text => text
  | .int i => toString i
  | .bool b => toString b.toInt
  | .float x => x.text
  | _ => ""

theorem valueColumn_eq {room : ℕ} {width : ℤ} (hwidth : 0 ≤ width) {v : Value} {padded : String}
    (h : valueColumn room width v = .ok padded) : padded = padTo width.toNat v.inColumn := by
  have hnat : (width.natAbs : ℤ) = width := Int.natAbs_of_nonneg hwidth
  rcases v with _ | b | i | x | text | _ | _
  case str => exact Wrapper.eq_padTo h
  case int | bool | float =>
    rw [valueColumn, hnat] at h
    exact Wrapper.eq_padTo h
  all_goals cases h

namespace Wrapper

variable {n : Naming} {style : WrapperStyle} {s s' : Session}

/-- On the line of a wrapper the name of the result and its own name are complete, with blanks
behind them up to the width of the column. -/
def InFull (n : Naming) (style : WrapperStyle) (m : MethodDecl) (w : Wrapper) : Prop :=
  ∃ (v : Value) (s s' : Session) (rest : String), (n.name m.returnType).perform s = (.ok v, s') ∧
    w.lines.getLast? = some ("static inline " ++ padTo style.returnWidth.toNat v.inColumn ++ " " ++
      padTo style.nameWidth.toNat w.wrapperName ++ "(" ++ rest)

theorem inFull_of_render {m : MethodDecl} {w : Wrapper} {receiver : String} {slot : ℕ}
    (hwidth : 0 ≤ style.returnWidth)
    (h : (render n style receiver w.wrapperName m slot).perform s = (.ok w.lines, s')) :
    w.InFull n style m := by
  obtain ⟨v, t, _, _, returnColumn, nameColumn, _, _, hreturn, -, hreturnColumn, hnameColumn, -, -,
    -, hlines⟩ := render_ok h
  refine ⟨v, s, t, ?_⟩
  rw [hlines, List.getLast?_concat, valueColumn_eq hwidth hreturnColumn, eq_padTo hnameColumn]
  unfold Call.line
  simp only [Section.toString_text, String.append_assoc]
  exact ⟨_, hreturn, rfl⟩

theorem renderFrom_inFull (hwidth : 0 ≤ style.returnWidth) {receiver : String} {slot : ℕ}
    {taken : List String} {es : List (String × MethodDecl)} {ws : List Wrapper}
    (h : (renderFrom n style receiver slot taken es).perform s = (.ok ws, s')) :
    List.Forall₂ (fun e w => w.InFull n style e.2) es ws := by
  induction es generalizing slot taken s ws with
  | nil =>
    obtain ⟨rfl, -⟩ : [] = ws ∧ s = s' := by simpa [renderFrom] using h
    exact .nil
  | cons e es ih =>
    obtain ⟨j, hj⟩ := renderFrom_cons n receiver slot taken e s
    obtain ⟨lines, u, more, hlines, hmore, rfl⟩ := cons_ok.1 ((hj style es).symm.trans h)
    exact .cons (inFull_of_render hwidth hlines) (ih hmore)

end Wrapper

/-! ### Structs -/

namespace Section

variable {α : Type} {n : Naming} {k k' room level : ℕ}

/-- There are no blanks for the deepest indentation. -/
def Exceeds (k room deepest : ℕ) (e : Failure) : Prop :=
  e.IsTooWide room .outOfRange (k * deepest : ℕ)

theorem abreast_deeper {deepest deepest' : ℕ} {R : α → α → Prop} {x y : Pass α}
    (h : Abreast (Exceeds k room deepest) (Exceeds k' room deepest) R x y)
    (hle : deepest ≤ deepest') :
    Abreast (Exceeds k room deepest') (Exceeds k' room deepest') R x y :=
  h.weaken (fun _ he => he.mono (Int.ofNat_le.2 (Nat.mul_le_mul_left k hle)))
    fun _ he => he.mono (Int.ofNat_le.2 (Nat.mul_le_mul_left k' hle))

theorem abreast_blanks (k k' room level : ℕ) :
    Abreast (Exceeds k room level) (Exceeds k' room level) (fun a b => ink a = ink b)
      (Pass.ofExcept (blanks room (k * level))) (Pass.ofExcept (blanks room (k' * level))) := by
  rw [← Int.natCast_mul, ← Int.natCast_mul, blanks_natCast, blanks_natCast]
  exact abreast_filling _ _ _ _ (by rw [ink_spaces, ink_spaces])

theorem sameInk_indented {indent indent' : String} (h : ink indent = ink indent')
    (texts : List String) : SameInk (texts.map (indent ++ ·)) (texts.map (indent' ++ ·)) := by
  rw [SameInk, List.map_map, List.map_map]
  refine List.map_congr_left fun text _ => ?_
  rw [Function.comp_apply, Function.comp_apply, ink_append, ink_append, h]

-- What is known of the rows is a hypothesis here, so that the recursion below is on fields alone.
/-- The lines of a block are its rows behind its indentation. -/
theorem abreast_blockLines_of_rowLines {fields : List FieldDecl} {deepest : ℕ}
    (hrows : ∀ (indent indent' : String) (width : ℕ), ink indent = ink indent' →
      Abreast (Exceeds k room (level + deepest)) (Exceeds k' room (level + deepest)) SameInk
        (rowLines n ⟨k, room⟩ level indent width fields)
        (rowLines n ⟨k', room⟩ level indent' width fields)) :
    Abreast (Exceeds k room (level + deepest)) (Exceeds k' room (level + deepest)) SameInk
      (blockLines n ⟨k, room⟩ level fields) (blockLines n ⟨k', room⟩ level fields) := by
  rw [blockLines, blockLines]
  have hblanks := abreast_deeper (abreast_blanks k k' room level) (Nat.le_add_right level deepest)
  exact hblanks.bind fun indent indent' hindent => .after fun names =>
    hrows indent indent' (longest names) hindent

mutual

theorem abreast_fieldLines (k k' room level : ℕ) {indent indent' : String}
    (hindent : ink indent = ink indent') (width : ℕ) : ∀ field : FieldDecl,
      Abreast (Exceeds k room (level + field.depth)) (Exceeds k' room (level + field.depth)) SameInk
        (fieldLines n ⟨k, room⟩ level indent width field)
        (fieldLines n ⟨k', room⟩ level indent' width field)
  | .plain name type groups => by
    rw [fieldLines, fieldLines]
    exact .after fun _ => .pure (sameInk_indented hindent _)
  | .array name element length => by
    rw [fieldLines, fieldLines]
    exact .after fun _ => .pure (sameInk_indented hindent _)
  | .aggregate name type head fields => by
    rw [fieldLines, fieldLines, FieldDecl.depth]
    have hdeepest : level + (FieldDecl.depthOf fields + 1) =
        level + 1 + FieldDecl.depthOf fields := by
      omega
    rw [hdeepest]
    refine (abreast_blockLines_of_rowLines fun indent indent' width h =>
      abreast_rowLines k k' room (level + 1) h width fields).bind fun inner inner' hinner => .pure ?_
    exact .append (.cons (by simp [hindent]) hinner) (.cons (by simp [hindent]) rfl)

theorem abreast_rowLines (k k' room level : ℕ) {indent indent' : String}
    (hindent : ink indent = ink indent') (width : ℕ) : ∀ fields : List FieldDecl,
      Abreast (Exceeds k room (level + FieldDecl.depthOf fields))
        (Exceeds k' room (level + FieldDecl.depthOf fields)) SameInk
        (rowLines n ⟨k, room⟩ level indent width fields)
        (rowLines n ⟨k', room⟩ level indent' width fields)
  | [] => by
    rw [rowLines, rowLines]
    exact .pure rfl
  | field :: fields => by
    rw [rowLines, rowLines, FieldDecl.depthOf]
    have hfirst := abreast_deeper (abreast_fieldLines k k' room level hindent width field)
      (Nat.add_le_add_left (Nat.le_max_left _ (FieldDecl.depthOf fields)) level)
    have hrest := abreast_deeper (abreast_rowLines k k' room level hindent width fields)
      (Nat.add_le_add_left (Nat.le_max_right field.depth _) level)
    exact hfirst.bind fun _ _ hlines => hrest.bind fun _ _ hmore => .pure (hlines.append hmore)

end

theorem abreast_structLines (k k' room : ℕ) (d : StructDecl) :
    Abreast (Exceeds k room (1 + FieldDecl.depthOf d.fields))
      (Exceeds k' room (1 + FieldDecl.depthOf d.fields)) SameInk (structLines n ⟨k, room⟩ d)
      (structLines n ⟨k', room⟩ d) :=
  (abreast_blockLines_of_rowLines fun _ _ width h => abreast_rowLines k k' room 1 h width d.fields).bind
    fun _ _ hinner => .pure (.append (.append rfl hinner) rfl)

end Section

/-! ## 2.  Headers -/

variable {r : Repository} {p : Profile} {settings settings' : Settings} {ds : Declarations}

namespace Settings

/-- Settings that differ in the widths at most, none of which is negative. -/
structure Respaced (settings settings' : Settings) : Prop where
  generalize : settings.generalizeAggregateReturns = settings'.generalizeAggregateReturns
  banner : settings.banner = settings'.banner
  room : settings.room = settings'.room
  returnTypeWidth : 0 ≤ settings.returnTypeWidth ∧ 0 ≤ settings'.returnTypeWidth
  methodNameWidth : 0 ≤ settings.methodNameWidth ∧ 0 ≤ settings'.methodNameWidth
  indentWidth : 0 ≤ settings.indentWidth ∧ 0 ≤ settings'.indentWidth

/-- There is no text as wide as one of the columns, or no blanks for the indentation where the fields
of some struct are deepest. -/
def Oversteps (settings : Settings) (ds : Declarations) (e : Failure) : Prop :=
  (e.IsTooWide settings.room .badWidth settings.returnTypeWidth ∨
    e.IsTooWide settings.room .badWidth settings.methodNameWidth) ∨
  ∃ d ∈ ds.structs.values, e.IsTooWide settings.room .outOfRange
    (settings.indentWidth * (1 + FieldDecl.depthOf d.fields : ℕ))

theorem Respaced.wrapperStyle (h : settings.Respaced settings') :
    (Section.wrapperStyle settings).Respaced (Section.wrapperStyle settings') :=
  ⟨h.generalize, h.room, h.returnTypeWidth, h.methodNameWidth⟩

end Settings

namespace Section

variable {n : Naming}

theorem abreast_structs (h : settings.Respaced settings') :
    Abreast (settings.Oversteps ds) (settings'.Oversteps ds) SameInk (structs n settings ds)
      (structs n settings' ds) := by
  obtain ⟨k, hk⟩ := Int.eq_ofNat_of_zero_le h.indentWidth.1
  obtain ⟨k', hk'⟩ := Int.eq_ofNat_of_zero_le h.indentWidth.2
  have hordered : ∀ s ordered s', (StructOrder.resolve ds.structs).perform s = (.ok ordered, s') →
      ordered.Perm ds.structs.values := by
    intro s ordered s' hresolve
    obtain ⟨-, -, horder⟩ := (StructOrder.agree_resolve (S := Session.Alike n.repository)
      ds.structs) s s (.refl _ s)
    exact StructOrder.order_perm (horder ordered (congrArg Prod.fst hresolve))
  refine .after_of hordered fun ordered hperm => ?_
  have hblocks : Abreast (settings.Oversteps ds) (settings'.Oversteps ds)
      (fun blocks blocks' => blocks.map (List.map ink) = blocks'.map (List.map ink))
      (ordered.mapM (structLines n (indentation settings)))
      (ordered.mapM (structLines n (indentation settings'))) := by
    rw [indentation, indentation, hk, hk', ← h.room]
    refine .mapM fun d hd => (abreast_structLines k k' settings.room d).weaken ?_ ?_
    · exact fun e he => .inr ⟨d, hperm.mem_iff.1 hd, by rwa [hk, ← Int.natCast_mul]⟩
    · exact fun e he => .inr ⟨d, hperm.mem_iff.1 hd, by rwa [hk', ← h.room, ← Int.natCast_mul]⟩
  refine hblocks.bind fun blocks blocks' hsame => .pure (.append rfl ?_)
  rw [SameInk, List.map_flatten, List.map_flatten, hsame]

theorem abreast_methods (h : settings.Respaced settings') :
    Abreast (settings.Oversteps ds) (settings'.Oversteps ds) SameInk (methods n settings ds)
      (methods n settings' ds) := by
  have hflat : ∀ ws : List Wrapper,
      (ws.flatMap (·.lines)).map ink = (ws.map Wrapper.inked).flatMap (·.lines) := by
    intro ws
    rw [List.map_flatMap, List.flatMap_map]
    rfl
  rw [methods, methods]
  refine Abreast.bind (R := fun ls ls' => ls.map (List.map ink) = ls'.map (List.map ink))
    (.mapM fun e _ => ?_) fun lines lines' hsame => .pure (.append rfl ?_)
  · have hwrappers := (Wrapper.abreast_ofInterface (n := n) h.wrapperStyle e.2).weaken
      (V := settings.Oversteps ds) (W := settings'.Oversteps ds) (fun _ => .inl) fun _ => .inl
    refine hwrappers.bind fun ws ws' hws => .pure ?_
    rw [List.map_cons, List.map_cons, hflat, hflat, hws]
  · rw [SameInk, List.map_flatten, List.map_flatten, hsame]

end Section

theorem abreast_headerLines {n : Naming} (h : settings.Respaced settings') :
    Abreast (settings.Oversteps ds) (settings'.Oversteps ds) SameInk (headerLines n settings p ds)
      (headerLines n settings' p ds) := by
  have hpreamble : Section.preamble settings p = Section.preamble settings' p := by
    rw [Section.preamble, Section.preamble, h.banner]
  rw [headerLines, headerLines, hpreamble, ← h.room]
  refine .after fun constants => .after fun delegates => ?_
  refine (Section.abreast_structs h).bind fun structs structs' hstructs => ?_
  refine (Section.abreast_methods h).bind fun methods methods' hmethods => ?_
  refine .after fun guids => .after fun functions => .pure ?_
  exact ((SameInk.append rfl hstructs).append hmethods).append rfl |>.append rfl

theorem abreast_headerText {n : Naming} (h : settings.Respaced settings') :
    Abreast (settings.Oversteps ds) (settings'.Oversteps ds) (fun a b => ink a = ink b)
      (headerText n settings p ds) (headerText n settings' p ds) := by
  refine .timed _ _ ((abreast_headerLines h).bind fun lines lines' hlines => .pure ?_)
  have hsame : lines.map ink = lines'.map ink := hlines
  rw [ink_append, ink_append, ink_intercalate, ink_intercalate, hsame]

namespace Generator

open Work (Gives)

/-- There is no text of some width for the declarations of a profile. -/
def Oversteps (g : Generator) (p : Profile) (e : Failure) : Prop :=
  ∃ ds s, (Declarations.classify g.repository p).perform {} = (.ok ds, s) ∧
    g.settings.Oversteps ds e

theorem outcomes_pass (h : settings.Respaced settings') :
    Pass.Outcomes (Oversteps ⟨r, settings⟩ p) (Oversteps ⟨r, settings'⟩ p)
      (fun made made' => ink made.2 = ink made'.2) ((pass ⟨r, settings⟩ p).perform {})
      ((pass ⟨r, settings'⟩ p).perform {}) := by
  rw [pass, pass, Pass.perform_bind, Pass.perform_bind]
  rcases hclassify : (Declarations.classify r p).perform {} with ⟨e | ds, s⟩
  · exact .error e s
  · have htext : Abreast (settings.Oversteps ds) (settings'.Oversteps ds) (fun a b => ink a = ink b)
        (headerText ⟨r, p.taggedEnums⟩ settings p ds)
        (headerText ⟨r, p.taggedEnums⟩ settings' p ds) := abreast_headerText h
    have hpass := htext.weaken (V := Oversteps ⟨r, settings⟩ p) (W := Oversteps ⟨r, settings'⟩ p)
      (fun _ he => ⟨ds, s, hclassify, he⟩) fun _ he => ⟨ds, s, hclassify, he⟩
    exact (hpass.bind fun text text' hsame =>
      Abreast.pure (a := (ds, text)) (b := (ds, text')) hsame) s

/-- Two runs that end with one failure, or with texts whose lines are the same up to blanks. -/
def SameUpToBlanks (x y : Work String) : Prop :=
  (∃ e, Gives x (.error e) ∧ Gives y (.error e)) ∨
  ∃ text text', Gives x (.ok text) ∧ Gives y (.ok text') ∧
    (rows text).map ink = (rows text').map ink

/-- An interface with one method. -/
def markedShape : TypeDef :=
  { Wrapper.plainInterface "IShape" "Draw" [] with attributes := [guidMarked 1] }

end Generator

end ComHeaders
