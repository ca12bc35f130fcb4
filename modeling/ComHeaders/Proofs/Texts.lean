import ComHeaders.Text.Column

/-!
# Reading what was written

The lines of a header are put together from names, and names stand in columns, in lists and between
brackets.  This file takes such lines apart again.  It knows nothing of C beyond the characters
that separate one thing from another.

## 1.  Words

The words of a text are what stands between its blanks (`words`).  Indentations and columns add
blanks, so they do not show in the words (`words_padTo`, `words_indented`).  Words that are written
with single blanks between them are a phrase.  The last word often is a name and the others its type
(`splitLast`).

## 2.  Lists

The members of a list are what stands between its commas, each read as words
(`members_intercalate`).

## 3.  Brackets

The pieces of a text are what stands between its brackets, whichever these are
(`pieces_bracketed`).

## 4.  Ink

The ink of a text is what is left without its blanks.  Columns and indentations have the ink of what
stands in them, and the ink of a text is laid out in the same lines as the text (`rows_ink`).
-/

namespace ComHeaders

/-! ## 1.  Words -/

/-- The words of a text. -/
def words (text : String) : List String :=
  ((text.toList.splitOnP (· == ' ')).filter fun w => !w.isEmpty).map String.ofList

/-- A text that is one word. -/
structure IsSolid (text : String) : Prop where
  nonempty : text ≠ ""
  unbroken : ' ' ∉ text.toList

/-- Some words with single blanks between them. -/
def phrase (ws : List String) : String := " ".intercalate ws

/-- As many blanks as a number says. -/
def spaces (k : Nat) : String := String.ofList (List.replicate k ' ')

theorem spaces_succ (k : Nat) : spaces (k + 1) = " " ++ spaces k := by
  rw [spaces, List.replicate_succ, ← String.toList_inj]
  simp [spaces]

theorem spaces_succ' (k : Nat) : spaces (k + 1) = spaces k ++ " " := by
  rw [spaces, List.replicate_succ', ← String.toList_inj]
  simp [spaces]

theorem padTo_eq (width : Nat) (s : String) : padTo width s = s ++ spaces (width - s.length) :=
  rfl

@[simp]
theorem words_empty : words "" = [] :=
  rfl

@[simp]
theorem words_append_blank (a b : String) : words (a ++ " " ++ b) = words a ++ words b := by
  have hblank : (a ++ " " ++ b).toList = a.toList ++ ' ' :: b.toList := by simp
  rw [words, hblank, List.splitOnP_append_cons _ _ (by decide), List.filter_append,
    List.map_append]
  rfl

theorem words_append_blank' (a b : String) : words (a ++ (" " ++ b)) = words a ++ words b := by
  rw [← String.append_assoc, words_append_blank]

@[simp]
theorem words_append_spaces (a : String) (k : Nat) : words (a ++ spaces k) = words a := by
  induction k with
  | zero => rw [show spaces 0 = "" from rfl, String.append_empty]
  | succ k ih =>
    rw [spaces_succ', ← String.append_assoc, ← String.append_empty (s := a ++ spaces k ++ " "),
      words_append_blank, ih, words_empty, List.append_nil]

@[simp]
theorem words_indented (k : Nat) (a : String) : words (spaces k ++ a) = words a := by
  induction k with
  | zero => rw [show spaces 0 = "" from rfl, String.empty_append]
  | succ k ih =>
    rw [spaces_succ, String.append_assoc, ← String.empty_append (s := " " ++ (spaces k ++ a)),
      words_append_blank', ih, words_empty, List.nil_append]

@[simp]
theorem words_padTo (width : Nat) (a : String) : words (padTo width a) = words a := by
  rw [padTo_eq, words_append_spaces]

theorem IsSolid.words_eq {text : String} (h : IsSolid text) : words text = [text] := by
  have hsplit : text.toList.splitOnP (· == ' ') = [text.toList] := by
    refine List.splitOnP_eq_singleton fun c hc => beq_eq_false_iff_ne.2 ?_
    rintro rfl
    exact h.unbroken hc
  have hne : text.toList ≠ [] := fun hnil => h.nonempty (String.toList_eq_nil_iff.1 hnil)
  simp [words, hsplit, hne]

theorem IsSolid.append {text more : String} (h : IsSolid text) (hmore : ' ' ∉ more.toList) :
    IsSolid (text ++ more) := by
  refine ⟨fun hempty => h.nonempty (String.append_eq_empty_iff.1 hempty).1, ?_⟩
  rw [String.toList_append, List.mem_append]
  exact fun hor => hor.elim h.unbroken hmore

/-- The words before the last one as a phrase, and the last one. -/
def splitLast (ws : List String) : String × String := (phrase ws.dropLast, ws.getLastD "")

theorem splitLast_append (ws : List String) (w : String) :
    splitLast (ws ++ [w]) = (phrase ws, w) := by
  rw [splitLast, List.dropLast_concat, List.getLastD_concat]

/-! ## 2.  Lists -/

/-- The members of a list, each as its words. -/
def members (text : String) : List (List String) :=
  (text.toList.splitOn ',').map fun cs => words (String.ofList cs)

theorem members_of_not_mem {x : String} (hx : ',' ∉ x.toList) : members x = [words x] := by
  rw [members, List.splitOn_eq_singleton hx, List.map_singleton, String.ofList_toList]

/-- A blank in front belongs to the first member and does not show. -/
theorem members_blank (rest : String) : members (" " ++ rest) = members rest := by
  have hword : ∀ cs : List Char, words (String.ofList (' ' :: cs)) = words (String.ofList cs) := by
    intro cs
    have hcs : String.ofList (' ' :: cs) = spaces 1 ++ String.ofList cs := by
      rw [← String.toList_inj]
      simp [spaces]
    rw [hcs, words_indented]
  have hlist : (" " ++ rest).toList = ' ' :: rest.toList := by simp
  rw [members, members, hlist, List.splitOn, List.splitOn]
  rw [List.splitOnP_cons_eq_if_modifyHead, if_neg (by decide)]
  rcases rest.toList.splitOnP (· == ',') with _ | ⟨cs, css⟩
  · rfl
  · rw [List.modifyHead_cons, List.map_cons, List.map_cons, hword]

theorem members_append (a b : String) : members (a ++ ", " ++ b) = members a ++ members b := by
  have hlist : (a ++ ", " ++ b).toList = a.toList ++ ',' :: (" " ++ b).toList := by simp
  rw [← members_blank b, members, hlist, List.splitOn_append_cons_self, List.map_append]
  rfl

/-- **A list has the members it was made of.** -/
theorem members_intercalate {xs : List String} (hne : xs ≠ []) (h : ∀ x ∈ xs, ',' ∉ x.toList) :
    members (", ".intercalate xs) = xs.map words := by
  induction xs with
  | nil => exact absurd rfl hne
  | cons x xs ih =>
    obtain ⟨hx, hxs⟩ := List.forall_mem_cons.1 h
    rcases xs with _ | ⟨y, ys⟩
    · rw [String.intercalate_singleton, members_of_not_mem hx, List.map_singleton]
    · rw [String.intercalate_cons_cons, members_append, members_of_not_mem hx,
        ih (List.cons_ne_nil y ys) hxs]
      rfl

/-! ## 3.  Brackets -/

/-- The characters that enclose something. -/
def isBracket (c : Char) : Bool := c == '(' || c == ')' || c == '[' || c == ']'

/-- What stands between the brackets of a text. -/
def pieces (text : String) : List String :=
  (text.toList.splitOnP isBracket).map String.ofList

/-- Pieces with a bracket in front of each but the first. -/
def bracketed (first : String) : List (Char × String) → String
  | [] => first
  | (bracket, text) :: rest => first ++ String.singleton bracket ++ bracketed text rest

/-- A text without brackets. -/
def IsFree (text : String) : Prop := ∀ c ∈ text.toList, isBracket c = false

-- Asked for all members of a list, the question must not become one for all characters.
instance : DecidablePred IsFree := fun text =>
  decidable_of_iff (text.toList.all fun c => !isBracket c) (by simp [IsFree])

theorem isFree_append {a b : String} (ha : IsFree a) (hb : IsFree b) : IsFree (a ++ b) := by
  intro c hc
  rw [String.toList_append, List.mem_append] at hc
  exact hc.elim (ha c) (hb c)

theorem isFree_spaces (k : Nat) : IsFree (spaces k) := by
  intro c hc
  rw [spaces, String.toList_ofList] at hc
  rw [List.eq_of_mem_replicate hc]
  rfl

theorem isFree_intercalate {xs : List String} (h : ∀ x ∈ xs, IsFree x) :
    IsFree (", ".intercalate xs) := by
  induction xs with
  | nil => exact fun c hc => by cases hc
  | cons x xs ih =>
    obtain ⟨hx, hxs⟩ := List.forall_mem_cons.1 h
    rcases xs with _ | ⟨y, ys⟩
    · rw [String.intercalate_singleton]
      exact hx
    · rw [String.intercalate_cons_cons]
      exact isFree_append (isFree_append hx (by decide)) (ih hxs)

/-- **A text has the pieces it was made of.** -/
theorem pieces_bracketed {first : String} {rest : List (Char × String)} (hfirst : IsFree first)
    (hrest : ∀ e ∈ rest, isBracket e.1 = true ∧ IsFree e.2) :
    pieces (bracketed first rest) = first :: rest.map (·.2) := by
  induction rest generalizing first with
  | nil => rw [bracketed, pieces, List.splitOnP_eq_singleton hfirst]; simp
  | cons e rest ih =>
    obtain ⟨⟨hbracket, htext⟩, hrest⟩ := List.forall_mem_cons.1 hrest
    have hlist : (bracketed first (e :: rest)).toList =
        first.toList ++ e.1 :: (bracketed e.2 rest).toList := by
      simp [bracketed]
    rw [pieces, hlist, List.splitOnP_append_cons_of_forall_mem hfirst _ hbracket, List.map_cons,
      String.ofList_toList, List.map_cons, ← ih htext hrest]
    rfl

/-! ## 4.  Ink -/

/-- A text without its blanks. -/
def ink (text : String) : String := String.ofList (text.toList.filter (· != ' '))

/-- The lines of a text. -/
def rows (text : String) : List String := (text.toList.splitOn '\n').map String.ofList

@[simp]
theorem ink_append (a b : String) : ink (a ++ b) = ink a ++ ink b := by
  rw [ink, String.toList_append, List.filter_append, String.ofList_append]
  rfl

@[simp]
theorem ink_spaces (k : Nat) : ink (spaces k) = "" := by
  rw [ink, spaces, String.toList_ofList, List.filter_replicate_of_neg (by decide)]

@[simp]
theorem ink_padTo (width : Nat) (text : String) : ink (padTo width text) = ink text := by
  rw [padTo_eq, ink_append, ink_spaces, String.append_empty]

theorem ink_intercalate (separator : String) (texts : List String) :
    ink (separator.intercalate texts) = (ink separator).intercalate (texts.map ink) := by
  induction texts with
  | nil => rfl
  | cons text texts ih =>
    rcases texts with _ | ⟨next, texts⟩
    · simp
    · simp only [String.intercalate_cons_cons, ink_append, List.map_cons] at ih ⊢
      rw [ih]

/-- Dropping members that are no separators commutes with splitting. -/
theorem splitOnP_filter {α : Type} (isSeparator keep : α → Bool)
    (h : ∀ a, isSeparator a = true → keep a = true) (l : List α) :
    (l.filter keep).splitOnP isSeparator = (l.splitOnP isSeparator).map (List.filter keep) := by
  induction l with
  | nil => rfl
  | cons a l ih =>
    rw [List.splitOnP_cons_eq_if_modifyHead]
    by_cases hseparator : isSeparator a = true
    · rw [List.filter_cons_of_pos (h a hseparator), List.splitOnP_cons_eq_if_modifyHead,
        if_pos hseparator, if_pos hseparator, ih, List.map_cons, List.filter_nil]
    · rw [if_neg hseparator]
      by_cases hkeep : keep a = true
      · rw [List.filter_cons_of_pos hkeep, List.splitOnP_cons_eq_if_modifyHead, if_neg hseparator,
          ih]
        rcases l.splitOnP isSeparator with _ | ⟨piece, pieces⟩
        · rfl
        · rw [List.map_cons, List.modifyHead_cons, List.modifyHead_cons, List.map_cons,
            List.filter_cons_of_pos hkeep]
      · rw [List.filter_cons_of_neg hkeep, ih]
        rcases l.splitOnP isSeparator with _ | ⟨piece, pieces⟩
        · rfl
        · rw [List.modifyHead_cons, List.map_cons, List.map_cons, List.filter_cons_of_neg hkeep]

/-- **The ink of a text is laid out in the same lines.** -/
theorem rows_ink (text : String) : rows (ink text) = (rows text).map ink := by
  have hkeep : ∀ c : Char, (c == '\n') = true → (c != ' ') = true := by
    rintro c hc
    rw [beq_iff_eq.1 hc]
    decide
  rw [rows, ink, String.toList_ofList, List.splitOn, splitOnP_filter _ _ hkeep, rows, List.map_map,
    List.map_map, ← List.splitOn]
  refine List.map_congr_left fun piece _ => ?_
  rw [Function.comp_apply, Function.comp_apply, ink, String.toList_ofList]

end ComHeaders
