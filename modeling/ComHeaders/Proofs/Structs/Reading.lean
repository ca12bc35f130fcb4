import ComHeaders.Declaration.Basic
import ComHeaders.Proofs.Naming.Identifiers

/-!
# Reading the lines of a struct

The block of a struct has a line for each declarator, and two around each aggregate inside.  This
file reads such lines back.

## 1.  Lines

`BlockLine.text` is what stands on a line, and `BlockLine.read` reads it off its words, whatever the
indentation and the column (`BlockLine.read_words`).

## 2.  Trees

`Shown` is what a field shows of itself.  Its lines are a tree written out, each with the level it
stands at; a reader with a stack of open aggregates builds the tree again (`Reader.foldl_lines`).
-/

namespace ComHeaders

/-! ## 1.  Lines -/

/-- What stands behind the name in a declarator. -/
inductive Shape where
  | single
  | array (extent : Int)
  | group (length : Int)
  deriving DecidableEq, Repr

def Shape.text : Shape → String
  | single => ";"
  | array extent => "[" ++ toString extent ++ "];"
  | group length => " : " ++ toString length ++ ";"

/-- The declarator of a member, an array or a group of bits. -/
structure Declarator where
  type : String
  name : String
  shape : Shape
  deriving DecidableEq, Repr

/-- A line of a block. -/
inductive BlockLine where
  | opening (isUnion : Bool)
  | declarator (d : Declarator)
  | closing (name : String)
  deriving DecidableEq, Repr

namespace BlockLine

/-- The keyword of an aggregate. -/
def keyword (isUnion : Bool) : String := if isUnion then "union" else "struct"

/-- The text of a line, its type in a column. -/
def text (column : Nat) : BlockLine → String
  | opening isUnion => keyword isUnion ++ " \x7b"
  | declarator d => padTo column d.type ++ " " ++ (d.name ++ d.shape.text)
  | closing name => "\x7d " ++ (name ++ ";")

/-- Its names are identifiers and names of types. -/
def IsLegible : BlockLine → Prop
  | opening _ => True
  | declarator d => IsTypeName d.type ∧ IsIdentifier d.name
  | closing name => IsIdentifier name

/-- A word without the semicolon at its end. -/
def stem (w : String) : String := String.ofList w.toList.dropLast

/-- Reads a line off its words.  The marks tell what kind of line it is. -/
def read (ws : List String) : Option BlockLine :=
  if "\x7b" ∈ ws then some (.opening (ws.head? == some "union"))
  else if "\x7d" ∈ ws then some (.closing (stem (splitLast ws).2))
  else if ":" ∈ ws then
    (readInteger (stem (splitLast ws).2)).map fun length =>
      let named := splitLast ws.dropLast.dropLast
      .declarator ⟨named.1, named.2, .group length⟩
  else match pieces (splitLast ws).2 with
    | [name, extent, _] => (readInteger extent).map fun extent =>
        .declarator ⟨(splitLast ws).1, name, .array extent⟩
    | _ => some (.declarator ⟨(splitLast ws).1, stem (splitLast ws).2, .single⟩)

theorem stem_append (w : String) : stem (w ++ ";") = w := by
  rw [stem, String.toList_append, show (";" : String).toList = [';'] from rfl,
    List.dropLast_concat, String.ofList_toList]

variable {type name : String}

theorem mem_toString {i : Int} {c : Char} (h : c ∈ (toString i).toList) :
    c = '-' ∨ isWordChar c = true := by
  rcases i with n | n
  · rw [show toString (Int.ofNat n) = Nat.repr n from rfl, Nat.toList_repr] at h
    exact .inr (isWordChar_of_mem_toDigits h)
  · rw [show toString (Int.negSucc n) = "-" ++ Nat.repr (n + 1) from rfl, String.toList_append,
      Nat.toList_repr, List.mem_append] at h
    exact h.imp List.mem_singleton.1 isWordChar_of_mem_toDigits

theorem isFree_toString (i : Int) : IsFree (toString i) := by
  intro c hc
  rcases mem_toString hc with rfl | hword
  · rfl
  · exact isBracket_of_isTypeChar (by simp [isTypeChar, hword])

theorem blank_notMem_toString (i : Int) : ' ' ∉ (toString i).toList := by
  intro hc
  rcases mem_toString hc with h | h
  · cases h
  · exact absurd h (by decide)

/-- The braces and the colon are no words of a type and its declarator. -/
theorem notMem_words (h : IsTypeName type) {last : String} (hlast : ';' ∈ last.toList) :
    "\x7b" ∉ words type ++ [last] ∧ "\x7d" ∉ words type ++ [last] ∧ ":" ∉ words type ++ [last] := by
  have hnot : ∀ (mark : String) (c : Char), c ∈ mark.toList → isTypeChar c = false →
      ';' ∉ mark.toList → mark ∉ words type ++ [last] := by
    intro mark c hc hchar hend hmem
    rcases List.mem_append.1 hmem with hmem | hmem
    · rw [h.isTypeChar_of_mem_words hmem hc] at hchar
      cases hchar
    · exact hend (List.mem_singleton.1 hmem ▸ hlast)
  exact ⟨hnot _ '\x7b' (by decide) (by decide) (by decide),
    hnot _ '\x7d' (by decide) (by decide) (by decide),
    hnot _ ':' (by decide) (by decide) (by decide)⟩

/-- A declarator of a single member. -/
theorem read_single (htype : IsTypeName type) (hname : IsIdentifier name) :
    read (words type ++ [name ++ ";"]) = some (.declarator ⟨type, name, .single⟩) := by
  have hlast : ';' ∈ (name ++ ";").toList := by simp
  obtain ⟨hopen, hclose, hcolon⟩ := notMem_words htype hlast
  have hend : IsFree ";" := by decide
  have hpieces : pieces (bracketed (name ++ ";") []) = [name ++ ";"] :=
    pieces_bracketed (isFree_append hname.isFree hend) fun _ he => by cases he
  rw [bracketed] at hpieces
  rw [read, if_neg hopen, if_neg hclose, if_neg hcolon, splitLast_append, hpieces, stem_append,
    htype.phrase_words]

/-- A declarator of an array. -/
theorem read_array (htype : IsTypeName type) (hname : IsIdentifier name) (extent : Int) :
    read (words type ++ [name ++ ("[" ++ toString extent ++ "];")]) =
      some (.declarator ⟨type, name, .array extent⟩) := by
  have hlast : ';' ∈ (name ++ ("[" ++ toString extent ++ "];")).toList := by simp
  obtain ⟨hopen, hclose, hcolon⟩ := notMem_words htype hlast
  have hbrackets : name ++ ("[" ++ toString extent ++ "];") =
      bracketed name [('[', toString extent), (']', ";")] := by
    have hend : "];" = String.singleton ']' ++ ";" := rfl
    have hstart : "[" = String.singleton '[' := rfl
    rw [hend, hstart]
    simp only [bracketed, String.append_assoc]
  have hpieces : pieces (name ++ ("[" ++ toString extent ++ "];")) = [name, toString extent, ";"] := by
    rw [hbrackets, pieces_bracketed hname.isFree]
    · rfl
    · simp only [List.forall_mem_cons]
      exact ⟨⟨rfl, isFree_toString extent⟩, ⟨rfl, by decide⟩, fun _ he => by cases he⟩
  rw [read, if_neg hopen, if_neg hclose, if_neg hcolon, splitLast_append, hpieces]
  simp only [readInteger_toString, Option.map_some, htype.phrase_words]

/-- A declarator of a group of bits. -/
theorem read_group (htype : IsTypeName type) (hname : IsIdentifier name) (length : Int) :
    read (words type ++ [name] ++ [":"] ++ [toString length ++ ";"]) =
      some (.declarator ⟨type, name, .group length⟩) := by
  have hcolon : ":" ∈ words type ++ [name] ++ [":"] ++ [toString length ++ ";"] := by simp
  have hnot : ∀ (mark : String) (c : Char), c ∈ mark.toList → isTypeChar c = false →
      ';' ∉ mark.toList → mark ≠ ":" →
      mark ∉ words type ++ [name] ++ [":"] ++ [toString length ++ ";"] := by
    intro mark c hc hchar hend hne hmem
    rcases List.mem_append.1 hmem with hmem | hmem
    · rcases List.mem_append.1 hmem with hmem | hmem
      · rcases List.mem_append.1 hmem with hmem | hmem
        · rw [htype.isTypeChar_of_mem_words hmem hc] at hchar
          cases hchar
        · rw [hname.isTypeName.isTypeChar_of_mem (List.mem_singleton.1 hmem ▸ hc)] at hchar
          cases hchar
      · exact hne (List.mem_singleton.1 hmem)
    · rw [List.mem_singleton.1 hmem] at hend
      exact hend (by simp)
  have hopen := hnot "\x7b" '\x7b' (by decide) (by decide) (by decide) (by decide)
  have hclose := hnot "\x7d" '\x7d' (by decide) (by decide) (by decide) (by decide)
  rw [read, if_neg hopen, if_neg hclose, if_pos hcolon, splitLast_append, List.dropLast_concat,
    List.dropLast_concat, splitLast_append, stem_append, readInteger_toString]
  simp only [Option.map_some, htype.phrase_words]

/-- **A line is read off its words**, whatever the indentation and the column. -/
theorem read_words {line : BlockLine} (h : line.IsLegible) (k column : Nat) :
    read (words (spaces k ++ line.text column)) = some line := by
  rcases line with isUnion | ⟨type, name, shape⟩ | name
  · have hkeyword : IsSolid (keyword isUnion) := by cases isUnion <;> exact ⟨by decide, by decide⟩
    have hmark : IsSolid "\x7b" := ⟨by decide, by decide⟩
    rw [text, words_indented, show " \x7b" = " " ++ "\x7b" from rfl, words_append_blank',
      hkeyword.words_eq, hmark.words_eq]
    cases isUnion <;> rfl
  · obtain ⟨htype, hname⟩ := h
    rw [text, words_indented, words_append_blank, words_padTo]
    cases shape with
    | single =>
      have hlast : IsSolid (name ++ ";") := hname.isSolid.append (by decide)
      rw [Shape.text, hlast.words_eq, read_single htype hname]
    | array extent =>
      have hlast : IsSolid (name ++ ("[" ++ toString extent ++ "];")) := by
        refine hname.isSolid.append ?_
        simp only [String.toList_append, List.mem_append]
        rintro ((hc | hc) | hc)
        · exact absurd hc (by decide)
        · exact blank_notMem_toString extent hc
        · exact absurd hc (by decide)
      rw [Shape.text, hlast.words_eq, read_array htype hname]
    | group length =>
      have hlast : IsSolid (toString length ++ ";") := by
        refine ⟨fun hempty => absurd (String.append_eq_empty_iff.1 hempty).2 (by decide), ?_⟩
        simp only [String.toList_append, List.mem_append]
        exact fun hor => hor.elim (blank_notMem_toString length) (by decide)
      have hcolon : IsSolid ":" := ⟨by decide, by decide⟩
      have htext : name ++ Shape.text (.group length) =
          name ++ " " ++ ":" ++ " " ++ (toString length ++ ";") := by
        rw [Shape.text, show " : " = " " ++ ":" ++ " " from rfl]
        simp only [String.append_assoc]
      rw [htext, words_append_blank, words_append_blank, hname.isSolid.words_eq, hcolon.words_eq,
        hlast.words_eq, ← List.append_assoc, ← List.append_assoc, read_group htype hname]
  · have hlast : IsSolid (name ++ ";") := (IsIdentifier.isSolid h).append (by decide)
    have hmark : IsSolid "\x7d" := ⟨by decide, by decide⟩
    rw [text, words_indented, show "\x7d " = "\x7d" ++ " " from rfl, words_append_blank,
      hlast.words_eq, hmark.words_eq]
    have hopen : "\x7b" ∉ ["\x7d"] ++ [name ++ ";"] := by
      rw [List.mem_append, List.mem_singleton, List.mem_singleton]
      rintro (hmark | hmark)
      · exact absurd hmark (by decide)
      · have hend : ';' ∈ ("\x7b" : String).toList := hmark ▸ (by simp)
        exact absurd hend (by decide)
    rw [read, if_neg hopen, if_pos (by simp), splitLast_append, stem_append]

end BlockLine

/-! ## 2.  Trees -/

/-- What a field shows of itself in a block. -/
inductive Shown where
  | declarator (d : Declarator)
  | aggregate (isUnion : Bool) (name : String) (fields : List Shown)

namespace Shown

mutual

/-- The lines of a field at a level, each with the level it stands at. -/
def lines (level : Nat) : Shown → List (Nat × BlockLine)
  | declarator d => [(level, .declarator d)]
  | aggregate isUnion name fields =>
    (level, .opening isUnion) :: linesOf (level + 1) fields ++ [(level, .closing name)]

/-- The lines of some fields in a row. -/
def linesOf (level : Nat) : List Shown → List (Nat × BlockLine)
  | [] => []
  | field :: fields => field.lines level ++ linesOf level fields

end

/-- What has been read: the fields of the innermost aggregate that is open, latest first, and in
front of each open one the fields of the aggregate around it. -/
structure Reader where
  fields : List Shown := []
  outer : List (Bool × List Shown) := []

namespace Reader

/-- Reads one line more. -/
def step (r : Reader) : BlockLine → Reader
  | .declarator d => { r with fields := .declarator d :: r.fields }
  | .opening isUnion => ⟨[], (isUnion, r.fields) :: r.outer⟩
  | .closing name =>
    match r.outer with
    | (isUnion, fields) :: outer =>
      ⟨.aggregate isUnion name r.fields.reverse :: fields, outer⟩
    | [] => r

/-- Reads some lines. -/
def after (r : Reader) (ls : List (Nat × BlockLine)) : Reader := ls.foldl (fun r l => r.step l.2) r

theorem after_append (r : Reader) (ls ls' : List (Nat × BlockLine)) :
    r.after (ls ++ ls') = (r.after ls).after ls' :=
  List.foldl_append

mutual

/-- The lines of a field are read as the field, whatever was read before. -/
theorem after_lines (r : Reader) (level : Nat) : ∀ field : Shown,
    r.after (field.lines level) = { r with fields := field :: r.fields }
  | declarator d => rfl
  | aggregate isUnion name fields => by
    have hopened : r.after (lines level (aggregate isUnion name fields)) =
        ((Reader.mk [] ((isUnion, r.fields) :: r.outer)).after (linesOf (level + 1) fields)).after
          [(level, .closing name)] := by
      rw [lines, after_append]
      rfl
    rw [hopened, after_linesOf _ (level + 1) fields, List.append_nil]
    simp [after, step]

theorem after_linesOf (r : Reader) (level : Nat) : ∀ fields : List Shown,
    r.after (linesOf level fields) = { r with fields := fields.reverse ++ r.fields }
  | [] => rfl
  | field :: fields => by
    rw [linesOf, after_append, after_lines r level field, after_linesOf _ level fields]
    simp

end

end Reader

/-- **The lines of some fields determine them**, and the levels need not be looked at. -/
theorem linesOf_injective {level level' : Nat} {fields fields' : List Shown}
    (h : (linesOf level fields).map (·.2) = (linesOf level' fields').map (·.2)) :
    fields = fields' := by
  have hread : ∀ ls : List (Nat × BlockLine),
      Reader.after {} ls = (ls.map (·.2)).foldl Reader.step {} := fun ls => by
    rw [Reader.after, List.foldl_map]
  have hfields := congrArg Reader.fields ((hread _).trans ((congrArg _ h).trans (hread _).symm))
  rw [Reader.after_linesOf, Reader.after_linesOf] at hfields
  simpa using hfields

end Shown

end ComHeaders
