import ComHeaders.Proofs.Sections
import ComHeaders.Proofs.Structs.Reading

/-!
# The blocks of structs

The block of a struct says how its fields lie in memory.  A field that is left out, that stands on
the wrong level or in the wrong place is no error: it gives another layout.  This file proves that
the block shows every field, and that nothing but its fields could have given it.

## 1.  What is shown

`StructDecl.shown` is the struct as its block shows it: types by the names that the rules give
them, backing fields replaced by their groups, and nothing of what is not printed.

## 2.  What is printed

`laidOut_blockLines` follows the nesting of the fields.  Lines come out, or an indentation is wider
than a text can be, or than there is room for.

## 3.  Blocks

`structs_legible` is the result.
-/

namespace ComHeaders

/-! ## 1.  What is shown -/

/-- The name that the rules give to a reference, if they give one. -/
def Naming.called (n : Naming) (r : TypeRef) : String :=
  match n.plainName r with
  | .ok v => v.text
  | .error _ => ""

theorem Naming.Calls.called_eq {n : Naming} {r : TypeRef} {name : String} (h : n.Calls r name) :
    n.called r = name := by
  rw [called, show n.plainName r = .ok (.str name) from h]
  rfl

namespace FieldDecl

mutual

/-- What a field shows, types being called by the names of `called`.  A backing field shows its
groups. -/
def shown (called : TypeRef → String) : FieldDecl → List Shown
  | plain name type groups =>
    if groups.isEmpty then [.declarator ⟨called type, name, .single⟩]
    else groups.map fun g => .declarator ⟨called type, g.name, .group g.length⟩
  | array name element length => [.declarator ⟨called element, name, .array length⟩]
  | aggregate name _ head fields => [.aggregate head.isUnion name (shownOf called fields)]

/-- What some fields show. -/
def shownOf (called : TypeRef → String) : List FieldDecl → List Shown
  | [] => []
  | field :: fields => field.shown called ++ shownOf called fields

end

mutual

/-- The names of a field, of its groups and of the fields inside. -/
def names : FieldDecl → List String
  | plain name _ groups => name :: groups.map (·.name)
  | array name _ _ => [name]
  | aggregate name _ _ fields => name :: namesOf fields

/-- The names of some fields. -/
def namesOf : List FieldDecl → List String
  | [] => []
  | field :: fields => field.names ++ namesOf fields

end

mutual

/-- How many aggregates are around the innermost fields of a field. -/
def depth : FieldDecl → Nat
  | aggregate _ _ _ fields => depthOf fields + 1
  | _ => 0

/-- The depth of the deepest of some fields. -/
def depthOf : List FieldDecl → Nat
  | [] => 0
  | field :: fields => max field.depth (depthOf fields)

end

end FieldDecl

namespace StructDecl

/-- What a struct shows. -/
def shown (n : Naming) (d : StructDecl) : Shown :=
  .aggregate d.head.isUnion d.name (FieldDecl.shownOf n.called d.fields)

/-- All names in a struct are identifiers, those of its types among them. -/
structure HasIdentifiers (d : StructDecl) : Prop where
  name : IsIdentifier d.name
  fields : ∀ name ∈ FieldDecl.namesOf d.fields, IsIdentifier name
  types : ∀ q, FieldDecl.Mentions d.fields q → q.HasIdentifiers

end StructDecl

namespace Shown

theorem linesOf_append (level : Nat) (fields more : List Shown) :
    linesOf level (fields ++ more) = linesOf level fields ++ linesOf level more := by
  induction fields with
  | nil => rfl
  | cons field fields ih => rw [List.cons_append, linesOf, linesOf, ih, List.append_assoc]

/-- The names on the lines can be read. -/
def IsLegible (fields : List Shown) : Prop :=
  ∀ level, ∀ e ∈ linesOf level fields, e.2.IsLegible

theorem isLegible_append {fields more : List Shown} (h : IsLegible fields) (h' : IsLegible more) :
    IsLegible (fields ++ more) := by
  intro level e he
  rw [linesOf_append, List.mem_append] at he
  exact he.elim (h level e) (h' level e)

theorem isLegible_declarators (ds : List Declarator)
    (h : ∀ d ∈ ds, IsTypeName d.type ∧ IsIdentifier d.name) :
    IsLegible (ds.map .declarator) := by
  intro level e he
  induction ds with
  | nil => cases he
  | cons d ds ih =>
    obtain ⟨hd, hds⟩ := List.forall_mem_cons.1 h
    rcases List.mem_cons.1 he with rfl | he
    · exact hd
    · exact ih hds he

theorem isLegible_aggregate {isUnion : Bool} {name : String} {fields : List Shown}
    (hname : IsIdentifier name) (h : IsLegible fields) :
    IsLegible [.aggregate isUnion name fields] := by
  intro level e he
  rw [linesOf, linesOf, lines, List.append_nil, List.cons_append, List.mem_cons, List.mem_append,
    List.mem_singleton] at he
  rcases he with rfl | he | rfl
  · trivial
  · exact h _ e he
  · exact hname

end Shown

namespace FieldDecl

variable {called : TypeRef → String}

mutual

theorem isLegible_shown : ∀ field : FieldDecl, (∀ name ∈ field.names, IsIdentifier name) →
    (∀ q, Mentions [field] q → IsTypeName (called q)) → Shown.IsLegible (field.shown called)
  | plain name type groups, hnames, htypes => by
    rw [names, List.forall_mem_cons, List.forall_mem_map] at hnames
    have htype : IsTypeName (called type) := htypes type (mentions_plain.2 rfl)
    rw [shown]
    split
    · exact Shown.isLegible_declarators [_] (by simpa using ⟨htype, hnames.1⟩)
    · rw [← Function.comp_def Shown.declarator fun g : BitGroup =>
        ⟨called type, g.name, .group g.length⟩, ← List.map_map]
      refine Shown.isLegible_declarators _ (List.forall_mem_map.2 fun g hg => ?_)
      exact ⟨htype, hnames.2 g hg⟩
  | array name element length, hnames, htypes => by
    rw [names, List.forall_mem_singleton] at hnames
    exact Shown.isLegible_declarators [⟨called element, name, .array length⟩]
      (by simpa using ⟨htypes element (mentions_array.2 rfl), hnames⟩)
  | aggregate name type head fields, hnames, htypes => by
    rw [names, List.forall_mem_cons] at hnames
    exact Shown.isLegible_aggregate hnames.1 (isLegible_shownOf fields hnames.2 fun q hq =>
      htypes q (mentions_aggregate.2 hq))

/-- What fields with identifiers show can be read. -/
theorem isLegible_shownOf : ∀ fields : List FieldDecl,
    (∀ name ∈ namesOf fields, IsIdentifier name) →
    (∀ q, Mentions fields q → IsTypeName (called q)) → Shown.IsLegible (shownOf called fields)
  | [], _, _ => fun _ _ he => by cases he
  | field :: fields, hnames, htypes => by
    rw [namesOf, List.forall_mem_append] at hnames
    rw [forall_mentions_cons] at htypes
    exact Shown.isLegible_append (isLegible_shown field hnames.1 htypes.1)
      (isLegible_shownOf fields hnames.2 htypes.2)

end

end FieldDecl

/-! ## 2.  What is printed -/

namespace Naming

variable {n : Naming} {s : Session} {r : TypeRef} {name : String}

theorem nameText_called (hs : n.Sound s) (hr : r.HasIdentifiers) (h : n.Calls r name) :
    ∃ s', (n.nameText r).perform s = (.ok name, s') ∧ n.Sound s' := by
  obtain ⟨hsound, hname⟩ := namesBy_name n r s hs
  rcases hperform : (n.name r).perform s with ⟨result, s'⟩
  rw [hperform] at hsound hname
  obtain rfl : result = .ok (.str name) := (hname hr.isTextual).trans h
  exact ⟨s', Pass.perform_bind_ok.2 ⟨_, s', hperform, rfl⟩, hsound⟩

/-- Sound memories concur, and a reference that gets a name has one. -/
theorem concur_sound (n : Naming) :
    Concur (fun s t => n.Sound s ∧ n.Sound t) TypeRef.HasIdentifiers
      (fun r => ∃ name, n.Calls r name) n n where
  name {r} hr s t := fun ⟨hs, ht⟩ => by
    obtain ⟨hsound, hname⟩ := namesBy_name n r s hs
    obtain ⟨hsound', hname'⟩ := namesBy_name n r t ht
    refine ⟨(hname hr.isTextual).trans (hname' hr.isTextual).symm, ⟨hsound, hsound'⟩, ?_⟩
    intro v hv
    obtain ⟨name, rfl, -⟩ := isTypeName_of_plainName hr ((hname hr.isTextual).symm.trans hv)
    exact ⟨name, (hname hr.isTextual).symm.trans hv⟩
  isEnum _ := rfl

instance (n : Naming) : Session.Quiet fun s t => n.Sound s ∧ n.Sound t where
  journals h _ _ := h

end Naming

namespace Section

variable {n : Naming} {s : Session} {k room level : Nat}

theorem toString_text (text : String) : toString text = text :=
  rfl

theorem blanks_natCast (room width : Nat) :
    blanks room width = filling room .outOfRange width (spaces width) := by
  rw [blanks, if_neg (by omega), Int.toNat_natCast]
  rfl

theorem blanks_outcome (room width : Nat) :
    (blanks room width = .ok (spaces width) ∧ HasRoom room width) ∨
    ∃ e, blanks room width = .error e ∧ e.IsTooWide room .outOfRange width := by
  rw [blanks_natCast]
  rcases h : filling room .outOfRange width (spaces width) with e | text
  · exact .inr ⟨e, rfl, isTooWide_of_filling h⟩
  · obtain ⟨hroom, rfl⟩ := filling_eq_ok_iff.1 h
    exact .inl ⟨rfl, hroom⟩

/-- A line at a level is printed behind so many indentations, its type in some column. -/
def Prints (k : Nat) (e : Nat × BlockLine) (text : String) : Prop :=
  ∃ column, text = spaces (k * e.1) ++ e.2.text column

/-- Lines that are given come out, or else the deepest indentation is too wide. -/
inductive LaidOut (n : Naming) (k room : Nat) (described : List (Nat × BlockLine)) (deepest : Nat)
    (x : Pass (List String)) (s : Session) : Prop where
  | lines {texts : List String} {s' : Session} (hperform : x.perform s = (.ok texts, s'))
      (hs : n.Sound s') (hroom : HasRoom room (k * deepest : Nat))
      (hprints : List.Forall₂ (Prints k) described texts)
  | tooWide {e : Failure} {s' : Session} (hperform : x.perform s = (.error e, s'))
      (hwide : e.IsTooWide room .outOfRange (k * deepest : Nat))

/-- All types that are mentioned have names, made of identifiers. -/
def Named (n : Naming) (fields : List FieldDecl) : Prop :=
  ∀ q, FieldDecl.Mentions fields q → q.HasIdentifiers ∧ ∃ name, n.Calls q name

theorem named_cons {field : FieldDecl} {fields : List FieldDecl} :
    Named n (field :: fields) ↔ Named n [field] ∧ Named n fields :=
  FieldDecl.forall_mentions_cons

/-- The widths of the types are found. -/
theorem typeNames_called {fields : List FieldDecl} (hs : n.Sound s) (h : Named n fields) :
    ∃ names s', (typeNames n fields).perform s = (.ok names, s') ∧ n.Sound s' := by
  induction fields generalizing s with
  | nil => exact ⟨[], s, rfl, hs⟩
  | cons field fields ih =>
    obtain ⟨hfield, hfields⟩ := named_cons.1 h
    have hfirst : ∀ q, FieldDecl.Mentions [field] q →
        ∃ names s', (do
          let name ← n.nameText q
          return name :: (← typeNames n fields)).perform s = (.ok names, s') ∧ n.Sound s' := by
      intro q hq
      obtain ⟨hidentifiers, name, hcalls⟩ := hfield q hq
      obtain ⟨t, hname, ht⟩ := Naming.nameText_called hs hidentifiers hcalls
      obtain ⟨names, s', hnames, hs'⟩ := ih ht hfields
      exact ⟨name :: names, s', Pass.perform_bind_ok.2 ⟨name, t, hname,
        Pass.perform_bind_ok.2 ⟨names, s', hnames, rfl⟩⟩, hs'⟩
    cases field with
    | plain _ type _ => exact hfirst type (FieldDecl.mentions_plain.2 rfl)
    | array _ element _ => exact hfirst element (FieldDecl.mentions_array.2 rfl)
    | aggregate _ _ _ _ => exact ih hs hfields

namespace LaidOut

variable {described more : List (Nat × BlockLine)} {deepest deepest' : Nat}
  {x y : Pass (List String)}

theorem of_nameText {r : TypeRef} {name : String} (hs : n.Sound s) (hr : r.HasIdentifiers)
    (hcalls : n.Calls r name) (hlevel : HasRoom room (k * level : Nat)) (texts : String → List String)
    (hprints : List.Forall₂ (Prints k) described (texts name)) :
    LaidOut n k room described level (do return texts (← n.nameText r)) s := by
  obtain ⟨s', hname, hs'⟩ := Naming.nameText_called hs hr hcalls
  exact .lines (Pass.perform_bind_ok.2 ⟨name, s', hname, rfl⟩) hs' hlevel hprints

theorem after {α : Type} {x : Pass α} {f : α → Pass (List String)} {a : α} {t : Session}
    (hx : x.perform s = (.ok a, t)) (h : LaidOut n k room described deepest (f a) t) :
    LaidOut n k room described deepest (x >>= f) s := by
  rcases h with ⟨hf, hs', hroom, hprints⟩ | @⟨e, u, hf, hwide⟩
  · exact .lines (Pass.perform_bind_ok.2 ⟨a, t, hx, hf⟩) hs' hroom hprints
  · refine .tooWide (show _ = (Except.error e, u) from ?_) hwide
    simp only [Pass.perform_bind, hx, hf]

/-- Lines in front of others. -/
theorem append (h : LaidOut n k room described deepest x s)
    (h' : ∀ {t : Session}, n.Sound t → LaidOut n k room more deepest' y t) :
    LaidOut n k room (described ++ more) (max deepest deepest')
      (do let texts ← x; return texts ++ (← y)) s := by
  have hleft : ((k * deepest : Nat) : Int) ≤ (k * max deepest deepest' : Nat) :=
    Int.ofNat_le.2 (Nat.mul_le_mul_left k (Nat.le_max_left _ _))
  have hright : ((k * deepest' : Nat) : Int) ≤ (k * max deepest deepest' : Nat) :=
    Int.ofNat_le.2 (Nat.mul_le_mul_left k (Nat.le_max_right _ _))
  rcases h with ⟨hx, ht, hroom, hprints⟩ | @⟨e, t, hx, hwide⟩
  · rcases h' ht with ⟨hy, hs', hroom', hprints'⟩ | @⟨e, t, hy, hwide⟩
    · have hmax : HasRoom room (k * max deepest deepest' : Nat) := by
        rcases Nat.le_total deepest deepest' with hle | hle
        · rw [Nat.max_eq_right hle]
          exact hroom'
        · rw [Nat.max_eq_left hle]
          exact hroom
      exact .lines (Pass.perform_bind_ok.2 ⟨_, _, hx, Pass.perform_bind_ok.2 ⟨_, _, hy, rfl⟩⟩) hs'
        hmax (List.rel_append hprints hprints')
    · refine .tooWide (show _ = (Except.error e, t) from ?_) (hwide.mono hright)
      simp only [Pass.perform_bind, hx, hy]
  · refine .tooWide (show _ = (Except.error e, t) from ?_) (hwide.mono hleft)
    simp only [Pass.perform_bind, hx]

theorem prints_groups {groups : List BitGroup} {shown : BitGroup → Declarator}
    {text : BitGroup → String} (h : ∀ g, Prints k (level, .declarator (shown g)) (text g)) :
    List.Forall₂ (Prints k) (Shown.linesOf level (groups.map fun g => .declarator (shown g)))
      (groups.map text) := by
  induction groups with
  | nil => exact .nil
  | cons g groups ih => exact .cons (h g) ih

/-- Lines with one in front of them and one behind them. -/
theorem enclose {first last : Nat × BlockLine} {opening closing : String}
    (h : LaidOut n k room described deepest x s) (hopening : Prints k first opening)
    (hclosing : Prints k last closing) :
    LaidOut n k room (first :: described ++ [last]) deepest
      (do let texts ← x; return opening :: texts ++ [closing]) s := by
  rcases h with ⟨hx, ht, hroom, hprints⟩ | @⟨e, t, hx, hwide⟩
  · exact .lines (Pass.perform_bind_ok.2 ⟨_, _, hx, rfl⟩) ht hroom
      (List.rel_append (.cons hopening hprints) (.cons hclosing .nil))
  · refine .tooWide (show _ = (Except.error e, t) from ?_) hwide
    simp only [Pass.perform_bind, hx]

end LaidOut

/-- The lines of a block are its rows, their types in one column. -/
theorem laidOut_blockLines_of_rowLines {fields : List FieldDecl}
    {described : List (Nat × BlockLine)} {deepest : Nat} (hs : n.Sound s) (h : Named n fields)
    (hrows : HasRoom room (k * level : Nat) → ∀ (width : Nat) (t : Session), n.Sound t →
      LaidOut n k room described (level + deepest)
        (rowLines n ⟨k, room⟩ level (spaces (k * level)) width fields) t) :
    LaidOut n k room described (level + deepest) (blockLines n ⟨k, room⟩ level fields) s := by
  rw [blockLines, ← Int.natCast_mul]
  rcases blanks_outcome room (k * level) with ⟨hblanks, hlevel⟩ | ⟨e, hblanks, hwide⟩
  · obtain ⟨names, t, hnames, ht⟩ := typeNames_called hs h
    rw [hblanks]
    exact .after rfl (.after hnames (hrows hlevel (longest names) t ht))
  · rw [hblanks]
    exact .tooWide rfl (hwide.mono (Int.ofNat_le.2 (Nat.mul_le_mul_left k (Nat.le_add_right _ _))))

mutual

theorem laidOut_fieldLines (level : Nat) (hlevel : HasRoom room (k * level : Nat)) (width : Nat) :
    ∀ (field : FieldDecl) {s : Session}, n.Sound s → Named n [field] →
      LaidOut n k room (Shown.linesOf level (field.shown n.called)) (level + field.depth)
        (fieldLines n ⟨k, room⟩ level (spaces (k * level)) width field) s
  | .plain name type groups, s, hs, h => by
    obtain ⟨hidentifiers, called, hcalls⟩ := h type (FieldDecl.mentions_plain.2 rfl)
    rw [fieldLines, FieldDecl.shown, hcalls.called_eq]
    refine LaidOut.of_nameText hs hidentifiers hcalls hlevel _ ?_
    rw [declaratorLines]
    split
    · refine .cons ⟨width, ?_⟩ .nil
      simp only [BlockLine.text, Shape.text, toString_text, String.append_assoc]
    · rw [List.map_map]
      refine LaidOut.prints_groups fun g => ⟨width, ?_⟩
      simp only [Function.comp_apply, BlockLine.text, Shape.text, toString_text,
        String.append_assoc]
  | .array name element length, s, hs, h => by
    obtain ⟨hidentifiers, called, hcalls⟩ := h element (FieldDecl.mentions_array.2 rfl)
    rw [fieldLines, FieldDecl.shown, hcalls.called_eq]
    refine LaidOut.of_nameText hs hidentifiers hcalls hlevel _ (.cons ⟨width, ?_⟩ .nil)
    simp only [BlockLine.text, Shape.text, toString_text, String.append_assoc]
  | .aggregate name type head fields, s, hs, h => by
    rw [fieldLines, FieldDecl.shown, FieldDecl.depth]
    have hfields : Named n fields := fun q hq => h q (FieldDecl.mentions_aggregate.2 hq)
    have hinner := laidOut_blockLines_of_rowLines hs hfields fun hinner width _ ht =>
      laidOut_rowLines (level + 1) hinner width fields ht hfields
    have hdeepest : level + (FieldDecl.depthOf fields + 1) =
        level + 1 + FieldDecl.depthOf fields := by
      omega
    rw [Shown.linesOf, Shown.linesOf, List.append_nil, Shown.lines, hdeepest]
    refine hinner.enclose ⟨0, ?_⟩ ⟨0, ?_⟩
    · rw [BlockLine.text, String.append_assoc]
      rfl
    · simp only [BlockLine.text, String.append_assoc]

theorem laidOut_rowLines (level : Nat) (hlevel : HasRoom room (k * level : Nat)) (width : Nat) :
    ∀ (fields : List FieldDecl) {s : Session}, n.Sound s → Named n fields →
      LaidOut n k room (Shown.linesOf level (FieldDecl.shownOf n.called fields))
        (level + FieldDecl.depthOf fields)
        (rowLines n ⟨k, room⟩ level (spaces (k * level)) width fields) s
  | [], s, hs, _ => by
    rw [rowLines]
    exact .lines rfl hs hlevel .nil
  | field :: fields, s, hs, h => by
    rw [rowLines]
    obtain ⟨hfield, hfields⟩ := named_cons.1 h
    have hboth := (laidOut_fieldLines level hlevel width field hs hfield).append fun ht =>
      laidOut_rowLines level hlevel width fields ht hfields
    rw [← Shown.linesOf_append, Nat.add_max_add_left] at hboth
    exact hboth

end

/-- **The lines of the fields of an aggregate.** -/
theorem laidOut_blockLines (level : Nat) (fields : List FieldDecl) {s : Session} (hs : n.Sound s)
    (h : Named n fields) :
    LaidOut n k room (Shown.linesOf level (FieldDecl.shownOf n.called fields))
      (level + FieldDecl.depthOf fields) (blockLines n ⟨k, room⟩ level fields) s :=
  laidOut_blockLines_of_rowLines hs h fun hlevel width _ hs =>
    laidOut_rowLines level hlevel width fields hs h

/-! ## 3.  Blocks -/

/-- The block of a struct that shows some fields: behind an empty line its head, the lines of the
fields from the first level on, and its name once more. -/
def IsBlock (k : Nat) : Shown → List String → Prop
  | .aggregate isUnion name fields, block => ∃ inner,
    block = ["", "typedef " ++ BlockLine.keyword isUnion ++ " " ++ name ++ " \x7b"] ++ inner ++
      ["\x7d " ++ name ++ ";"] ∧
    List.Forall₂ (Prints k) (Shown.linesOf 1 fields) inner
  | .declarator _, _ => False

variable {d : StructDecl} {block : List String} {s' : Session}

/-- Whether a struct is printed depends on the depth of its fields, if their types have names. -/
theorem structLines_outcome (k room : Nat) (hs : n.Sound s) (h : Named n d.fields) :
    (∃ block s', (structLines n ⟨k, room⟩ d).perform s = (.ok block, s') ∧ n.Sound s' ∧
      HasRoom room (k * (1 + FieldDecl.depthOf d.fields) : Nat) ∧ IsBlock k (d.shown n) block) ∨
    ∃ e s', (structLines n ⟨k, room⟩ d).perform s = (.error e, s') ∧
      e.IsTooWide room .outOfRange (k * (1 + FieldDecl.depthOf d.fields) : Nat) := by
  have hlaid : LaidOut n k room _ _ (blockLines n ⟨k, room⟩ 1 d.fields) s :=
    laidOut_blockLines 1 d.fields hs h
  rcases hlaid with ⟨hinner, hs', hroom, hprints⟩ | @⟨e, t, hinner, hwide⟩
  · refine .inl ⟨_, _, Pass.perform_bind_ok.2 ⟨_, _, hinner, rfl⟩, hs', hroom, _, ?_, hprints⟩
    simp only [toString_text, String.append_assoc]
    rfl
  · refine .inr ⟨e, t, ?_, hwide⟩
    simp only [structLines, Pass.perform_bind, hinner]

theorem named_of_printed {i : Indentation} (hs : n.Sound s) (hd : d.HasIdentifiers)
    (h : (structLines n i d).perform s = (.ok block, s')) : Named n d.fields := by
  obtain ⟨inner, t, hinner, -⟩ := Pass.perform_bind_ok.1 h
  obtain ⟨-, -, hnamed⟩ := agree_blockLines n.concur_sound i 1 d.fields hd.types s s ⟨hs, hs⟩
  intro q hq
  exact ⟨hd.types q hq, hnamed inner (congrArg Prod.fst hinner) q hq⟩

/-- A block that is printed is a block of what the struct shows. -/
theorem isBlock_of_printed (hs : n.Sound s) (hd : d.HasIdentifiers)
    (h : (structLines n ⟨k, room⟩ d).perform s = (.ok block, s')) :
    IsBlock k (d.shown n) block ∧ n.Sound s' := by
  rcases structLines_outcome k room hs (named_of_printed hs hd h) with
    ⟨block', t, h', ht, -, hblock⟩ | ⟨e, t, h', -⟩
  · rw [h, Prod.mk.injEq, Except.ok.injEq] at h'
    obtain ⟨rfl, rfl⟩ := h'
    exact ⟨hblock, ht⟩
  · rw [h] at h'
    cases h'

theorem isLegible_struct (hd : d.HasIdentifiers) (h : Named n d.fields) :
    Shown.IsLegible [d.shown n] := by
  refine Shown.isLegible_aggregate hd.name (FieldDecl.isLegible_shownOf _ hd.fields fun q hq => ?_)
  obtain ⟨hidentifiers, name, hcalls⟩ := h q hq
  rw [hcalls.called_eq]
  exact hcalls.isTypeName hidentifiers

/-- Printed lines determine what stands on them. -/
theorem lines_eq_of_prints {k k' : Nat} {ls ls' : List (Nat × BlockLine)} {texts : List String}
    (h : List.Forall₂ (Prints k) ls texts) (h' : List.Forall₂ (Prints k') ls' texts)
    (hls : ∀ e ∈ ls, e.2.IsLegible) (hls' : ∀ e ∈ ls', e.2.IsLegible) :
    ls.map (·.2) = ls'.map (·.2) := by
  induction h generalizing ls' with
  | nil =>
    cases h'
    rfl
  | @cons e text ls texts he _ ih =>
    cases h' with
    | @cons e' _ ls' _ he' htail' =>
      obtain ⟨hlegible, hls⟩ := List.forall_mem_cons.1 hls
      obtain ⟨hlegible', hls'⟩ := List.forall_mem_cons.1 hls'
      obtain ⟨column, rfl⟩ := he
      obtain ⟨column', htext⟩ := he'
      have hread := BlockLine.read_words hlegible (k * e.1) column
      rw [htext, BlockLine.read_words hlegible' (k' * e'.1) column', Option.some.injEq] at hread
      rw [List.map_cons, List.map_cons, hread, ih htail' hls hls']

/-- The words of the head of a block. -/
theorem words_head (isUnion : Bool) {name : String} (hname : IsIdentifier name) :
    words ("typedef " ++ BlockLine.keyword isUnion ++ " " ++ name ++ " \x7b") =
      ["typedef", BlockLine.keyword isUnion, name, "\x7b"] := by
  have htypedef : IsSolid "typedef" := ⟨by decide, by decide⟩
  have hkeyword : IsSolid (BlockLine.keyword isUnion) := by
    cases isUnion <;> exact ⟨by decide, by decide⟩
  have hmark : IsSolid "\x7b" := ⟨by decide, by decide⟩
  rw [show " \x7b" = " " ++ "\x7b" from rfl, words_append_blank', hmark.words_eq,
    words_append_blank, hname.isSolid.words_eq, show "typedef " = "typedef" ++ " " from rfl, words_append_blank,
    htypedef.words_eq, hkeyword.words_eq]
  rfl

theorem isLegible_parts {isUnion : Bool} {name : String} {fields : List Shown}
    (h : Shown.IsLegible [.aggregate isUnion name fields]) :
    IsIdentifier name ∧ ∀ e ∈ Shown.linesOf 1 fields, e.2.IsLegible := by
  have hall := h 0
  rw [Shown.linesOf, Shown.linesOf, Shown.lines, List.append_nil, List.forall_mem_append,
    List.forall_mem_cons, List.forall_mem_singleton] at hall
  exact ⟨hall.2, hall.1.2⟩

/-- **A block determines what it shows.** -/
theorem IsBlock.shown_eq {k k' : Nat} {x y : Shown} (h : IsBlock k x block)
    (h' : IsBlock k' y block) (hx : Shown.IsLegible [x]) (hy : Shown.IsLegible [y]) : x = y := by
  rcases x with _ | ⟨isUnion, name, fields⟩
  · cases h
  rcases y with _ | ⟨isUnion', name', fields'⟩
  · cases h'
  obtain ⟨hname, hlines⟩ := isLegible_parts hx
  obtain ⟨hname', hlines'⟩ := isLegible_parts hy
  obtain ⟨inner, rfl, hinner⟩ := h
  obtain ⟨inner', heq, hinner'⟩ := h'
  obtain ⟨hfront, -⟩ := List.append_inj' heq rfl
  obtain ⟨hhead, rfl⟩ := List.append_inj hfront rfl
  have hwords := congrArg words (List.cons.inj (List.cons.inj hhead).2).1
  rw [words_head _ hname, words_head _ hname'] at hwords
  simp only [List.cons.injEq, true_and, and_true] at hwords
  obtain ⟨hkeyword, rfl⟩ := hwords
  have hunion : isUnion = isUnion' := by
    revert hkeyword
    cases isUnion <;> cases isUnion' <;> decide
  rw [hunion, Shown.linesOf_injective (lines_eq_of_prints hinner hinner' hlines hlines')]

end Section

/-- A struct that is printed, and the time at which it is. -/
structure BlockSite where
  naming : Naming
  /-- What was asked before. -/
  queries : List Naming.Query
  indentation : Section.Indentation
  struct : StructDecl

namespace BlockSite

/-- The block of the struct. -/
def Prints (x : BlockSite) (block : List String) : Prop :=
  ∃ s, (Section.structLines x.naming x.indentation x.struct).perform (x.naming.behind x.queries) =
    (.ok block, s)

/-- All names are identifiers, and the indentation is not negative. -/
structure IsProper (x : BlockSite) : Prop where
  struct : x.struct.HasIdentifiers
  indentation : 0 ≤ x.indentation.width

variable {x y : BlockSite} {block : List String}

theorem Prints.isBlock (hx : x.IsProper) (h : x.Prints block) :
    Section.IsBlock x.indentation.width.toNat (x.struct.shown x.naming) block ∧
      Shown.IsLegible [x.struct.shown x.naming] := by
  obtain ⟨s, h⟩ := h
  have hs := x.naming.sound_behind x.queries
  have hnamed := Section.named_of_printed hs hx.struct h
  rw [show x.indentation = ⟨(x.indentation.width.toNat : Int), x.indentation.room⟩ by
    rw [Int.toNat_of_nonneg hx.indentation]] at h
  exact ⟨(Section.isBlock_of_printed hs hx.struct h).1, Section.isLegible_struct hx.struct hnamed⟩

/-- Whether there is a block depends on the types and on the deepest indentation. -/
theorem exists_prints_iff (hx : x.IsProper) : (∃ block, x.Prints block) ↔
    (∀ q, FieldDecl.Mentions x.struct.fields q → ∃ name, x.naming.Calls q name) ∧
      HasRoom x.indentation.room
        (x.indentation.width * (1 + FieldDecl.depthOf x.struct.fields : Nat)) := by
  obtain ⟨k, hk⟩ := Int.eq_ofNat_of_zero_le hx.indentation
  have hs := x.naming.sound_behind x.queries
  have hindentation : x.indentation = ⟨k, x.indentation.room⟩ := by rw [← hk]
  rw [hk, ← Int.natCast_mul]
  constructor
  · rintro ⟨block, s, h⟩
    have hnamed := Section.named_of_printed hs hx.struct h
    refine ⟨fun q hq => (hnamed q hq).2, ?_⟩
    rw [hindentation] at h
    rcases Section.structLines_outcome k _ hs hnamed with ⟨-, -, -, -, hroom, -⟩ | ⟨e, t, h', -⟩
    · exact hroom
    · rw [h] at h'
      cases h'
  · rintro ⟨hcalled, hroom⟩
    have hnamed : Section.Named x.naming x.struct.fields :=
      fun q hq => ⟨hx.struct.types q hq, hcalled q hq⟩
    rcases Section.structLines_outcome k _ hs hnamed with ⟨block, s, h, -, -, -⟩ | ⟨e, -, -, hwide⟩
    · exact ⟨block, s, hindentation ▸ h⟩
    · exact absurd hroom hwide.not_hasRoom

end BlockSite

namespace Section

/-- The section of structs consists of the blocks of the structs of the table, in some order. -/
theorem isBlock_of_structs {n : Naming} {settings : Settings} {ds : Declarations} {s s' : Session}
    {lines : List String} (hs : n.Sound s) (hindent : 0 ≤ settings.indentWidth)
    (hd : ∀ d ∈ ds.structs.values, d.HasIdentifiers)
    (h : (structs n settings ds).perform s = (.ok lines, s')) :
    ∃ ordered blocks, ordered.Perm ds.structs.values ∧ lines = ["", "// structs"] ++ blocks.flatten ∧
      List.Forall₂ (fun d block => IsBlock settings.indentWidth.toNat (d.shown n) block) ordered
        blocks := by
  rw [structs] at h
  obtain ⟨ordered, t, hresolve, h₁⟩ := Pass.perform_bind_ok.1 h
  obtain ⟨blocks, u, hblocks, h₂⟩ := Pass.perform_bind_ok.1 h₁
  rw [Pass.perform_pure, Prod.mk.injEq, Except.ok.injEq] at h₂
  obtain ⟨rfl, rfl⟩ := h₂
  have hagree : Pass.Agree (fun s t => n.Sound s ∧ n.Sound t) (StructOrder.resolve ds.structs)
      (StructOrder.resolve ds.structs) fun l => (StructOrder.order ds.structs).1 = .ok l :=
    StructOrder.agree_resolve ds.structs
  obtain ⟨-, ⟨ht, -⟩, horder⟩ := hagree s s ⟨hs, hs⟩
  rw [hresolve] at ht horder
  have hperm := StructOrder.order_perm (horder ordered rfl)
  refine ⟨ordered, blocks, hperm, rfl, (Pass.forall₂_of_mapM (I := n.Sound) ?_ ht hblocks).1⟩
  intro d hd' v block v' hv hblock
  rw [show indentation settings = ⟨(settings.indentWidth.toNat : Int), settings.room⟩ by
    rw [Int.toNat_of_nonneg hindent, indentation]] at hblock
  exact isBlock_of_printed hv (hd d (hperm.mem_iff.1 hd')) hblock

/-- **A block determines its struct.**  Take a struct whose names are identifiers, an indentation
that is not negative, and whatever was asked before.  The struct has a block if all its types have
names and the deepest indentation is no wider than a text can be and than there is room for; and its
lines are those of what it shows, each behind as many indentations as its level.  Structs with the
same block show the same.  The section of structs consists of the blocks of all structs. -/
theorem structs_legible :
    (∀ x : BlockSite, x.IsProper →
      ((∃ block, x.Prints block) ↔
        (∀ q, FieldDecl.Mentions x.struct.fields q → ∃ name, x.naming.Calls q name) ∧
          HasRoom x.indentation.room
            (x.indentation.width * (1 + FieldDecl.depthOf x.struct.fields : Nat)))) ∧
    (∀ (x : BlockSite) (block : List String), x.IsProper → x.Prints block →
      IsBlock x.indentation.width.toNat (x.struct.shown x.naming) block) ∧
    (∀ (x y : BlockSite) (block : List String), x.IsProper → y.IsProper → x.Prints block →
      y.Prints block → x.struct.shown x.naming = y.struct.shown y.naming) ∧
    (∀ (n : Naming) (queries : List Naming.Query) (settings : Settings) (ds : Declarations)
      (lines : List String) (s : Session), 0 ≤ settings.indentWidth →
      (∀ d ∈ ds.structs.values, d.HasIdentifiers) →
      (structs n settings ds).perform (n.behind queries) = (.ok lines, s) →
      ∃ ordered blocks, ordered.Perm ds.structs.values ∧
        lines = ["", "// structs"] ++ blocks.flatten ∧
        List.Forall₂ (fun d block => IsBlock settings.indentWidth.toNat (d.shown n) block) ordered
          blocks) := by
  refine ⟨fun x hx => BlockSite.exists_prints_iff hx, fun x block hx h => (h.isBlock hx).1,
    fun x y block hx hy h h' => ?_, fun n queries settings ds lines s hindent hd h =>
      isBlock_of_structs (n.sound_behind queries) hindent hd h⟩
  obtain ⟨hblock, hlegible⟩ := h.isBlock hx
  obtain ⟨hblock', hlegible'⟩ := h'.isBlock hy
  exact hblock.shown_eq hblock' hlegible hlegible'

/-- A packet has flags in the words of some fields, some bytes, and a number that can be read as
another one. -/
def packet (flags : List FieldDecl) : StructDecl where
  head := ⟨"PACKET", "Shapes.PACKET", false⟩
  fields := flags ++ [
    .array "Data" (.primitive (.str "Byte")) 8,
    .aggregate "Anonymous" (.named (.str "Shapes") (.str "_Anonymous_e__Union") .null true)
      ⟨"_Anonymous_e__Union", "Shapes._Anonymous_e__Union", true⟩ [
      .plain "Whole" (.primitive (.str "Int32")) [],
      .plain "Real" (.primitive (.str "Single")) []]]

/-- The two flags in one word. -/
def joinedFlags : List FieldDecl :=
  [.plain "_bitfield" (.primitive (.str "UInt32")) [⟨"Ready", 0, 1⟩, ⟨"Kind", 1, 7⟩]]

/-- The two flags in a word each. -/
def splitFlags : List FieldDecl :=
  [.plain "_bitfield1" (.primitive (.str "UInt32")) [⟨"Ready", 0, 1⟩],
    .plain "_bitfield2" (.primitive (.str "UInt32")) [⟨"Kind", 0, 7⟩]]

/-- The block of a packet. -/
def packetBlock : List String := [
  "", "typedef struct PACKET \x7b", "    UINT32 Ready : 1;", "    UINT32 Kind : 7;",
  "    UINT8  Data[8];", "    union \x7b", "        INT32 Whole;", "        FLOAT Real;",
  "    \x7d Anonymous;", "\x7d PACKET;"]

/-- Where a packet with such flags is printed. -/
def packetSite (flags : List FieldDecl) : BlockSite where
  naming := ⟨.ofList [], []⟩
  queries := []
  indentation := ⟨4, 80⟩
  struct := packet flags

theorem packetSite_isProper {flags : List FieldDecl}
    (hnames : ∀ name ∈ FieldDecl.namesOf (packet flags).fields, IsIdentifier name)
    (htypes : ∀ q, FieldDecl.Mentions (packet flags).fields q → q.HasIdentifiers) :
    (packetSite flags).IsProper where
  indentation := show (0 : Int) ≤ 4 by decide
  struct := {
    name := show IsIdentifier "PACKET" by decide
    fields := hnames
    types := htypes }

theorem packetSite_prints {flags : List FieldDecl}
    (h : ((structLines ⟨.ofList [], []⟩ ⟨4, 80⟩ (packet flags)).perform {}).1.toOption =
      some packetBlock) : (packetSite flags).Prints packetBlock :=
  ⟨_, Prod.ext (Result.eq_ok_of_toOption h) rfl⟩

theorem packet_legible :
    (packetSite joinedFlags).IsProper ∧ (packetSite splitFlags).IsProper ∧
      (packetSite joinedFlags).Prints packetBlock ∧ (packetSite splitFlags).Prints packetBlock ∧
      (packet joinedFlags).shown ⟨.ofList [], []⟩ = (packet splitFlags).shown ⟨.ofList [], []⟩ := by
  have hproper : (packetSite joinedFlags).IsProper := by
    refine packetSite_isProper (by decide) ?_
    simp [packet, joinedFlags, FieldDecl.forall_mentions_cons, TypeRef.HasIdentifiers]
  have hproper' : (packetSite splitFlags).IsProper := by
    refine packetSite_isProper (by decide) ?_
    simp [packet, splitFlags, FieldDecl.forall_mentions_cons, TypeRef.HasIdentifiers]
  have hprints : (packetSite joinedFlags).Prints packetBlock := by
    refine packetSite_prints ?_
    simp only [structLines, packet, joinedFlags, List.cons_append, List.nil_append, blockLines,
      rowLines, fieldLines]
    decide +kernel
  have hprints' : (packetSite splitFlags).Prints packetBlock := by
    refine packetSite_prints ?_
    simp only [structLines, packet, splitFlags, List.cons_append, List.nil_append, blockLines,
      rowLines, fieldLines]
    decide +kernel
  exact ⟨hproper, hproper', hprints, hprints', structs_legible.2.2.1 _ _ _ hproper hproper' hprints
    hprints'⟩

end Section

end ComHeaders
