import ComHeaders.Proofs.Literals.Integers
import ComHeaders.Proofs.Metadata.Malformed
import ComHeaders.Proofs.Texts
import ComHeaders.Sections

/-!
# What definitions of GUIDs denote

A GUID is the identity of an interface, and a header that defines another one compiles as well.  So
a definition has to write eleven numbers of 32, 16, 16 and eight times 8 bits that are those of the
metadata, and everything else has to be reported.  This file says when that is the case.

## 1.  Literals

A part that fits is written with exactly as many digits as its column has, and is read as itself;
one that does not is written with more digits or with a sign (`isHexLiteral_iff`).

## 2.  Definitions

`GuidOwner.define` goes from the attribute of a constant or an interface to its line.  It is the
same for both (`define_of_ok`, `define_of_error`), and `define_faithful_iff` is the result: with
eleven arguments two things go wrong, an infinity in front of all that is otherwise no integer, and
integers that do not fit.
-/

namespace ComHeaders

/-! ## 1.  Literals -/

/-- The text of a hexadecimal literal with exactly so many digits that are read as a value. -/
def IsHexLiteral (width : ℕ) (value : ℤ) (text : String) : Prop :=
  ∃ digits : List Char, text = "0x" ++ String.ofList digits ∧ digits.length = width ∧
    (readDigits 16 digits).map Int.ofNat = some value

/-- A value that has so many hexadecimal digits. -/
def Fits (width : ℕ) (value : ℤ) : Prop := 0 ≤ value ∧ value < 16 ^ width

instance (width : ℕ) (value : ℤ) : Decidable (Fits width value) :=
  inferInstanceAs (Decidable (_ ∧ _))

theorem hexInteger_of_nonneg (width n : ℕ) :
    hexInteger width n = String.ofList (hexDigits width n) := by
  rw [hexInteger, if_neg (by omega), Int.natAbs_natCast]

/-- **A value is written faithfully if it fits.** -/
theorem isHexLiteral_iff {width : ℕ} (hwidth : 0 < width) (value : ℤ) :
    IsHexLiteral width value ("0x" ++ hexInteger width value) ↔ Fits width value := by
  constructor
  · rintro ⟨digits, htext, hlength, hread⟩
    have hdigits : hexInteger width value = String.ofList digits :=
      (String.append_right_inj _).1 htext
    obtain ⟨n, hn, rfl⟩ := Option.map_eq_some_iff.1 hread
    have hlist : digits = hexDigits width n := by
      rw [Int.ofNat_eq_natCast, hexInteger_of_nonneg] at hdigits
      exact (String.ofList_injective hdigits).symm
    have hcount : (Nat.toDigits 16 n).length ≤ width := by
      rw [← hlength, hlist, hexDigits, List.length_append]
      omega
    have hn : n < 16 ^ width := (Nat.length_toDigits_le_iff (by decide) hwidth).1 hcount
    refine ⟨Int.natCast_nonneg n, ?_⟩
    rw [Int.ofNat_eq_natCast]
    exact_mod_cast hn
  · rintro ⟨hnonneg, hlt⟩
    obtain ⟨n, rfl⟩ := Int.eq_ofNat_of_zero_le hnonneg
    have hn : n < 16 ^ width := by exact_mod_cast hlt
    refine ⟨hexDigits width n, by rw [hexInteger_of_nonneg], length_hexDigits hwidth hn, ?_⟩
    rw [readDigits_hexDigits]
    rfl

theorem mem_hexInteger {width : ℕ} {value : ℤ} {c : Char}
    (h : c ∈ (hexInteger width value).toList) : c = '-' ∨ ∃ d < 16, c = Nat.digitChar d := by
  rw [hexInteger] at h
  split at h
  · rw [String.toList_ofList, List.mem_cons] at h
    exact h.imp_right mem_hexDigits
  · rw [String.toList_ofList] at h
    exact .inr (mem_hexDigits h)

/-- A literal is one word without a comma. -/
theorem isSolid_hexInteger (width : ℕ) (value : ℤ) :
    IsSolid ("0x" ++ hexInteger width value) ∧ ',' ∉ ("0x" ++ hexInteger width value).toList := by
  have hdigits : ∀ d < 16, Nat.digitChar d ≠ ' ' ∧ Nat.digitChar d ≠ ',' := by decide
  have hnot : ∀ {c : Char}, c ∈ ("0x" ++ hexInteger width value).toList → c ≠ ' ' ∧ c ≠ ',' := by
    intro c hc
    rw [String.toList_append, List.mem_append] at hc
    rcases hc with hc | hc
    · have hprefix : c = '0' ∨ c = 'x' := by simpa using hc
      rcases hprefix with rfl | rfl <;> decide
    · rcases mem_hexInteger hc with rfl | ⟨d, hd, rfl⟩
      · decide
      · exact hdigits d hd
  have hnonempty : "0x" ++ hexInteger width value ≠ "" := fun hempty =>
    absurd (String.append_eq_empty_iff.1 hempty).1 (by decide)
  exact ⟨⟨hnonempty, fun hc => (hnot hc).1 rfl⟩, fun hc => (hnot hc).2 rfl⟩

/-! ## 2.  Definitions -/

namespace Guid

/-- The numbers of digits of the eleven parts. -/
def partWidths : List ℕ := [8, 4, 4, 2, 2, 2, 2, 2, 2, 2, 2]

/-- Every part fits into its digits. -/
def AllFit (values : List ℤ) : Prop := ∀ part ∈ partWidths.zip values, Fits part.1 part.2

instance (values : List ℤ) : Decidable (AllFit values) :=
  inferInstanceAs (Decidable (∀ _ ∈ _, _))

/-- A text is a list of literals that are read as the parts. -/
def AreWritten (values : List ℤ) (text : String) : Prop :=
  List.Forall₂ (fun part ws => ∃ literal, ws = [literal] ∧ IsHexLiteral part.1 part.2 literal)
    (partWidths.zip values) (members text)

/-- The parts as they are written. -/
def literals (values : List ℤ) : List String :=
  (partWidths.zip values).map fun part => "0x" ++ hexInteger part.1 part.2

/-- **The parts are written faithfully if they fit.** -/
theorem areWritten_literals_iff {values : List ℤ} (hvalues : values.length = 11) :
    AreWritten values (", ".intercalate (literals values)) ↔ AllFit values := by
  have hwidths : ∀ width ∈ partWidths, 0 < width := by decide
  have hne : literals values ≠ [] := by
    intro hempty
    have hlength := congrArg List.length hempty
    simp [literals, partWidths, hvalues] at hlength
  have hcommas : ∀ literal ∈ literals values, ',' ∉ literal.toList := by
    intro literal hliteral
    obtain ⟨part, -, rfl⟩ := List.mem_map.1 hliteral
    exact (isSolid_hexInteger part.1 part.2).2
  rw [AreWritten, members_intercalate hne hcommas, literals, List.map_map,
    List.forall₂_map_right_iff, List.forall₂_same]
  refine forall₂_congr fun part hpart => ?_
  have hwords : (words ∘ fun part : ℕ × ℤ => "0x" ++ hexInteger part.1 part.2) part =
      ["0x" ++ hexInteger part.1 part.2] := (isSolid_hexInteger part.1 part.2).1.words_eq
  have hwidth : 0 < part.1 := hwidths part.1 (List.of_mem_zip (a := part.1) (b := part.2) hpart).1
  rw [hwords, ← isHexLiteral_iff hwidth]
  constructor
  · rintro ⟨literal, hliteral, hread⟩
    exact (List.cons.inj hliteral).1 ▸ hread
  · exact fun hread => ⟨_, rfl, hread⟩

/-- The arguments that read as eleven integers are written one after the other. -/
theorem defineArguments_eq {arguments : List Value} {values : List ℤ}
    (hlength : arguments.length = 11) (h : arguments.mapM Value.toInteger = .ok values) :
    values.length = 11 ∧ ∃ g, ofArguments arguments = .ok g ∧
      g.defineArguments = ", ".intercalate (literals values) := by
  have hvalues : values.length = 11 :=
    (List.Forall₂.length_eq (Result.mapM_eq_ok.1 h)).symm.trans hlength
  refine ⟨hvalues, ?_⟩
  match values, hvalues with
  | [a, b, c, d₁, d₂, d₃, d₄, d₅, d₆, d₇, d₈], _ =>
    refine ⟨⟨a, b, c, [d₁, d₂, d₃, d₄, d₅, d₆, d₇, d₈]⟩, ?_, ?_⟩
    · rw [ofArguments, if_pos hlength, h]
      rfl
    · simp only [defineArguments, literals, partWidths, List.zip_cons_cons, List.zip_nil_left,
        List.map_cons, List.map_nil, String.intercalate_cons_cons, String.intercalate_singleton,
        String.append_assoc]

/-- The first argument that is no integer is an infinity. -/
def InfiniteFirst (arguments : List Value) : Prop :=
  Result.FirstUnread (fun v => faulty v.toInteger)
    (fun v => ∃ x : Double, v = .float x ∧ x.isInfinite = true) arguments

theorem mapM_faulty {α β : Type} (f : α → Except Fault β) (l : List α) :
    (l.mapM fun a => faulty (f a)) = faulty (l.mapM f) := by
  induction l with
  | nil => rfl
  | cons a l ih =>
    rw [List.mapM_cons, List.mapM_cons, ih]
    cases f a with
    | error _ => rfl
    | ok _ => cases l.mapM f <;> rfl

theorem mapM_toInteger_outOfRange (arguments : List Value) :
    arguments.mapM Value.toInteger = .error .outOfRange ↔ InfiniteFirst arguments := by
  have hiff := OverflowsIff.mapM overflowsIff_toInteger arguments (.fault .outOfRange)
    not_isOfEntry_outOfRange
  simp only [mapM_faulty, true_and] at hiff
  rw [InfiniteFirst, ← hiff]
  cases arguments.mapM Value.toInteger <;> simp [faulty, Except.mapError]

/-- **What becomes of the arguments of an attribute.** -/
theorem readGuid_outcome {attributes : List Attribute} {a : Attribute}
    (hfind : findAttribute guidAttribute attributes = some a) (owner : String) :
    (∃ values g, a.arguments.length = 11 ∧ a.arguments.mapM Value.toInteger = .ok values ∧
      values.length = 11 ∧ readGuid attributes owner = .ok (some g) ∧
      g.defineArguments = ", ".intercalate (literals values)) ∨
    (a.arguments.length = 11 ∧ InfiniteFirst a.arguments ∧
      readGuid attributes owner = .error (.fault .outOfRange)) ∨
    (¬ (a.arguments.length = 11 ∧ InfiniteFirst a.arguments) ∧
      (∀ values, a.arguments.length = 11 → a.arguments.mapM Value.toInteger ≠ .ok values) ∧
      ∃ f, readGuid attributes owner = .error (.missing (.wellFormedGuid owner f))) := by
  have hfails : ∀ f, ofArguments a.arguments = .error f → f ≠ .outOfRange →
      readGuid attributes owner = .error (.missing (.wellFormedGuid owner f)) := by
    intro f hf hne
    simp only [readGuid, hfind, hf]
  by_cases hlength : a.arguments.length = 11
  · rcases hread : a.arguments.mapM Value.toInteger with f | values
    · have harguments : ofArguments a.arguments = .error f := by
        rw [ofArguments, if_pos hlength, hread]
        rfl
      by_cases hf : f = .outOfRange
      · subst hf
        refine .inr (.inl ⟨hlength, (mapM_toInteger_outOfRange _).1 hread, ?_⟩)
        simp only [readGuid, hfind, harguments]
      · have hinfinite : ¬ InfiniteFirst a.arguments := by
          rw [← mapM_toInteger_outOfRange, hread, Except.error.injEq]
          exact hf
        exact .inr (.inr ⟨fun h => hinfinite h.2, fun _ _ => (by simp), f,
          hfails f harguments hf⟩)
    · obtain ⟨hvalues, g, hg, htext⟩ := defineArguments_eq hlength hread
      refine .inl ⟨values, g, hlength, rfl, hvalues, ?_, htext⟩
      simp only [readGuid, hfind, hg]
  · have harguments : ofArguments a.arguments = .error (.guidArity a.arguments.length) :=
      if_neg hlength
    exact .inr (.inr ⟨fun h => hlength h.1, fun _ h => absurd h hlength, _,
      hfails _ harguments Fault.noConfusion⟩)

end Guid

/-- What can have a GUID as an attribute. -/
inductive GuidOwner where
  | constant (f : Field)
  | interface (d : TypeDef)

namespace GuidOwner

def name : GuidOwner → String
  | constant f => f.name
  | interface d => d.name

/-- The name that is defined. -/
def label : GuidOwner → String
  | constant f => f.name
  | interface d => Section.guidMark ++ d.name

def attributes : GuidOwner → List Attribute
  | constant f => f.attributes
  | interface d => d.attributes

/-- The lines that define the GUID of an owner, from its metadata to its section. -/
def define (room : ℕ) (width : ℤ) : GuidOwner → Except Failure (List String)
  | constant f => ConstantDecl.written room f width
  | interface d => do
    match (← InterfaceDecl.ofDefinition d).guid with
    | some g => return [← g.defineLine room (Section.guidMark ++ d.name) width]
    | none => throw (.missing (.guidOfInterface d.name))

/-- Apart from its attribute the owner can be described: a constant is of the type of GUIDs, and an
interface has one base at most, which can be named. -/
def IsDescribable : GuidOwner → Prop
  | constant f => ∃ v, f.type.fullName = .ok v ∧ v.sameKey (.str "System.Guid") = true
  | interface d => d.interfaces.length ≤ 1 ∧ ∃ base, InterfaceDecl.baseOf d.interfaces = .ok base

variable {o : GuidOwner} {room : ℕ} {width : ℤ}

/-- A GUID that is read is written, be it of a constant or of an interface. -/
theorem define_of_ok {g : Guid} (ho : o.IsDescribable)
    (h : readGuid o.attributes o.name = .ok (some g)) :
    o.define room width = (g.defineLine room o.label width).map fun line => [line] := by
  cases o with
  | constant f =>
    obtain ⟨v, hv, hguid⟩ := ho
    have hdescribe : ConstantDecl.describe f = .ok ⟨f.name, .guid (some g)⟩ := by
      rw [ConstantDecl.describe, Result.bind_eq_ok]
      refine ⟨v, Result.faulty_eq_ok.2 hv, ?_⟩
      rw [if_pos hguid, Result.bind_eq_ok]
      exact ⟨_, h, rfl⟩
    simp only [define, ConstantDecl.written, hdescribe]
    show (do return [← g.defineLine room f.name width]) =
      (g.defineLine room f.name width).map fun line => [line]
    cases g.defineLine room f.name width <;> rfl
  | interface d =>
    obtain ⟨hbases, base, hbase⟩ := ho
    have hdescribe : ∃ i, InterfaceDecl.ofDefinition d = .ok i ∧ i.guid = some g := by
      rw [InterfaceDecl.ofDefinition, if_neg (Nat.not_lt.2 hbases)]
      simp only [Result.bind_eq_ok]
      exact ⟨_, ⟨base, hbase, _, h, rfl⟩, rfl⟩
    obtain ⟨i, hi, hguid⟩ := hdescribe
    have hline : (interface d).define room width =
        (do return [← g.defineLine room (Section.guidMark ++ d.name) width]) := by
      rw [define, hi]
      show (match i.guid with | some g => _ | none => _) = _
      rw [hguid]
    rw [hline, label]
    cases g.defineLine room (Section.guidMark ++ d.name) width <;> rfl

/-- One that cannot be read is reported. -/
theorem define_of_error {e : Failure} (ho : o.IsDescribable)
    (h : readGuid o.attributes o.name = .error e) : o.define room width = .error e := by
  cases o with
  | constant f =>
    obtain ⟨v, hv, hguid⟩ := ho
    have hread : readGuid f.attributes f.name = .error e := h
    rw [define, ConstantDecl.written, ConstantDecl.describe, hv]
    simp only [faulty, Except.mapError, bind, Except.bind, hguid, hread, if_true]
  | interface d =>
    obtain ⟨hbases, base, hbase⟩ := ho
    have hread : readGuid d.attributes d.name = .error e := h
    rw [define, InterfaceDecl.ofDefinition, if_neg (Nat.not_lt.2 hbases), hbase]
    simp only [bind, Except.bind, hread]

/-- The line of a GUID, its name in a column for which there is room. -/
theorem define_of_written {g : Guid} {text : String} {k : ℕ} (ho : o.IsDescribable)
    (h : readGuid o.attributes o.name = .ok (some g)) (htext : g.defineArguments = text)
    (hroom : HasRoom room k) :
    o.define room k = .ok ["DEFINE_GUID(" ++ padTo k (o.label ++ ",") ++ " " ++ text ++ ");"] := by
  have hcolumn : column room k (o.label ++ ",") = .ok (padTo k (o.label ++ ",")) := by
    rw [column, if_neg (by simp), filling_eq_ok_iff, Int.toNat_natCast]
    exact ⟨hroom, rfl⟩
  rw [define_of_ok ho h, Guid.defineLine, hcolumn, htext]
  rfl

/-- What a definition ought to come to: a failure of the rules, or one line with eleven literals
that are the integers of the arguments. -/
def IsFaithful (label : String) (arguments : List Value) : Except Failure (List String) → Prop
  | .error e => e.isGeneration = true
  | .ok lines => ∃ values text, arguments.mapM Value.toInteger = .ok values ∧ values.length = 11 ∧
    lines = ["DEFINE_GUID(" ++ label ++ " " ++ text ++ ");"] ∧ Guid.AreWritten values text

/-- **When definitions are faithful.**  Take a constant or an interface with an attribute for its
GUID, and a column that is a possible length and for which there is room.  The definition comes to
what it ought to come to unless there are eleven arguments, and either the first that is no integer
is an infinity, or all are integers and one of them does not fit. -/
theorem define_faithful_iff (o : GuidOwner) (ho : o.IsDescribable) (a : Attribute)
    (ha : findAttribute guidAttribute o.attributes = some a) (room width : ℕ)
    (hroom : HasRoom room width) :
    IsFaithful (padTo width (o.label ++ ",")) a.arguments (o.define room width) ↔
      ¬ (a.arguments.length = 11 ∧ (Guid.InfiniteFirst a.arguments ∨
        ∃ values, a.arguments.mapM Value.toInteger = .ok values ∧ ¬ Guid.AllFit values)) := by
  rcases Guid.readGuid_outcome ha o.name with
    ⟨values, g, hlength, hread, hvalues, hg, htext⟩ | ⟨hlength, hinfinite, he⟩ |
      ⟨hfinite, hnone, f, he⟩
  · rw [define_of_written ho hg htext hroom]
    have hwritten := Guid.areWritten_literals_iff hvalues
    constructor
    · rintro ⟨values', text, hread', -, hlines, hfaithful⟩
        ⟨-, hinfinite | ⟨values'', hread'', hnot⟩⟩
      · rw [(Guid.mapM_toInteger_outOfRange _).2 hinfinite] at hread
        cases hread
      · obtain rfl : values = values' := Except.ok.inj (hread.symm.trans hread')
        obtain rfl : values = values'' := Except.ok.inj (hread.symm.trans hread'')
        have htext : ", ".intercalate (Guid.literals values) = text :=
          (String.append_right_inj _).1 ((String.append_left_inj _).1 (List.cons.inj hlines).1)
        exact hnot (hwritten.1 (htext ▸ hfaithful))
    · intro h
      refine ⟨values, _, hread, hvalues, rfl, hwritten.2 ?_⟩
      exact of_not_not fun hnot => h ⟨hlength, .inr ⟨values, hread, hnot⟩⟩
  · rw [define_of_error ho he]
    exact iff_of_false Bool.false_ne_true fun h => h ⟨hlength, .inl hinfinite⟩
  · rw [define_of_error ho he]
    refine iff_of_true rfl ?_
    rintro ⟨hlength, hinfinite | ⟨values, hread, -⟩⟩
    · exact hfinite ⟨hlength, hinfinite⟩
    · exact hnone values hlength hread

/-- A constant of the type of GUIDs; its first part is given and the others are zero. -/
def shapeId (first : ℤ) : GuidOwner := .constant {
  name := "SHAPE_ID"
  type := .named (.str "System") (.str "Guid") .null true
  literal := none
  isSpecialName := false
  attributes := [⟨.str guidAttribute, .int first :: List.replicate 10 (.int 0)⟩] }

theorem shapeId_isDescribable (first : ℤ) : (shapeId first).IsDescribable :=
  ⟨.str "System.Guid", rfl, rfl⟩

/-- The largest first part is written in its eight digits. -/
theorem shapeId_largest :
    findAttribute guidAttribute (shapeId 0xffffffff).attributes =
        some ⟨.str guidAttribute, .int 0xffffffff :: List.replicate 10 (.int 0)⟩ ∧
      HasRoom 80 (10 : ℕ) ∧
      IsFaithful "SHAPE_ID, " (.int 0xffffffff :: List.replicate 10 (.int 0))
        ((shapeId 0xffffffff).define 80 10) := by
  refine ⟨rfl, by decide, (define_faithful_iff (shapeId 0xffffffff) (shapeId_isDescribable _)
    ⟨.str guidAttribute, .int 0xffffffff :: List.replicate 10 (.int 0)⟩ rfl 80 10 (by decide)).2 ?_⟩
  rintro ⟨-, hinfinite | ⟨values, hread, hnot⟩⟩
  · rw [← Guid.mapM_toInteger_outOfRange] at hinfinite
    cases hinfinite
  · obtain rfl : 0xffffffff :: List.replicate 10 0 = values := Except.ok.inj hread
    exact hnot (by decide)

/-- The next one has nine. -/
theorem shapeId_wide :
    ¬ IsFaithful "SHAPE_ID, " (.int 0x100000000 :: List.replicate 10 (.int 0))
      ((shapeId 0x100000000).define 80 10) := by
  have hdefine : (shapeId 0x100000000).define 80 10 =
      .ok ["DEFINE_GUID(" ++ "SHAPE_ID, " ++ " " ++
        ", ".intercalate (Guid.literals (0x100000000 :: List.replicate 10 0)) ++ ");"] :=
    define_of_written (shapeId_isDescribable _) (g := ⟨0x100000000, 0, 0, List.replicate 8 0⟩) rfl
      rfl (by decide)
  rw [hdefine]
  rintro ⟨values, text, hread, -, hlines, hwritten⟩
  obtain rfl : 0x100000000 :: List.replicate 10 0 = values := Except.ok.inj hread
  have htext : ", ".intercalate (Guid.literals (0x100000000 :: List.replicate 10 0)) = text :=
    (String.append_right_inj _).1 ((String.append_left_inj _).1 (List.cons.inj hlines).1)
  rw [← htext, Guid.areWritten_literals_iff rfl] at hwritten
  exact absurd (hwritten (8, 0x100000000) (by decide)) (by decide)

end GuidOwner

end ComHeaders
