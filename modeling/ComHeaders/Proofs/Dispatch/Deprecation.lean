import ComHeaders.Proofs.Answers
import ComHeaders.Proofs.Dispatch.Slots
import ComHeaders.Proofs.Literals.Messages

/-!
# What the marks of obsolete methods say

A wrapper of an obsolete method has a mark in front of it, which holds the message of the metadata
between quotes.  The message goes through classification and through the base chains of all
interfaces that inherit the method, and it comes out as it was.  But a compiler reads it as a string
literal, and to a literal not every message is what it seems.

## 1.  Marks

`IsMarkOf` says what a mark should be, and `isMarkOf_deprecationLine` for which messages it is.

## 2.  Lines

Each wrapper of a table has the mark of its method in front, if there is one
(`Wrapper.renderFrom_lines`).

## 3.  Interfaces of a metadata set

Whatever a pass was asked before, the interfaces that it has described are those of definitions
(`Session.Reached.describedBy`).  So the methods of a base chain are those of definitions.

## 4.  Messages

`Wrapper.ofInterface_marks` follows the messages from the attributes of methods to the wrappers of
all interfaces.
-/

namespace ComHeaders

open Pass (Agree)

/-! ## 1.  Marks -/

/-- A line is a mark with a message: it is one line, and what it holds is one string literal that
denotes the message. -/
def IsMarkOf (line message : String) : Prop :=
  (∀ c ∈ line.toList, c ≠ '\n' ∧ c ≠ '\r') ∧
    ∃ literal, line = "__declspec(deprecated(" ++ literal ++ "))" ∧
      readLiteral literal = some message

theorem append_quotes {a b first last : String} (message : String) (hfirst : a = first ++ "\"")
    (hlast : b = "\"" ++ last) :
    a ++ message ++ b = first ++ ("\"" ++ message ++ "\"") ++ last := by
  subst hfirst hlast
  simp only [String.append_assoc]

theorem deprecationLine_eq (message : String) :
    Wrapper.deprecationLine message =
      "__declspec(deprecated(" ++ ("\"" ++ message ++ "\"") ++ "))" :=
  append_quotes message (by decide +kernel) (by decide +kernel)

theorem forall_mem_append {a b c : String} {P : Char → Prop} (ha : ∀ x ∈ a.toList, P x)
    (hb : ∀ x ∈ b.toList, P x) (hc : ∀ x ∈ c.toList, P x) : ∀ x ∈ (a ++ b ++ c).toList, P x := by
  intro x hx
  rw [String.toList_append, String.toList_append, List.mem_append, List.mem_append] at hx
  rcases hx with (hx | hx) | hx
  · exact ha x hx
  · exact hb x hx
  · exact hc x hx

/-- **The mark of a method says its message** exactly if all characters of the message are plain. -/
theorem isMarkOf_deprecationLine (message : String) :
    IsMarkOf (Wrapper.deprecationLine message) message ↔ ∀ c ∈ message.toList, IsPlain c := by
  constructor
  · rintro ⟨-, literal, hline, hliteral⟩
    have hquotes := (deprecationLine_eq message).symm.trans hline
    rw [String.append_left_inj, String.append_right_inj] at hquotes
    rw [← hquotes] at hliteral
    exact (readLiteral_quotes_iff message).1 hliteral
  · intro hplain
    have hbreaks : ∀ c ∈ (Wrapper.deprecationLine message).toList, c ≠ '\n' ∧ c ≠ '\r' :=
      forall_mem_append (by simp) (fun c hc => (hplain c hc).2.2) (by simp)
    exact ⟨hbreaks, _, deprecationLine_eq message, (readLiteral_quotes_iff message).2 hplain⟩

/-! ## 2.  Lines -/

namespace Wrapper

variable {n : Naming} {style : WrapperStyle} {s s' : Session}

/-- A wrapper for a method: the mark in front of it, if the method has one, and the wrapper
itself. -/
structure IsFor (w : Wrapper) (declaring : String) (m : MethodDecl) : Prop where
  interfaceName : w.interfaceName = declaring
  methodName : w.methodName = m.name
  lines : ∃ (call : Call) (returnColumn nameColumn : String),
    w.lines = (m.deprecation.map deprecationLine).toList ++ [call.line returnColumn nameColumn]

/-- **Each wrapper of a table has the mark of its method.** -/
theorem renderFrom_lines {receiver : String} {slot : Nat} {taken : List String}
    {es : List (String × MethodDecl)} {ws : List Wrapper}
    (h : (renderFrom n style receiver slot taken es).perform s = (.ok ws, s')) :
    List.Forall₂ (fun e w => w.IsFor e.1 e.2) es ws := by
  induction es generalizing slot taken s ws with
  | nil =>
    obtain ⟨rfl, rfl⟩ : [] = ws ∧ s = s' := by simpa [renderFrom] using h
    exact .nil
  | cons e es ih =>
    obtain ⟨j, hj⟩ := renderFrom_cons n receiver slot taken e s
    obtain ⟨lines, u, more, hlines, hmore, rfl⟩ := cons_ok.1 ((hj style es).symm.trans h)
    obtain ⟨_, _, _, _, _, _, _, _, -, -, -, -, -, -, -, hrendered⟩ := render_ok hlines
    exact .cons ⟨rfl, rfl, _, _, _, hrendered⟩ (ih hmore)

end Wrapper

/-! ## 3.  Interfaces of a metadata set -/

variable {ds : List TypeDef} {s s' : Session} {d : TypeDef} {i : InterfaceDecl}

/-- All interfaces that a session has described are those of definitions. -/
def Session.DescribedBy (ds : List TypeDef) (s : Session) : Prop :=
  ∀ i ∈ s.interfaces.values, i.IsOf ds

theorem Session.DescribedBy.of_agree {α : Type} {x : Pass α} {P : α → Prop}
    (hs : s.DescribedBy ds)
    (hx : Agree (Session.Same (fun _ => True) (InterfaceDecl.IsOf ds)) x x P) :
    (x.perform s).2.DescribedBy ds ∧ ∀ a, (x.perform s).1 = .ok a → P a := by
  obtain ⟨-, hsame, hresult⟩ := hx s s ⟨rfl, fun _ _ => trivial, rfl, hs⟩
  exact ⟨hsame.known, hresult⟩

theorem Repository.mem_of_find?_ofList {k : String} (h : (ofList ds).find? k = some d) : d ∈ ds := by
  rw [find?_ofList] at h
  exact List.mem_of_find?_eq_some h

theorem InterfaceDecl.agree_lookup_isOf (v : Value) :
    Agree (Session.Same (fun _ => True) (IsOf ds)) (lookup (.ofList ds) v) (lookup (.ofList ds) v)
      (IsOf ds) :=
  agree_lookup (fun _ _ => rfl)
    fun _ d _ _ hd hi => ⟨d, Repository.mem_of_find?_ofList hd, hi⟩

/-- The bases of an interface are those of definitions, and so is the interface itself or it is the
one that was given. -/
theorem Wrapper.agree_chain_isOf (i : InterfaceDecl) :
    Agree (Session.Same (fun _ => True) (InterfaceDecl.IsOf ds)) (chain (.ofList ds) i)
      (chain (.ofList ds) i) fun is => ∀ j ∈ is, j.IsOf ds ∨ j = i :=
  agree_chain (fun _ _ => (InterfaceDecl.agree_lookup_isOf _).weaken fun _ => .inl)
    (fun _ => rfl) (.inr rfl)

namespace Session.DescribedBy

/-- **A request describes definitions only**, whether or not it fails. -/
theorem after (hs : s.DescribedBy ds) (tagged : List String) (q : Request) :
    (q.after ⟨.ofList ds, tagged⟩ s).DescribedBy ds := by
  cases q with
  | declarations p =>
    have hdescribable (ns : Value) : ∀ d ∈ (Repository.ofList ds).typesIn ns,
        Declarations.Describable (Session.Same (fun _ => True) (InterfaceDecl.IsOf ds))
          (.ofList ds) (.ofList ds) (fun _ => True) (InterfaceDecl.IsOf ds) d := fun d hd =>
      ⟨rfl, fun _ _ _ _ => trivial, fun _ _ _ _ => trivial,
        InterfaceDecl.agree_describe fun i hi => ⟨d, List.mem_of_mem_filter hd, hi⟩⟩
    exact (hs.of_agree (Declarations.agree_classify rfl (fun _ _ => rfl) hdescribable)).1
  | interface fullName => exact (hs.of_agree (InterfaceDecl.agree_lookup_isOf fullName)).1
  | wrappers style i =>
    have hconcur : Naming.Concur (Session.Same (fun _ => True) (InterfaceDecl.IsOf ds))
        (fun _ => True) (fun _ => True) ⟨.ofList ds, tagged⟩ ⟨.ofList ds, tagged⟩ := {
      name := fun _ => Naming.agree_name (Naming.recording_same _ _)
        ⟨Iff.rfl, fun _ _ => trivial⟩ rfl rfl fun _ _ => trivial
      isEnum := fun _ => rfl }
    exact (hs.of_agree (Wrapper.agree_ofInterface hconcur style (C := fun _ => True)
      ((Wrapper.agree_chain_isOf i).weaken fun _ _ => ⟨trivial, fun _ _ _ _ => trivial⟩))).1

end Session.DescribedBy

/-- **Whatever was asked before, only definitions were described.** -/
theorem Session.Reached.describedBy (hs : s.Reached (.ofList ds)) : s.DescribedBy ds := by
  induction hs with
  | new => simp [Session.DescribedBy, Table.values]
  | asked _ tagged q ih => exact ih.after tagged q
  | renamed _ _ ih => exact ih

theorem InterfaceDecl.name_of_ofDefinition (h : ofDefinition d = .ok i) : i.name = d.name := by
  rw [ofDefinition] at h
  split at h
  · cases h
  obtain ⟨base, -, h⟩ := Result.bind_eq_ok.1 h
  obtain ⟨guid, -, h⟩ := Result.bind_eq_ok.1 h
  obtain rfl := Except.ok.inj h
  rfl

/-- The methods of some definitions in their order, each with its definition. -/
def methodsOf (defs : List TypeDef) : List (TypeDef × Method) :=
  defs.flatMap fun d => d.methods.map fun m => (d, m)

/-- The table of interfaces that definitions describe. -/
theorem table_of_definitions {defs : List TypeDef} {is : List InterfaceDecl}
    (h : List.Forall₂ (fun d j => InterfaceDecl.ofDefinition d = .ok j) defs is) :
    Wrapper.table is = (methodsOf defs).map fun e => (e.1.name, MethodDecl.describe e.2) := by
  induction h with
  | nil => rfl
  | @cons d j defs is hj _ ih =>
    have hmethods : j.methods.map (fun m => (j.name, m)) =
        (d.methods.map fun m => (d, m)).map fun e => (e.1.name, MethodDecl.describe e.2) := by
      rw [(InterfaceDecl.of_ofDefinition hj).2.1, InterfaceDecl.name_of_ofDefinition hj,
        List.map_map, List.map_map]
      rfl
    rw [Wrapper.table, List.flatMap_cons, methodsOf, List.flatMap_cons, List.map_append, hmethods]
    exact congrArg _ ih

/-- Interfaces of definitions come from definitions in their order. -/
theorem exists_definitions {is : List InterfaceDecl} (h : ∀ j ∈ is, j.IsOf ds) :
    ∃ defs, (∀ d ∈ defs, d ∈ ds) ∧
      List.Forall₂ (fun d j => InterfaceDecl.ofDefinition d = .ok j) defs is := by
  induction is with
  | nil => exact ⟨[], by simp, .nil⟩
  | cons j is ih =>
    obtain ⟨⟨d, hd, hj⟩, his⟩ := List.forall_mem_cons.1 h
    obtain ⟨defs, hdefs, hall⟩ := ih his
    exact ⟨d :: defs, List.forall_mem_cons.2 ⟨hd, hdefs⟩, .cons hj hall⟩

/-! ## 4.  Messages -/

namespace Wrapper

/-- A wrapper announces what the attributes of its method say.  Without an attribute for obsolete
methods it has no mark.  With a message it has a mark in front, and this says the message exactly if
all characters of the message are plain. -/
def Announces (w : Wrapper) (m : Method) : Prop :=
  (findAttribute obsoleteAttribute m.attributes = none →
    ∃ (call : Call) (returnColumn nameColumn : String),
      w.lines = [call.line returnColumn nameColumn]) ∧
  ∀ a message rest, findAttribute obsoleteAttribute m.attributes = some a →
    a.arguments = .str message :: rest →
      ∃ (mark : String) (call : Call) (returnColumn nameColumn : String),
        w.lines = [mark, call.line returnColumn nameColumn] ∧
        (IsMarkOf mark message ↔ ∀ c ∈ message.toList, IsPlain c)

theorem IsFor.announces {w : Wrapper} {declaring : String} {m : Method}
    (h : w.IsFor declaring (MethodDecl.describe m)) : w.Announces m := by
  obtain ⟨-, -, call, returnColumn, nameColumn, hlines⟩ := h
  refine ⟨fun hnone => ⟨call, returnColumn, nameColumn, ?_⟩, fun a message rest ha hmessage => ?_⟩
  · rw [hlines, MethodDecl.describe, hnone]
    rfl
  · have htext : MethodDecl.deprecationText a = message := by
      rw [MethodDecl.deprecationText, hmessage]
      rfl
    refine ⟨deprecationLine message, call, returnColumn, nameColumn, ?_,
      isMarkOf_deprecationLine message⟩
    rw [hlines, MethodDecl.describe, ha, Option.map_some, htext]
    rfl

/-- **Which messages survive.**  Take the interface of a definition, in a session in which anything
was asked before, and suppose that its wrappers are made.  They are for the methods of the
definitions on its base chain, each with what the attributes of its method announce.

So a message comes before every wrapper of its method, for the interface that declares it and for
all that inherit it.  It is then a line of its own with one string literal that denotes the message,
unless there is a quote, a backslash or the end of a line in the message. -/
theorem ofInterface_marks (ds : List TypeDef) (tagged : List String) (style : WrapperStyle)
    (s s' : Session) (hs : s.Reached (.ofList ds)) (i : InterfaceDecl) (hi : i.IsOf ds)
    (ws : List Wrapper)
    (h : (ofInterface ⟨.ofList ds, tagged⟩ style i).perform s = (.ok ws, s')) :
    ∃ is defs, BaseChain (s.interface? (.ofList ds)) i is ∧
      (∀ d ∈ defs, d ∈ ds) ∧
      List.Forall₂ (fun d j => InterfaceDecl.ofDefinition d = .ok j) defs is ∧
      List.Forall₂ (fun e w => w.interfaceName = e.1.name ∧ w.methodName = e.2.name ∧
        w.Announces e.2) (methodsOf defs) ws := by
  obtain ⟨is, t, u, hchain, hrender, rfl⟩ := ofInterface_ok.1 h
  obtain ⟨hbases, -, -⟩ := chainFrom_again (Repository.indexed_ofList ds) hchain
  obtain ⟨-, hknown⟩ := hs.describedBy.of_agree (agree_chain_isOf i)
  have hdefined : ∀ j ∈ is, j.IsOf ds := by
    intro j hj
    rcases hknown is (congrArg Prod.fst hchain) j hj with hj | rfl
    · exact hj
    · exact hi
  obtain ⟨defs, hdefs, hall⟩ := exists_definitions hdefined
  refine ⟨is, defs, hbases, hdefs, hall, ?_⟩
  have hlines := renderFrom_lines hrender
  rw [table_of_definitions hall, List.forall₂_map_left_iff] at hlines
  exact hlines.imp fun e w hw => ⟨hw.interfaceName, hw.methodName, hw.announces⟩

/-- A shape whose only method is obsolete. -/
def obsoleteShape (message : String) : TypeDef :=
  { plainInterface "IShape" "Draw" [] with
    methods := [⟨"Draw", .void, [], [⟨.str obsoleteAttribute, [.str message]⟩]⟩] }

/-- A circle, which inherits the method. -/
def obsoleteShapes (message : String) : List TypeDef := [
  obsoleteShape message,
  plainInterface "ICircle" "Fill" [.named (.str "Shapes") (.str "IShape") .null false]]

/-- The interface of that circle. -/
def fillableCircle : InterfaceDecl := { circle with methods := [⟨"Fill", .void, [], none⟩] }

/-- The message of the shape survives, also for the circle. -/
theorem obsoleteShapes_marks :
    ∃ ws s' defs,
      (ofInterface ⟨.ofList (obsoleteShapes "use Paint"), []⟩ {} fillableCircle).perform {} =
          (.ok ws, s') ∧
        ws.map (fun w => (w.methodName, w.lines.length)) = [("Draw", 2), ("Fill", 1)] ∧
        List.Forall₂ (fun e w => w.interfaceName = e.1.name ∧ w.methodName = e.2.name ∧
          w.Announces e.2) (methodsOf defs) ws ∧
        IsMarkOf (deprecationLine "use Paint") "use Paint" := by
  have hlines : (((ofInterface ⟨.ofList (obsoleteShapes "use Paint"), []⟩ {}
      fillableCircle).perform {}).1.toOption.map fun ws =>
        ws.map fun w => (w.methodName, w.lines.length)) = some [("Draw", 2), ("Fill", 1)] := by
    decide +kernel
  rcases h : (ofInterface ⟨.ofList (obsoleteShapes "use Paint"), []⟩ {} fillableCircle).perform {}
    with ⟨e | ws, s'⟩
  · rw [h] at hlines
    cases hlines
  rw [h] at hlines
  have hi : fillableCircle.IsOf (obsoleteShapes "use Paint") :=
    ⟨_, List.mem_cons_of_mem _ (List.mem_singleton_self _), rfl⟩
  obtain ⟨is, defs, -, -, -, hall⟩ := ofInterface_marks _ [] {} {} s' .new fillableCircle hi ws h
  exact ⟨ws, s', defs, rfl, Option.some.inj hlines, hall,
    (isMarkOf_deprecationLine "use Paint").2 (by simp [IsPlain])⟩

/-- The interface of the shape. -/
def obsoleteInterface (message : String) : InterfaceDecl where
  name := "IShape"
  fullName := "Shapes.IShape"
  methods := [⟨"Draw", .void, [], some message⟩]
  base := none
  guid := none

/-- A message with quotes does not survive, although there is a mark that says it. -/
theorem quotedMessage_lost :
    InterfaceDecl.ofDefinition (obsoleteShape "use \"Paint\"") =
        .ok (obsoleteInterface "use \"Paint\"") ∧
      (((ofInterface ⟨.ofList [obsoleteShape "use \"Paint\""], []⟩ {}
        (obsoleteInterface "use \"Paint\"")).perform {}).1.toOption.map fun ws =>
          ws.map fun w => w.lines.head?) = some [some "__declspec(deprecated(\"use \"Paint\"\"))"] ∧
      ¬ IsMarkOf "__declspec(deprecated(\"use \"Paint\"\"))" "use \"Paint\"" ∧
      IsMarkOf "__declspec(deprecated(\"use \\\"Paint\\\"\"))" "use \"Paint\"" := by
  have hmark : "__declspec(deprecated(\"use \"Paint\"\"))" = deprecationLine "use \"Paint\"" := by
    decide +kernel
  refine ⟨rfl, by decide +kernel, fun h => ?_, by simp, "\"use \\\"Paint\\\"\"",
    by decide +kernel, by decide +kernel⟩
  rw [hmark, isMarkOf_deprecationLine] at h
  simp [IsPlain] at h

end Wrapper

end ComHeaders
