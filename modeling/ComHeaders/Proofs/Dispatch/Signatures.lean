import ComHeaders.Proofs.Dispatch.Generalization
import ComHeaders.Proofs.Dispatch.Suffixes
import ComHeaders.Proofs.Naming.Identifiers

/-!
# What the line of a wrapper says

A wrapper names each parameter three times: in its own list of parameters, by type in the cast and
by name in the call.  A list that is out of step is still good C, and passes the wrong arguments.  So
this file reads the line back.  It splits it at its brackets, its commas and its blanks, and asks
that the three lists fit together.

## 1.  Reading a line

`Wrapper.read` is the reader.  It knows where the pieces of the line are and nothing of how a
wrapper is made.

## 2.  Calls

The line of a call is read as the call (`Call.read_line`), provided that its names are identifiers
and names of types.

## 3.  Methods

`render_legible` is the result: the lists that are read off the line of a method fit together, and
the line determines the method.
-/

namespace ComHeaders

namespace Wrapper

/-! ## 1.  Reading a line -/

/-- What the line of a wrapper says. -/
structure Reading where
  returnName : String
  wrapperName : String
  /-- The declared parameters, each with its type and its name; the receiver is the first. -/
  declared : List (String × String)
  /-- Whether the body has a variable for the result. -/
  keepsResult : Bool
  castTypes : List String
  /-- The index into the dispatch table. -/
  index : Nat
  arguments : List String
  deriving DecidableEq, Repr

/-- Reads the line of a wrapper. -/
def read (line : String) : Option Reading :=
  match pieces line with
  | [head, declared, opening, _, _, _, _, castTypes, _, _, index, _, _, arguments, _] =>
    (readNatural index.toList).map fun index => {
      -- In front of these two stands `static inline`.
      returnName := (splitLast ((words head).drop 2)).1
      wrapperName := (splitLast ((words head).drop 2)).2
      declared := (members declared).map splitLast
      keepsResult := (words opening).getLast? == some "_return;"
      castTypes := (members castTypes).map phrase
      index
      arguments := (members arguments).map phrase }
  | _ => none

/-! ## 2.  Calls -/

/-- A call whose parts are identifiers and names of types. -/
structure Call.IsLegible (c : Call) : Prop where
  receiver : IsIdentifier c.receiver
  wrapperName : IsIdentifier c.wrapperName
  returnName : IsTypeName c.returnName
  types : ∀ p ∈ c.parameters, ∃ isConst name, IsTypeName name ∧ p.1 = qualified isConst name
  names : ∀ p ∈ c.parameters, IsIdentifier p.2

namespace Call

variable {c : Call}

/-- What stands in front of the cast. -/
def opening (c : Call) : String :=
  if c.viaPointer then " \x7b " ++ c.returnName ++ " _return; "
  else if c.returnName = "void" then " \x7b " else " \x7b return "

/-- What stands behind the call. -/
def closing (c : Call) : String :=
  if c.viaPointer then "; return _return; \x7d" else "; \x7d"

/-- The type that the cast gives to the result. -/
def castResult (c : Call) : String := if c.viaPointer then "void" else c.returnName

/-- The invocation cut at its brackets. -/
theorem invocation_eq (c : Call) : c.invocation =
    "(" ++ "" ++ "(" ++ (c.castResult ++ " ") ++ "(" ++ "WINAPI*" ++ ")" ++ "" ++ "(" ++
      ", ".intercalate c.castTypes ++ ")" ++ "" ++ ")" ++ "this->v->tbl" ++ "[" ++
        toString c.slot ++ "]" ++ "" ++ ")" ++ "" ++ "(" ++ ", ".intercalate c.arguments ++
          ")" ++ ";" := by
  have hcast : " (WINAPI*)(" = " " ++ "(" ++ "WINAPI*" ++ ")" ++ "(" := rfl
  have hentry : "))this->v->tbl[" = ")" ++ ")" ++ "this->v->tbl" ++ "[" := rfl
  have hcall : "])(" = "]" ++ ")" ++ "(" := rfl
  have hopen : "((" = "(" ++ "(" := rfl
  have hend : ");" = ")" ++ ";" := rfl
  have hself : ∀ text : String, toString text = text := fun _ => rfl
  simp only [invocation, castResult, hself, hcast, hentry, hcall, hopen, hend,
    String.append_assoc, String.empty_append]

/-- The pieces of the line, each behind its bracket. -/
theorem line_eq_bracketed (c : Call) (returnColumn nameColumn : String) :
    c.line returnColumn nameColumn =
      bracketed ("static inline " ++ returnColumn ++ " " ++ nameColumn) [
        ('(', ", ".intercalate c.declared), (')', c.opening), ('(', ""),
        ('(', c.castResult ++ " "), ('(', "WINAPI*"), (')', ""),
        ('(', ", ".intercalate c.castTypes), (')', ""), (')', "this->v->tbl"),
        ('[', toString c.slot), (']', ""), (')', ""), ('(', ", ".intercalate c.arguments),
        (')', c.closing)] := by
  have hself : ∀ text : String, toString text = text := fun _ => rfl
  have hround : String.singleton '(' = "(" ∧ String.singleton ')' = ")" := ⟨rfl, rfl⟩
  have hsquare : String.singleton '[' = "[" ∧ String.singleton ']' = "]" := ⟨rfl, rfl⟩
  have hopen : ") \x7b" = ")" ++ " \x7b" := rfl
  have hdirect : " \x7b " = " \x7b" ++ " " := rfl
  have hreturn : " \x7b return " = " \x7b" ++ " return " := rfl
  have hend : "; \x7d" = ";" ++ " \x7d" := rfl
  have hkept : "; return _return; \x7d" = ";" ++ " return _return;" ++ " \x7d" := rfl
  unfold line
  simp only [bracketed, hself, hround, hsquare, invocation_eq, body, opening, closing, hopen]
  by_cases hpointer : c.viaPointer = true
  · simp only [if_pos hpointer, hdirect, hkept, String.append_assoc, String.empty_append]
  · by_cases hvoid : c.returnName = "void"
    · simp only [if_neg hpointer, if_pos hvoid, hdirect, hend, String.append_assoc,
        String.empty_append]
    · simp only [if_neg hpointer, if_neg hvoid, hreturn, hend, String.append_assoc,
        String.empty_append]

/-- What is read off the line of a call. -/
def reading (c : Call) : Reading where
  returnName := c.returnName
  wrapperName := c.wrapperName
  declared := (c.receiver ++ "*", "this") :: c.parameters
  keepsResult := c.viaPointer
  castTypes := c.castTypes
  index := c.slot
  arguments := c.arguments

namespace IsLegible

theorem isTypeName_of_mem_castTypes (h : c.IsLegible) {text : String} (hmem : text ∈ c.castTypes) :
    ∃ isConst name, IsTypeName name ∧ text = qualified isConst name := by
  rw [castTypes, List.mem_append, List.mem_cons] at hmem
  rcases hmem with (rfl | hmem) | hmem
  · exact ⟨false, _, isTypeName_pointer h.receiver, rfl⟩
  · split at hmem
    · obtain rfl := List.mem_singleton.1 hmem
      exact ⟨false, _, h.returnName.append_stars 1, rfl⟩
    · cases hmem
  · obtain ⟨p, hp, rfl⟩ := List.mem_map.1 hmem
    exact h.types p hp

theorem isSolid_of_mem_arguments (h : c.IsLegible) {text : String} (hmem : text ∈ c.arguments) :
    IsSolid text ∧ IsFree text ∧ ',' ∉ text.toList := by
  have hname : ∀ {text : String}, IsIdentifier text →
      IsSolid text ∧ IsFree text ∧ ',' ∉ text.toList := fun hidentifier =>
    ⟨hidentifier.isSolid, hidentifier.isFree, hidentifier.not_mem (by decide)⟩
  rw [arguments, List.mem_append, List.mem_cons] at hmem
  rcases hmem with (rfl | hmem) | hmem
  · exact hname (by decide)
  · split at hmem
    · obtain rfl := List.mem_singleton.1 hmem
      exact ⟨⟨by decide, by decide⟩, by decide, by decide⟩
    · cases hmem
  · obtain ⟨p, hp, rfl⟩ := List.mem_map.1 hmem
    exact hname (h.names p hp)

/-! ### Parts without brackets -/

theorem isFree_returnName (h : c.IsLegible) : IsFree c.returnName :=
  isFree_of_isTypeChar fun _ => h.returnName.isTypeChar_of_mem

theorem isFree_declared (h : c.IsLegible) : IsFree (", ".intercalate c.declared) := by
  refine isFree_intercalate fun text hmem => ?_
  rw [declared, List.mem_cons] at hmem
  rcases hmem with rfl | hmem
  · exact isFree_append h.receiver.isFree (by decide)
  · obtain ⟨p, hp, rfl⟩ := List.mem_map.1 hmem
    obtain ⟨isConst, name, hname, htype⟩ := h.types p hp
    rw [htype]
    exact isFree_append (isFree_append
      (isFree_of_isTypeChar fun _ => isTypeChar_of_mem_qualified hname) (by decide))
      (h.names p hp).isFree

theorem isFree_opening (h : c.IsLegible) : IsFree c.opening := by
  rw [opening]
  split
  · exact isFree_append (isFree_append (by decide) h.isFree_returnName) (by decide)
  · split <;> decide

theorem isFree_castResult (h : c.IsLegible) : IsFree (c.castResult ++ " ") := by
  rw [castResult]
  split
  · decide
  · exact isFree_append h.isFree_returnName (by decide)

theorem isFree_castTypes (h : c.IsLegible) : IsFree (", ".intercalate c.castTypes) := by
  refine isFree_intercalate fun text hmem => ?_
  obtain ⟨isConst, name, hname, rfl⟩ := h.isTypeName_of_mem_castTypes hmem
  exact isFree_of_isTypeChar fun _ => isTypeChar_of_mem_qualified hname

theorem isFree_arguments (h : c.IsLegible) : IsFree (", ".intercalate c.arguments) :=
  isFree_intercalate fun _ hmem => (h.isSolid_of_mem_arguments hmem).2.1

end IsLegible

/-- The pieces of the line have no brackets of their own. -/
theorem IsLegible.pieces_line (h : c.IsLegible) (k l : Nat) :
    pieces (c.line (padTo k c.returnName) (padTo l c.wrapperName)) =
      ["static inline " ++ padTo k c.returnName ++ " " ++ padTo l c.wrapperName,
        ", ".intercalate c.declared, c.opening, "", c.castResult ++ " ", "WINAPI*", "",
        ", ".intercalate c.castTypes, "", "this->v->tbl", toString c.slot, "", "",
        ", ".intercalate c.arguments, c.closing] := by
  have hfirst : IsFree ("static inline " ++ padTo k c.returnName ++ " " ++
      padTo l c.wrapperName) := by
    rw [padTo_eq, padTo_eq]
    exact isFree_append (isFree_append (isFree_append (by decide)
      (isFree_append h.isFree_returnName (isFree_spaces _))) (by decide))
      (isFree_append h.wrapperName.isFree (isFree_spaces _))
  have hslot : IsFree (toString c.slot) := isFree_of_isTypeChar fun _ hdigit => by
    simp [isTypeChar, isWordChar_of_mem_toString hdigit]
  have hclosing : IsFree c.closing := by
    rw [closing]
    split <;> decide
  rw [line_eq_bracketed, pieces_bracketed hfirst]
  · rfl
  · simp only [List.forall_mem_cons]
    refine ⟨⟨rfl, h.isFree_declared⟩, ⟨rfl, h.isFree_opening⟩, ⟨rfl, by decide⟩,
      ⟨rfl, h.isFree_castResult⟩, ⟨rfl, by decide⟩, ⟨rfl, by decide⟩, ⟨rfl, h.isFree_castTypes⟩,
      ⟨rfl, by decide⟩, ⟨rfl, by decide⟩, ⟨rfl, hslot⟩, ⟨rfl, by decide⟩, ⟨rfl, by decide⟩,
      ⟨rfl, h.isFree_arguments⟩, ⟨rfl, hclosing⟩, ?_⟩
    exact fun e he => by cases he

/-- The declared parameters are read with their types and names. -/
theorem IsLegible.declared_read (h : c.IsLegible) :
    (members (", ".intercalate c.declared)).map splitLast = c.reading.declared := by
  have hcomma : ∀ text ∈ c.declared, ',' ∉ text.toList := by
    intro text hmem
    rw [declared, List.mem_cons] at hmem
    rcases hmem with rfl | hmem
    · rw [String.toList_append, List.mem_append]
      exact fun hor => hor.elim (h.receiver.not_mem (by decide)) (by decide)
    · obtain ⟨p, hp, rfl⟩ := List.mem_map.1 hmem
      obtain ⟨isConst, name, hname, htype⟩ := h.types p hp
      rw [htype, String.toList_append, String.toList_append, List.mem_append, List.mem_append]
      rintro ((hc | hc) | hc)
      · exact comma_not_mem_of_isTypeChar (fun _ => isTypeChar_of_mem_qualified hname) hc
      · exact absurd hc (by decide)
      · exact (h.names p hp).not_mem (by decide) hc
  have hsplit : ∀ {isConst name parameter}, IsTypeName name → IsIdentifier parameter →
      splitLast (words (qualified isConst name ++ " " ++ parameter)) =
        (qualified isConst name, parameter) := fun hname hparameter => by
    rw [words_append_blank, hparameter.isSolid.words_eq, splitLast_append,
      phrase_words_qualified hname]
  have hne : c.declared ≠ [] := List.cons_ne_nil _ _
  rw [members_intercalate hne hcomma, List.map_map, reading, declared,
    List.map_cons, List.map_map]
  refine congrArg₂ List.cons ?_ ?_
  · have hthis : c.receiver ++ "* this" = qualified false (c.receiver ++ "*") ++ " " ++ "this" := by
      rw [qualified, if_neg Bool.false_ne_true, String.append_assoc, String.append_assoc]
      rfl
    rw [Function.comp_apply, hthis, hsplit (isTypeName_pointer h.receiver) (by decide)]
    rfl
  · refine (List.map_congr_left fun p hp => ?_).trans (List.map_id _)
    obtain ⟨isConst, name, hname, htype⟩ := h.types p hp
    rw [Function.comp_apply, Function.comp_apply, htype, hsplit hname (h.names p hp), ← htype]
    rfl

/-- **The line of a call is read as the call**, whatever the widths of the columns. -/
theorem IsLegible.read_line (h : c.IsLegible) (k l : Nat) :
    read (c.line (padTo k c.returnName) (padTo l c.wrapperName)) = some c.reading := by
  have hhead : (words ("static inline " ++ padTo k c.returnName ++ " " ++
      padTo l c.wrapperName)).drop 2 = words c.returnName ++ [c.wrapperName] := by
    have hstatic : "static inline " = "static" ++ " " ++ "inline" ++ " " := rfl
    have hsolid : IsSolid "static" ∧ IsSolid "inline" :=
      ⟨⟨by decide, by decide⟩, ⟨by decide, by decide⟩⟩
    rw [words_append_blank, words_padTo, h.wrapperName.isSolid.words_eq, hstatic,
      words_append_blank, words_padTo, words_append_blank, hsolid.1.words_eq, hsolid.2.words_eq]
    rfl
  have hkeeps : ((words c.opening).getLast? == some "_return;") = c.viaPointer := by
    rw [opening]
    split
    · rename_i hpointer
      have hvariable : IsSolid "_return;" := ⟨by decide, by decide⟩
      rw [show " _return; " = " " ++ "_return;" ++ spaces 1 from rfl, ← String.append_assoc,
        words_append_spaces, ← String.append_assoc, words_append_blank, hvariable.words_eq,
        List.getLast?_concat, hpointer]
      rfl
    · rename_i hpointer
      rw [Bool.eq_false_iff.2 hpointer]
      split <;> rfl
  have hcasts : (members (", ".intercalate c.castTypes)).map phrase = c.castTypes := by
    have hne : c.castTypes ≠ [] := List.cons_ne_nil _ _
    rw [members_intercalate hne, List.map_map]
    · refine (List.map_congr_left fun text hmem => ?_).trans (List.map_id _)
      obtain ⟨isConst, name, hname, rfl⟩ := h.isTypeName_of_mem_castTypes hmem
      exact phrase_words_qualified hname isConst
    · intro text hmem
      obtain ⟨isConst, name, hname, rfl⟩ := h.isTypeName_of_mem_castTypes hmem
      exact comma_not_mem_of_isTypeChar fun _ => isTypeChar_of_mem_qualified hname
  have harguments : (members (", ".intercalate c.arguments)).map phrase = c.arguments := by
    have hne : c.arguments ≠ [] := List.cons_ne_nil _ _
    rw [members_intercalate hne, List.map_map]
    · refine (List.map_congr_left fun text hmem => ?_).trans (List.map_id _)
      rw [Function.comp_apply, (h.isSolid_of_mem_arguments hmem).1.words_eq, phrase,
        String.intercalate_singleton]
      rfl
    · exact fun text hmem => (h.isSolid_of_mem_arguments hmem).2.2
  have hindex : readNatural (toString c.slot).toList = some c.slot := by
    rw [Nat.toString_eq_ofList_toDigits, String.toList_ofList, readNatural_toDigits]
  simp only [read, h.pieces_line, hindex, hhead, splitLast_append, hkeeps, h.declared_read, hcasts,
    harguments, h.returnName.phrase_words, Option.map_some]
  rfl

end Call

/-! ## 3.  Methods -/

end Wrapper

/-- A method whose names are identifiers, those of its types among them. -/
structure MethodDecl.HasIdentifiers (m : MethodDecl) : Prop where
  returnType : m.returnType.HasIdentifiers
  types : ∀ p ∈ m.parameters, p.type.HasIdentifiers
  names : ∀ p ∈ m.parameters, IsIdentifier p.name

namespace Wrapper

/-- A method that a wrapper is written for, and the time at which it is. -/
structure Site where
  naming : Naming
  /-- What was asked before. -/
  queries : List Naming.Query
  style : WrapperStyle
  receiver : String
  wrapperName : String
  method : MethodDecl
  slot : Nat

/-- All its names are identifiers. -/
structure Site.HasIdentifiers (x : Site) : Prop where
  receiver : IsIdentifier x.receiver
  wrapperName : IsIdentifier x.wrapperName
  method : x.method.HasIdentifiers

/-- The line of the wrapper; a mark of an obsolete method stands before it. -/
def Site.Prints (x : Site) (line : String) : Prop :=
  ∃ lines s, (render x.naming x.style x.receiver x.wrapperName x.method x.slot).perform
    (x.naming.behind x.queries) = (.ok lines, s) ∧ lines.getLast? = some line

/-- The method returns an aggregate, and gets the place for it. -/
def Site.ViaPointer (x : Site) : Prop :=
  ((x.naming.returnsAggregate x.method.returnType).perform (x.naming.behind x.queries)).1 = .ok true

/-- A parameter is declared with its type, its qualifier and its name. -/
def Declares (n : Naming) (p : ParameterDecl) (declared : String × String) : Prop :=
  (∃ name, n.Calls p.type name ∧ declared.1 = qualified p.isConst name) ∧ declared.2 = p.name

/-- **What the line has to say.** -/
structure Reading.Fits (x : Site) (r : Reading) : Prop where
  returnName : x.naming.Calls x.method.returnType r.returnName
  wrapperName : r.wrapperName = x.wrapperName
  self : r.declared.head? = some (x.receiver ++ "*", "this")
  parameters : List.Forall₂ (Declares x.naming) x.method.parameters r.declared.tail
  keepsResult : r.keepsResult = true ↔ x.ViaPointer
  /-- The cast takes the receiver, the place for the result if there is one, and the declared
  parameters. -/
  castTypes : r.castTypes = [x.receiver ++ "*"] ++
    (if r.keepsResult then [r.returnName ++ "*"] else []) ++ r.declared.tail.map (·.1)
  index : r.index = x.slot
  /-- So does the call. -/
  arguments : r.arguments = ["this"] ++ (if r.keepsResult then ["&_return"] else []) ++
    r.declared.tail.map (·.2)

/-- Two parameters that C cannot tell apart. -/
structure SameParameter (n n' : Naming) (p p' : ParameterDecl) : Prop where
  name : p.name = p'.name
  isConst : p.isConst = p'.isConst
  type : ∃ name, n.Calls p.type name ∧ n'.Calls p'.type name

/-- Two methods that are called alike. -/
structure Site.SameCall (x y : Site) : Prop where
  receiver : x.receiver = y.receiver
  wrapperName : x.wrapperName = y.wrapperName
  returnName : ∃ name, x.naming.Calls x.method.returnType name ∧
    y.naming.Calls y.method.returnType name
  parameters : List.Forall₂ (SameParameter x.naming y.naming) x.method.parameters
    y.method.parameters
  slot : x.slot = y.slot
  viaPointer : x.ViaPointer ↔ y.ViaPointer

variable {n n' : Naming} {x y : Site} {ps ps' : List ParameterDecl}
  {declared : List (String × String)}

/-- The types and the names of some parameters, put side by side. -/
theorem declares_zip {types : List Value} {texts : List String}
    (h : List.Forall₂ (fun p v => ∃ name, n.Calls p.type name ∧
      v = .str (qualified p.isConst name)) ps types)
    (htexts : types.mapM Value.asText = .ok texts) :
    List.Forall₂ (Declares n) ps (texts.zip (ps.map (·.name))) := by
  induction h generalizing texts with
  | nil =>
    cases htexts
    exact .nil
  | cons hname _ ih =>
    obtain ⟨name, hcalls, rfl⟩ := hname
    rw [List.mapM_cons, Value.asText_str] at htexts
    obtain ⟨text, htext, htexts⟩ := Result.bind_eq_ok.1 htexts
    obtain ⟨rest, hrest, htexts⟩ := Result.bind_eq_ok.1 htexts
    cases htext
    cases htexts
    exact .cons ⟨⟨name, hcalls, rfl⟩, rfl⟩ (ih hrest)

theorem mem_of_declares (h : List.Forall₂ (Declares n) ps declared) {e : String × String}
    (he : e ∈ declared) : ∃ p ∈ ps, Declares n p e := by
  induction h with
  | nil => cases he
  | cons hp _ ih =>
    rcases List.mem_cons.1 he with rfl | he
    · exact ⟨_, List.mem_cons_self, hp⟩
    · obtain ⟨p, hp, hdeclares⟩ := ih he
      exact ⟨p, List.mem_cons_of_mem _ hp, hdeclares⟩

/-- What is declared determines the parameters. -/
theorem sameParameters (h : List.Forall₂ (Declares n) ps declared)
    (h' : List.Forall₂ (Declares n') ps' declared) (hps : ∀ p ∈ ps, p.type.HasIdentifiers)
    (hps' : ∀ p ∈ ps', p.type.HasIdentifiers) :
    List.Forall₂ (SameParameter n n') ps ps' := by
  induction h generalizing ps' with
  | nil =>
    cases h'
    exact .nil
  | cons hp _ ih =>
    cases h' with
    | cons hp' htail' =>
      obtain ⟨hhead, htail⟩ := List.forall_mem_cons.1 hps
      obtain ⟨hhead', hrest'⟩ := List.forall_mem_cons.1 hps'
      obtain ⟨⟨name, hcalls, htype⟩, hname⟩ := hp
      obtain ⟨⟨name', hcalls', htype'⟩, hname'⟩ := hp'
      obtain ⟨hconst, rfl⟩ := qualified_injective (hcalls.isTypeName hhead)
        (hcalls'.isTypeName hhead') (htype.symm.trans htype')
      exact .cons ⟨hname.symm.trans hname', hconst, name, hcalls, hcalls'⟩
        (ih htail' htail hrest')

theorem eq_padTo {room : Nat} {width : Int} {text padded : String}
    (h : column room width text = .ok padded) : padded = padTo width.toNat text := by
  rw [column] at h
  split at h
  · cases h
  · exact (filling_eq_ok_iff.1 h).2.symm

/-- The line is the line of a call that fits. -/
theorem Site.Prints.call {line : String} (hx : x.HasIdentifiers) (h : x.Prints line) :
    ∃ c : Call, c.reading.Fits x ∧ c.receiver = x.receiver ∧
      line = c.line (padTo x.style.returnWidth.toNat c.returnName)
        (padTo x.style.nameWidth.toNat c.wrapperName) := by
  obtain ⟨lines, s', h, hlast⟩ := h
  have hs := x.naming.sound_behind x.queries
  obtain ⟨v, t, types, u, returnColumn, nameColumn, viaPointer, texts, hreturn, htypes,
    hreturnColumn, hnameColumn, hviaPointer, -, htexts, rfl⟩ := render_ok h
  obtain ⟨returnName, rfl, hcalls, ht⟩ := Naming.name_called hs hx.method.returnType hreturn
  obtain ⟨hcalled, hu⟩ := Naming.parameterNames_called ht hx.method.types htypes
  have hasked : viaPointer = true ↔ x.ViaPointer := by
    rw [ViaPointer, ← Naming.returnsAggregate_congr hu hs hx.method.returnType.isTextual,
      hviaPointer, Except.ok.injEq]
  rw [List.getLast?_concat, eq_padTo hreturnColumn, eq_padTo hnameColumn] at hlast
  let c : Call := {
    receiver := x.receiver, wrapperName := x.wrapperName, slot := x.slot, returnName, viaPointer
    parameters := texts.zip (x.method.parameters.map (·.name)) }
  exact ⟨c, ⟨hcalls, rfl, rfl, declares_zip hcalled htexts, hasked, rfl, rfl, rfl⟩, rfl,
    (Option.some.inj hlast).symm⟩

/-- A call that fits is made of identifiers and names of types. -/
theorem Reading.Fits.isLegible {c : Call} (h : c.reading.Fits x) (hx : x.HasIdentifiers)
    (hreceiver : c.receiver = x.receiver) : c.IsLegible where
  receiver := hreceiver ▸ hx.receiver
  wrapperName := (show c.wrapperName = x.wrapperName from h.wrapperName) ▸ hx.wrapperName
  returnName := h.returnName.isTypeName hx.method.returnType
  types e he := by
    obtain ⟨p, hp, ⟨name, hcalls, htype⟩, -⟩ := mem_of_declares h.parameters he
    exact ⟨p.isConst, name, hcalls.isTypeName (hx.method.types p hp), htype⟩
  names e he := by
    obtain ⟨p, hp, -, hname⟩ := mem_of_declares h.parameters he
    exact hname ▸ hx.method.names p hp

theorem Site.Prints.read {line : String} (hx : x.HasIdentifiers) (h : x.Prints line) :
    ∃ r, Wrapper.read line = some r ∧ r.Fits x := by
  obtain ⟨c, hfits, hreceiver, rfl⟩ := h.call hx
  exact ⟨c.reading, (hfits.isLegible hx hreceiver).read_line _ _, hfits⟩

/-- What a line says determines what is called. -/
theorem Reading.Fits.sameCall {r : Reading} (h : r.Fits x) (h' : r.Fits y)
    (hx : x.HasIdentifiers) (hy : y.HasIdentifiers) : x.SameCall y where
  receiver := by
    have hself := Option.some.inj (h.self.symm.trans h'.self)
    exact (String.append_left_inj _).1 (Prod.mk.inj hself).1
  wrapperName := h.wrapperName.symm.trans h'.wrapperName
  returnName := ⟨r.returnName, h.returnName, h'.returnName⟩
  parameters := sameParameters h.parameters h'.parameters hx.method.types hy.method.types
  slot := h.index.symm.trans h'.index
  viaPointer := h.keepsResult.symm.trans h'.keepsResult

/-- A member gets an identifier for its name. -/
theorem isIdentifier_freshName {receiver name : String} (hreceiver : IsIdentifier receiver)
    (hname : IsIdentifier name) (taken : List String) :
    IsIdentifier (receiver ++ "_" ++ freshName taken name) := by
  have hmember : IsIdentifier (freshName taken name) := by
    have hcalled := freshName_called taken name
    generalize freshName taken name = member at hcalled ⊢
    cases hcalled with
    | own _ => exact hname
    | numbered _ _ _ _ => exact hname.append fun _ => isWordChar_of_mem_toString
  exact (hreceiver.append (List.all_eq_true.1 (by decide))).append hmember.2.2

/-- **The line of a wrapper determines its call.**  Whatever was asked before: the line of a method
whose names are identifiers is read as a call of its slot with the declared parameters, behind the
receiver and the place for the result, and with the types that the cast gives to them; and methods
that are printed as the same line are called alike.  The names that members get keep to the
condition. -/
theorem render_legible :
    (∀ (x : Site) (line : String), x.HasIdentifiers → x.Prints line →
      ∃ r, read line = some r ∧ r.Fits x) ∧
    (∀ (x y : Site) (line : String), x.HasIdentifiers → y.HasIdentifiers → x.Prints line →
      y.Prints line → x.SameCall y) ∧
    (∀ (receiver name : String) (taken : List String), IsIdentifier receiver →
      IsIdentifier name → IsIdentifier (receiver ++ "_" ++ freshName taken name)) := by
  refine ⟨fun x line hx h => h.read hx, fun x y line hx hy h h' => ?_,
    fun _ _ taken hreceiver hname => isIdentifier_freshName hreceiver hname taken⟩
  obtain ⟨r, hr, hfits⟩ := h.read hx
  obtain ⟨r', hr', hfits'⟩ := h'.read hy
  obtain rfl : r = r' := Option.some.inj (hr.symm.trans hr')
  exact hfits.sameCall hfits' hx hy

/-- The box of a shape, wrapped for a circle. -/
def circleBox : Site where
  naming := ⟨.ofList boxedShapes, []⟩
  queries := []
  style := { returnWidth := 4, nameWidth := 12, generalize := true }
  receiver := "ICircle"
  wrapperName := "ICircle_Box"
  method := box
  slot := 1

/-- The line of it. -/
def circleBoxLine : String :=
  "static inline BOX  ICircle_Box (ICircle* this, FLOAT scale) \x7b BOX _return; " ++
    "((void (WINAPI*)(ICircle*, BOX*, FLOAT))this->v->tbl[1])(this, &_return, scale); " ++
    "return _return; \x7d"

theorem circleBox_legible :
    circleBox.HasIdentifiers ∧ circleBox.Prints circleBoxLine ∧
      ∃ r, read circleBoxLine = some r ∧ r.Fits circleBox ∧ r.keepsResult = true := by
  have hidentifiers : circleBox.HasIdentifiers := {
    receiver := by decide
    wrapperName := by decide
    method := {
      returnType := ⟨.inr ⟨_, rfl⟩, ⟨_, rfl, by decide⟩, .inl rfl⟩
      types := by
        intro p hp
        obtain rfl := List.mem_singleton.1 hp
        exact ⟨_, rfl⟩
      names := by decide } }
  have hprints : circleBox.Prints circleBoxLine := by
    have hlines : ((render ⟨.ofList boxedShapes, []⟩ circleBox.style "ICircle" "ICircle_Box" box
        1).perform {}).1.toOption = some [circleBoxLine] := by
      decide +kernel
    exact ⟨_, _, Prod.ext (Result.eq_ok_of_toOption hlines) rfl, rfl⟩
  obtain ⟨r, hr, hfits⟩ := render_legible.1 circleBox circleBoxLine hidentifiers hprints
  have hpointer : circleBox.ViaPointer := by
    have hasked : ((Naming.returnsAggregate ⟨.ofList boxedShapes, []⟩ box.returnType).perform
        {}).1.toOption = some true := by
      decide +kernel
    exact Result.eq_ok_of_toOption hasked
  exact ⟨hidentifiers, hprints, r, hr, hfits, hfits.keepsResult.2 hpointer⟩

end Wrapper

end ComHeaders
