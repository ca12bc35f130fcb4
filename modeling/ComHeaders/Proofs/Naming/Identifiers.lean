import ComHeaders.Proofs.Literals.Integers
import ComHeaders.Proofs.Naming.Aggregates
import ComHeaders.Proofs.Texts

/-!
# Names made of identifiers

Where the metadata has identifiers for names, what the rules give is a name of a type: an identifier
with stars behind it, and with the tag of enums in front of it or not.  Such a name can be found
again in the text around it.

## 1.  Identifiers

An identifier is one word and has none of the marks that lines are put together with.

## 2.  Names of types

A name of a type is the phrase of its words (`IsTypeName.phrase_words`).  A parameter's type can have
its qualifier in front, and both can be told from the text (`qualified_injective`).

## 3.  Names by the rules

`isTypeName_of_plainName` is about the rules, `name_called` about memory.
-/

namespace ComHeaders

/-! ## 1.  Identifiers -/

/-- Letters, digits and the underscore. -/
def isWordChar (c : Char) : Bool := c.isAlphanum || c == '_'

/-- An identifier of C. -/
def IsIdentifier (text : String) : Prop :=
  text ≠ "" ∧ (∀ c ∈ text.toList.head?, c.isDigit = false) ∧ ∀ c ∈ text.toList, isWordChar c = true

instance : DecidablePred IsIdentifier := fun text =>
  decidable_of_iff (text != "" && text.toList.head?.all (fun c => !c.isDigit) &&
    text.toList.all isWordChar)
    (by cases hfirst : text.toList.head? <;> simp [IsIdentifier, hfirst, and_assoc])

theorem IsIdentifier.not_mem {text : String} (h : IsIdentifier text) {c : Char}
    (hc : isWordChar c = false) : c ∉ text.toList := by
  intro hmem
  rw [h.2.2 c hmem] at hc
  cases hc

theorem IsIdentifier.isSolid {text : String} (h : IsIdentifier text) : IsSolid text :=
  ⟨h.1, h.not_mem (by decide)⟩

theorem IsIdentifier.append {text more : String} (h : IsIdentifier text)
    (hmore : ∀ c ∈ more.toList, isWordChar c = true) : IsIdentifier (text ++ more) := by
  obtain ⟨hne, hhead, hall⟩ := h
  refine ⟨fun hempty => hne (String.append_eq_empty_iff.1 hempty).1, ?_, fun c hc => ?_⟩
  · have hlist : text.toList ≠ [] := mt String.toList_eq_nil_iff.1 hne
    rw [String.toList_append, List.head?_append_of_ne_nil _ hlist]
    exact hhead
  · rw [String.toList_append, List.mem_append] at hc
    exact hc.elim (hall c) (hmore c)

theorem isWordChar_of_mem_toDigits {n : Nat} {c : Char} (h : c ∈ Nat.toDigits 10 n) :
    isWordChar c = true := by
  have hdigits : ∀ d < 10, isWordChar (Nat.digitChar d) = true := by decide
  obtain ⟨d, hd, rfl⟩ := mem_toDigits (by decide) h
  exact hdigits d hd

theorem isWordChar_of_mem_toString {n : Nat} {c : Char} (h : c ∈ (toString n).toList) :
    isWordChar c = true := by
  rw [Nat.toString_eq_ofList_toDigits, String.toList_ofList] at h
  exact isWordChar_of_mem_toDigits h

/-! ## 2.  Names of types -/

/-- An identifier with stars behind it, and with a tag in front of it or not. -/
def IsTypeName (text : String) : Prop :=
  ∃ core k, IsIdentifier core ∧
    (text = core ++ Naming.stars k ∨ text = "enum " ++ (core ++ Naming.stars k))

/-- The characters of names of types. -/
def isTypeChar (c : Char) : Bool := isWordChar c || c == ' ' || c == '*'

theorem mem_stars {k : Nat} {c : Char} (h : c ∈ (Naming.stars k).toList) : c = '*' := by
  rw [Naming.stars, String.toList_ofList] at h
  exact List.eq_of_mem_replicate h

/-- An identifier with stars is one word. -/
theorem isSolid_starred {core : String} (h : IsIdentifier core) (k : Nat) :
    IsSolid (core ++ Naming.stars k) := by
  constructor
  · intro hempty
    exact h.1 (String.append_eq_empty_iff.1 hempty).1
  · rw [String.toList_append, List.mem_append]
    rintro (hmem | hmem)
    · exact h.not_mem (by decide) hmem
    · cases mem_stars hmem

namespace IsTypeName

variable {text text' : String}

/-- A name of a type is one word, or two of which the first is the tag. -/
theorem words_eq (h : IsTypeName text) :
    ∃ w, IsSolid w ∧ ((text = w ∧ words text = [w]) ∨
      (text = "enum " ++ w ∧ words text = ["enum", w])) := by
  obtain ⟨core, k, hcore, htext⟩ := h
  have hsolid := isSolid_starred hcore k
  refine ⟨core ++ Naming.stars k, hsolid, htext.imp (fun htext => ?_) fun htext => ?_⟩
  · exact ⟨htext, htext ▸ hsolid.words_eq⟩
  · have htag : IsSolid "enum" := ⟨by decide, by decide⟩
    refine ⟨htext, ?_⟩
    rw [htext, show "enum " = "enum" ++ " " from rfl, words_append_blank, htag.words_eq,
      hsolid.words_eq]
    rfl

/-- **A name of a type is the phrase of its words.** -/
theorem phrase_words (h : IsTypeName text) : phrase (words text) = text := by
  obtain ⟨w, -, ⟨htext, hwords⟩ | ⟨htext, hwords⟩⟩ := h.words_eq
  · rw [hwords, htext, phrase, String.intercalate_singleton]
  · rw [hwords, htext, phrase, String.intercalate_cons_cons, String.intercalate_singleton]
    rfl

theorem isTypeChar_of_mem (h : IsTypeName text) {c : Char} (hc : c ∈ text.toList) :
    isTypeChar c = true := by
  have hcore : ∀ {core : String} {k : Nat}, IsIdentifier core →
      c ∈ (core ++ Naming.stars k).toList → isTypeChar c = true := by
    intro core k hcore hmem
    rw [String.toList_append, List.mem_append] at hmem
    rcases hmem with hmem | hmem
    · simp [isTypeChar, hcore.2.2 c hmem]
    · simp [isTypeChar, mem_stars hmem]
  have htag : ∀ c ∈ "enum ".toList, isTypeChar c = true :=
    List.all_eq_true.1 (by decide)
  obtain ⟨core, k, hidentifier, rfl | rfl⟩ := h
  · exact hcore hidentifier hc
  · rw [String.toList_append, List.mem_append] at hc
    exact hc.elim (htag c) (hcore hidentifier)

theorem isTypeChar_of_mem_words (h : IsTypeName text) {w : String} (hw : w ∈ words text) {c : Char}
    (hc : c ∈ w.toList) : isTypeChar c = true := by
  have htag : ∀ c ∈ "enum".toList, isTypeChar c = true := List.all_eq_true.1 (by decide)
  obtain ⟨v, -, ⟨htext, hwords⟩ | ⟨htext, hwords⟩⟩ := h.words_eq
  · rw [hwords, List.mem_singleton] at hw
    exact h.isTypeChar_of_mem (htext ▸ hw ▸ hc)
  · rw [hwords, List.mem_cons, List.mem_singleton] at hw
    rcases hw with rfl | rfl
    · exact htag c hc
    · refine h.isTypeChar_of_mem ?_
      rw [htext, String.toList_append, List.mem_append]
      exact .inr hc

theorem append_stars (h : IsTypeName text) (k : Nat) : IsTypeName (text ++ Naming.stars k) := by
  obtain ⟨core, l, hcore, htext⟩ := h
  have hstars : Naming.stars l ++ Naming.stars k = Naming.stars (l + k) := by
    rw [← String.toList_inj]
    simp [Naming.stars]
  refine ⟨core, l + k, hcore, htext.imp (fun htext => ?_) fun htext => ?_⟩
  · rw [htext, String.append_assoc, hstars]
  · rw [htext, String.append_assoc, String.append_assoc, hstars]

end IsTypeName

theorem IsIdentifier.isTypeName {text : String} (h : IsIdentifier text) : IsTypeName text :=
  ⟨text, 0, h, .inl (String.append_empty).symm⟩

theorem isTypeName_tagged {core : String} (h : IsIdentifier core) : IsTypeName ("enum " ++ core) :=
  ⟨core, 0, h, .inr (congrArg _ (String.append_empty).symm)⟩

theorem isTypeName_pointer {core : String} (h : IsIdentifier core) : IsTypeName (core ++ "*") :=
  ⟨core, 1, h, .inl rfl⟩

theorem isBracket_of_isTypeChar {c : Char} (h : isTypeChar c = true) : isBracket c = false := by
  rw [Bool.eq_false_iff]
  intro hbracket
  have hbrackets : ((c = '(' ∨ c = ')') ∨ c = '[') ∨ c = ']' := by simpa [isBracket] using hbracket
  have hnot : isTypeChar '(' = false ∧ isTypeChar ')' = false ∧ isTypeChar '[' = false ∧
      isTypeChar ']' = false := by
    decide
  rcases hbrackets with ((rfl | rfl) | rfl) | rfl <;> simp_all

theorem isFree_of_isTypeChar {text : String} (h : ∀ c ∈ text.toList, isTypeChar c = true) :
    IsFree text :=
  fun c hc => isBracket_of_isTypeChar (h c hc)

theorem comma_not_mem_of_isTypeChar {text : String} (h : ∀ c ∈ text.toList, isTypeChar c = true) :
    ',' ∉ text.toList := by
  intro hc
  exact absurd (h _ hc) (by decide)

theorem IsIdentifier.isFree {text : String} (h : IsIdentifier text) : IsFree text :=
  isFree_of_isTypeChar fun _ => h.isTypeName.isTypeChar_of_mem

/-- A name of a type with the qualifier of a parameter. -/
def qualified (isConst : Bool) (name : String) : String :=
  if isConst then "const " ++ name else name

theorem words_qualified (isConst : Bool) (name : String) :
    words (qualified isConst name) = (if isConst then ["const"] else []) ++ words name := by
  have hconst : IsSolid "const" := ⟨by decide, by decide⟩
  rw [qualified]
  split
  · rw [show "const " = "const" ++ " " from rfl, words_append_blank, hconst.words_eq]
  · rfl

theorem phrase_words_qualified {name : String} (h : IsTypeName name) (isConst : Bool) :
    phrase (words (qualified isConst name)) = qualified isConst name := by
  rw [words_qualified]
  cases isConst with
  | false => exact h.phrase_words
  | true =>
    obtain ⟨w, -, ⟨htext, hwords⟩ | ⟨htext, hwords⟩⟩ := h.words_eq
    · rw [hwords, htext]
      rfl
    · rw [hwords, htext]
      rfl

theorem isTypeChar_of_mem_qualified {name : String} (h : IsTypeName name) {isConst : Bool}
    {c : Char} (hc : c ∈ (qualified isConst name).toList) : isTypeChar c = true := by
  have hconst : ∀ c ∈ "const ".toList, isTypeChar c = true :=
    List.all_eq_true.1 (by decide)
  rw [qualified] at hc
  split at hc
  · rw [String.toList_append, List.mem_append] at hc
    exact hc.elim (hconst c) h.isTypeChar_of_mem
  · exact h.isTypeChar_of_mem hc

/-- No name of a type has the words of another one behind the qualifier. -/
theorem const_words_ne {name name' : String} (h : IsTypeName name) (h' : IsTypeName name') :
    "const" :: words name ≠ words name' := by
  intro heq
  obtain ⟨w, -, hw⟩ := h.words_eq
  have hne : words name ≠ [] := by
    rcases hw with ⟨-, hwords⟩ | ⟨-, hwords⟩ <;> rw [hwords] <;> exact List.cons_ne_nil _ _
  obtain ⟨w', -, ⟨-, hwords⟩ | ⟨-, hwords⟩⟩ := h'.words_eq
  · rw [hwords, List.cons.injEq] at heq
    exact hne heq.2
  · rw [hwords, List.cons.injEq] at heq
    exact absurd heq.1 (by decide)

/-- **The qualifier can be told from the name.** -/
theorem qualified_injective {isConst isConst' : Bool} {name name' : String} (h : IsTypeName name)
    (h' : IsTypeName name') (heq : qualified isConst name = qualified isConst' name') :
    isConst = isConst' ∧ name = name' := by
  have hwords := congrArg words heq
  rw [words_qualified, words_qualified] at hwords
  have hsame : words name = words name' → name = name' := fun hwords => by
    rw [← h.phrase_words, hwords, h'.phrase_words]
  cases isConst with
  | false =>
    cases isConst' with
    | false => exact ⟨rfl, hsame hwords⟩
    | true => exact absurd hwords.symm (const_words_ne h' h)
  | true =>
    cases isConst' with
    | false => exact absurd hwords (const_words_ne h h')
    | true => exact ⟨rfl, hsame (List.cons.inj hwords).2⟩

/-! ## 3.  Names by the rules -/

/-- A textual reference whose name is an identifier if it is none of a primitive. -/
def TypeRef.HasIdentifiers : TypeRef → Prop
  | void => True
  | primitive name => ∃ k, name = .str k
  | pointer element => element.HasIdentifiers
  | array element _ => element.HasIdentifiers
  | named ns name declaring _ =>
    ns.IsOptionalText ∧ (∃ k, name = .str k ∧ IsIdentifier k) ∧ declaring.IsOptionalText

namespace TypeRef.HasIdentifiers

variable {r : TypeRef}

theorem isTextual (h : r.HasIdentifiers) : r.IsTextual := by
  induction r with
  | void => trivial
  | primitive _ => exact h
  | pointer _ ih => exact ih h
  | array _ _ ih => exact ih h
  | named _ _ _ _ =>
    obtain ⟨hns, ⟨k, hk, -⟩, hdeclaring⟩ := h
    exact ⟨hns, ⟨k, hk⟩, hdeclaring⟩

theorem innermost (h : r.HasIdentifiers) : r.innermost.HasIdentifiers := by
  induction r with
  | pointer _ ih => exact ih h
  | array _ _ ih => exact ih h
  | _ => exact h

end TypeRef.HasIdentifiers

namespace Naming

variable {n : Naming} {s s' : Session} {r : TypeRef} {v : Value} {base : String}

theorem isIdentifier_alias {e : String × String} (h : e ∈ primitiveAliases) : IsIdentifier e.2 := by
  have hall : ∀ e ∈ primitiveAliases, IsIdentifier e.2 := by decide
  exact hall e h

/-- The rules give names of types. -/
theorem Given.isTypeName (h : Given n r base) (hr : r.HasIdentifiers) : IsTypeName base := by
  have hname : ∀ {ns declaring : Value} {name : String} {isValue : Bool},
      (TypeRef.named ns (.str name) declaring isValue).HasIdentifiers → IsIdentifier name := by
    rintro ns declaring name isValue ⟨-, ⟨k, hk, hidentifier⟩, -⟩
    obtain rfl : name = k := Value.str.inj hk
    exact hidentifier
  cases h with
  | void => exact IsIdentifier.isTypeName (by decide)
  | guid _ => exact IsIdentifier.isTypeName (by decide)
  | wide _ _ => exact isTypeName_pointer (show IsIdentifier "WCHAR" by decide)
  | primitive _ halias => exact (isIdentifier_alias halias).isTypeName
  | tagged _ _ => exact isTypeName_tagged (hname hr)
  | interface _ _ _ _ => exact isTypeName_pointer (hname hr)
  | own _ _ _ => exact (hname hr).isTypeName

/-- **A reference that has identifiers has a name of a type**, if it has a name. -/
theorem isTypeName_of_plainName (hr : r.HasIdentifiers) (h : n.plainName r = .ok v) :
    ∃ name, v = .str name ∧ IsTypeName name := by
  obtain ⟨base, hbase⟩ | ⟨_, hnone⟩ := given_or_isUnaliased n hr.isTextual
  · rw [plainName_of_given hbase] at h
    exact ⟨_, (Except.ok.inj h).symm, (hbase.isTypeName hr.innermost).append_stars _⟩
  · rw [plainName_of_isUnaliased hnone] at h
    cases h

/-- What a reference is called. -/
def Calls (n : Naming) (r : TypeRef) (name : String) : Prop := n.plainName r = .ok (.str name)

theorem Calls.isTypeName {name : String} (h : n.Calls r name) (hr : r.HasIdentifiers) :
    IsTypeName name := by
  obtain ⟨_, heq, hname⟩ := isTypeName_of_plainName hr h
  exact Value.str.inj heq ▸ hname

/-- With a sound memory a reference that has identifiers is called what the rules say. -/
theorem name_called (hs : n.Sound s) (hr : r.HasIdentifiers)
    (h : (n.name r).perform s = (.ok v, s')) :
    ∃ name, v = .str name ∧ n.Calls r name ∧ n.Sound s' := by
  obtain ⟨hsound, hname⟩ := namesBy_name n r s hs
  rw [h] at hsound hname
  have hplain : n.plainName r = .ok v := (hname hr.isTextual).symm
  obtain ⟨name, rfl, -⟩ := isTypeName_of_plainName hr hplain
  exact ⟨name, rfl, hplain, hsound⟩

/-- The types of some parameters are called what the rules say, with their qualifiers. -/
theorem parameterNames_called {ps : List ParameterDecl} {types : List Value} (hs : n.Sound s)
    (hps : ∀ p ∈ ps, p.type.HasIdentifiers)
    (h : (ps.mapM fun p => n.parameterName p.type p.isConst).perform s = (.ok types, s')) :
    List.Forall₂ (fun p v => ∃ name, n.Calls p.type name ∧ v = .str (qualified p.isConst name))
      ps types ∧ n.Sound s' := by
  refine Pass.forall₂_of_mapM (fun p hp t v t' ht hv => ?_) hs h
  obtain ⟨found, u, hname, hqualified⟩ := Pass.perform_bind_ok.1 hv
  rw [Pass.perform_pure, Prod.mk.injEq, Except.ok.injEq] at hqualified
  obtain ⟨rfl, rfl⟩ := hqualified
  obtain ⟨name, rfl, hcalls, ht'⟩ := name_called ht (hps p hp) hname
  refine ⟨⟨name, hcalls, ?_⟩, ht'⟩
  rw [qualified]
  split
  · rfl
  · rfl

/-- The session behind some queries. -/
def behind (n : Naming) (queries : List Query) : Session := queries.foldl (Query.after n) {}

theorem sound_behind (n : Naming) (queries : List Query) : n.Sound (n.behind queries) :=
  sound_history n queries

theorem returnsAggregate_congr {t : Session} (hs : n.Sound s) (ht : n.Sound t)
    (hr : r.IsTextual) :
    ((n.returnsAggregate r).perform s).1 = .ok true ↔
      ((n.returnsAggregate r).perform t).1 = .ok true := by
  rw [returnsAggregate_iff hs hr, returnsAggregate_iff ht hr]

end Naming

end ComHeaders
