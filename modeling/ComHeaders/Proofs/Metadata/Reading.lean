import ComHeaders.Metadata.Repository
import ComHeaders.Proofs.Pass
import Mathlib.Data.List.Forall2

/-!
# Reading entries

A definition is read from its entry part by part.  This file says how the parts are read, so that
nothing else has to open the readers.

## 1.  References

The kind of a reference is the text under one member, and decides what else is read.  The reader of
references goes down through their elements; the equations here state its cases one by one.

## 2.  Lists

The entries of a list are read one after the other, up to the first one that cannot be read.

## 3.  Definitions and documents

A definition has a label if its entry is an object.  A repository is made of what a document
defines.  Making it fails only if a definition cannot be indexed, and then its name stands alone and
is no text (`build_perform_fst`).
-/

namespace ComHeaders

/-! ## 1.  References -/

theorem memberOf_of_lookup {members : List (String × Value)} {key : String} {v : Value}
    (h : members.lookup key = some v) : memberOf (.object members) key = .ok v := by
  simp only [memberOf, Value.member, h]
  rfl

theorem memberOf_of_lookup_none {members : List (String × Value)} {key : String}
    (h : members.lookup key = none) :
    memberOf (.object members) key = .error (.fault (.missingKey key)) := by
  simp only [memberOf, Value.member, h]
  rfl

namespace TypeRef

variable {entry : Value}

theorem kindOf?_of_lookup {members : List (String × Value)} {k : String}
    (h : members.lookup "kind" = some (.str k)) : kindOf? (.object members) = some k := by
  simp only [kindOf?, h]

theorem exists_object_of_kindOf? {k : String} (h : kindOf? entry = some k) :
    ∃ members, entry = .object members := by
  cases entry with
  | object members => exact ⟨members, rfl⟩
  | _ => cases h

theorem decode_void (h : kindOf? entry = some "void") : decode entry = .ok .void := by
  simp only [decode, h]

theorem decode_primitive (h : kindOf? entry = some "primitive") :
    decode entry = do return .primitive (← memberOf entry "name") := by
  simp only [decode, h]

theorem decode_pointer (h : kindOf? entry = some "pointer") :
    decode entry = do return .pointer (← decode (← memberOf entry "element")) := by
  obtain ⟨members, rfl⟩ := exists_object_of_kindOf? h
  simp only [decode, h]
  split
  · rename_i hnone
    rw [memberOf_of_lookup_none hnone]
    rfl
  · rename_i element helement
    rw [memberOf_of_lookup helement]
    rfl

theorem decode_array (h : kindOf? entry = some "array") :
    decode entry = do
      let element ← decode (← memberOf entry "element")
      let length ← memberOf entry "length"
      return .array element (← faulty length.toInteger) := by
  obtain ⟨members, rfl⟩ := exists_object_of_kindOf? h
  simp only [decode, h]
  split
  · rename_i hnone
    rw [memberOf_of_lookup_none hnone]
    rfl
  · rename_i element helement
    rw [memberOf_of_lookup helement]
    rfl

theorem decode_named (h : kindOf? entry = some "named") :
    decode entry = do
      let ns ← optionalMember entry "namespace" (.str "")
      let name ← memberOf entry "name"
      let isValueType ← flagOf entry "value_type"
      let declaring ← optionalMember entry "declaring_type" .null
      return .named ns name declaring isValueType := by
  simp only [decode, h]

/-- What is of none of the five kinds is no reference. -/
theorem decode_of_not_mem (h : ∀ k, kindOf? entry = some k →
    k ∉ ["void", "primitive", "pointer", "array", "named"]) :
    decode entry = .error (.invalidReference entry) := by
  have hne (k : String) (hk : k ∈ ["void", "primitive", "pointer", "array", "named"]) :
      kindOf? entry ≠ some k := fun heq => h k heq hk
  rw [decode.eq_def]
  split
  case h_1 hk => exact absurd hk (hne "void" (by decide))
  case h_2 hk => exact absurd hk (hne "primitive" (by decide))
  case h_3 hk => exact absurd hk (hne "pointer" (by decide))
  case h_4 hk => exact absurd hk (hne "array" (by decide))
  case h_5 hk => exact absurd hk (hne "named" (by decide))
  case h_6 => rfl

end TypeRef

/-! ## 2.  Lists -/

namespace Result

variable {ε α β : Type} {f : α → Except ε β} {l : List α}

/-- A list is read if each of its members is. -/
theorem mapM_eq_ok {bs : List β} :
    l.mapM f = .ok bs ↔ List.Forall₂ (fun a b => f a = .ok b) l bs := by
  induction l generalizing bs with
  | nil =>
    rw [List.mapM_nil, List.forall₂_nil_left_iff]
    show Except.ok [] = Except.ok bs ↔ bs = []
    rw [Except.ok.injEq, eq_comm]
  | cons a l ih =>
    rw [List.mapM_cons, List.forall₂_cons_left_iff]
    constructor
    · intro h
      obtain ⟨b, hb, h⟩ := bind_eq_ok.1 h
      obtain ⟨rest, hrest, h⟩ := bind_eq_ok.1 h
      cases h
      exact ⟨b, rest, hb, ih.1 hrest, rfl⟩
    · rintro ⟨b, rest, hb, hrest, rfl⟩
      exact bind_eq_ok.2 ⟨b, hb, bind_eq_ok.2 ⟨rest, ih.2 hrest, rfl⟩⟩

end Result

/-! ## 3.  Definitions and documents -/

/-- Objects, and nothing else, have a label. -/
theorem TypeDef.exists_label_iff {entry : Value} :
    (∃ l, TypeDef.label entry = .ok l) ↔ ∃ members, entry = .object members := by
  constructor
  · rintro ⟨l, hl⟩
    cases entry with
    | object members => exact ⟨members, rfl⟩
    | _ => cases hl
  · rintro ⟨members, rfl⟩
    exact ⟨_, rfl⟩

namespace TypeDef

theorem mapNames_text_str (d : TypeDef) : (d.mapNames .str).mapNames Value.text = d := by
  simp [mapNames, Field.mapNames, Method.mapNames, Parameter.mapNames, Function.comp_def]

theorem key_mapNames_str (d : TypeDef) : (d.mapNames .str).key = .str d.fullName :=
  TypeRef.qualify_str d.namespaceName d.declaringType d.name

end TypeDef

namespace Repository

/-- Keys are announced up to the first one that can be none. -/
theorem announceDuplicates_run (known keys : List Value) (j : Journal) :
    ((∀ k ∈ keys, k.isKey = true) ∧
      ∃ known' j', (announceDuplicates known keys).run.run j = (.ok known', j')) ∨
    ((∃ k ∈ keys, k.isKey = false) ∧
      ∃ j', (announceDuplicates known keys).run.run j = (.error (.fault .wrongKind), j')) := by
  induction keys generalizing known j with
  | nil => exact .inl ⟨nofun, known, j, rfl⟩
  | cons key rest ih =>
    rw [announceDuplicates]
    cases hkey : key.isKey with
    | false => exact .inr ⟨⟨key, List.mem_cons_self, hkey⟩, j, rfl⟩
    | true =>
      obtain ⟨j₁, hj₁⟩ : ∃ j₁, (do
          if !true then throw (.fault .wrongKind)
          if known.any (key.sameKey ·) then
            note (.plain .repository .warning s!"Duplicate type definition ignored: {key.text}")
          announceDuplicates (insertKey known key) rest : Logged (List Value)).run.run j =
            (announceDuplicates (insertKey known key) rest).run.run j₁ := by
        cases known.any (key.sameKey ·) with
        | false => exact ⟨j, rfl⟩
        | true => exact ⟨j.push _, rfl⟩
      rw [hj₁]
      simpa [hkey] using ih (insertKey known key) j₁

/-- What comes of the definitions of a document. -/
def built (ds : List (TypeDef Value)) : Except Failure Repository :=
  if ds.all (·.key.isKey) then .ok (ofList (ds.map (TypeDef.mapNames Value.text)))
  else .error (.fault .wrongKind)

/-- **Building a repository** ends well if the definitions have keys. -/
theorem build_perform_fst (ds : List (TypeDef Value)) : (build ds).perform.1 = built ds := by
  rw [Logged.perform, build, ExceptT.run_bind, StateT.run_bind, built]
  rcases announceDuplicates_run [] (ds.map TypeDef.key) #[] with
    ⟨hkeys, known, j, hj⟩ | ⟨hnone, j, hj⟩
  · rw [hj, if_pos (by simpa using hkeys)]
    rfl
  · rw [hj, if_neg (by simpa using hnone)]
    rfl

theorem built_texts (ds : List TypeDef) :
    built (ds.map (TypeDef.mapNames .str)) = .ok (ofList ds) := by
  rw [built, if_pos, List.map_map]
  · simp only [Function.comp_def, TypeDef.mapNames_text_str, List.map_id']
  · simp [TypeDef.key_mapNames_str, Value.isKey]

/-- **The repository of a document** is that of its definitions, if these can be read. -/
theorem ofDocument_perform_fst (document : Value) :
    (ofDocument document).perform.1 = decodeDocument document >>= built := by
  rw [ofDocument]
  rcases hds : decodeDocument document with e | ds
  · rfl
  · exact build_perform_fst ds

end Repository

end ComHeaders
