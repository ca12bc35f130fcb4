import ComHeaders.Proofs.Classification
import ComHeaders.Proofs.Naming.Agreement
import ComHeaders.Proofs.StructOrder.Outcome
import ComHeaders.Sections

/-!
# What the sections of a header depend on

The sections of a header are written from declarations.  They ask for the names of the references
that the declarations mention, for the base chains of interfaces, and for nothing else.  This file
goes through the sections one by one and says so: written with namings that concur on these
references, and with base chains that agree, a section comes out the same.  Every reference that
is mentioned is also asked for, so what can be said of a reference once it has got a name holds of
all of them when the section is done.

## 1.  Mentioning

A declaration mentions the types of its members, parameters and results.

## 2.  Wrappers

The walk along the base chain looks up bases and takes names out of a list, whose order does not
matter.

## 3.  Structs

The lines of a struct follow the nesting of its fields.

## 4.  The other sections

Those that need no names depend on the declarations alone.

## 5.  The whole header

`agree_headerText` is the result.

## 6.  Declarations in another order

The tables of declarations keep the order in which the metadata lists things.  The sections forget
that order: they go through a table sorted by its keys, or ask for the longest of its keys
(`headerText_eq`).
-/

namespace ComHeaders

open Pass (Agree)
open Naming (Concur)

/-! ## 1.  Mentioning -/

/-- A reference that is the type of a result or a parameter. -/
def MethodDecl.Mentions (m : MethodDecl) (r : TypeRef) : Prop :=
  r = m.returnType ∨ ∃ p ∈ m.parameters, r = p.type

/-- A reference in a signature of an interface. -/
def InterfaceDecl.Mentions (i : InterfaceDecl) (r : TypeRef) : Prop :=
  ∃ m ∈ i.methods, m.Mentions r

namespace MethodDecl

variable {P : TypeRef → Prop} {m : MethodDecl}

theorem forall_mentions :
    (∀ r, m.Mentions r → P r) ↔ P m.returnType ∧ ∀ p ∈ m.parameters, P p.type := by
  constructor
  · exact fun h => ⟨h _ (.inl rfl), fun p hp => h _ (.inr ⟨p, hp, rfl⟩)⟩
  · rintro ⟨hreturn, hparameters⟩ r (rfl | ⟨p, hp, rfl⟩)
    · exact hreturn
    · exact hparameters p hp

end MethodDecl

variable {S : Session → Session → Prop} {Asked Named : TypeRef → Prop} {n n' : Naming}
  {ds ds' : Declarations}

/-! ## 2.  Wrappers -/

namespace Wrapper

variable {r r' : Repository} {Known : InterfaceDecl → Prop}

/-- **Base chains agree where look-ups do.**  A walk starts from an interface that is known, and
then all that it comes to are. -/
theorem agree_chainFrom
    (hlookup : ∀ {i : InterfaceDecl} {b : Value}, Known i → i.base = some b →
      Agree S (InterfaceDecl.lookup r b) (InterfaceDecl.lookup r' b) Known)
    {unvisited unvisited' : List String}
    (hcount : ∀ {i : InterfaceDecl}, Known i →
      unvisited.count i.fullName = unvisited'.count i.fullName)
    {i : InterfaceDecl} (hi : Known i) :
    Agree S (chainFrom r unvisited i) (chainFrom r' unvisited' i) fun is => ∀ j ∈ is, Known j := by
  rw [chainFrom, chainFrom]
  rcases hb : i.base with _ | b
  · exact .pure (by simpa using hi)
  · refine (hlookup hi hb).bind fun base hbase => ?_
    have hmem : base.fullName ∈ unvisited ↔ base.fullName ∈ unvisited' := by
      rw [← List.count_pos_iff, ← List.count_pos_iff, hcount hbase]
    by_cases hunvisited : base.fullName ∈ unvisited
    · rw [dif_pos hunvisited, dif_pos (hmem.1 hunvisited)]
      have hrest {j : InterfaceDecl} (hj : Known j) :
          (unvisited.erase base.fullName).count j.fullName =
            (unvisited'.erase base.fullName).count j.fullName := by
        rw [List.count_erase, List.count_erase, hcount hj]
      refine (agree_chainFrom hlookup hrest hbase).bind fun is his => .pure ?_
      simpa [or_imp, forall_and] using ⟨his, hi⟩
    · rw [dif_neg hunvisited, dif_neg (mt hmem.2 hunvisited)]
      exact .throw _
termination_by unvisited.length
decreasing_by
  rw [List.length_erase_of_mem hunvisited]
  exact Nat.sub_lt (List.length_pos_of_mem hunvisited) Nat.one_pos

theorem agree_chain
    (hlookup : ∀ {i : InterfaceDecl} {b : Value}, Known i → i.base = some b →
      Agree S (InterfaceDecl.lookup r b) (InterfaceDecl.lookup r' b) Known)
    (hcount : ∀ {i : InterfaceDecl}, Known i →
      r.index.keys.count i.fullName = r'.index.keys.count i.fullName)
    {i : InterfaceDecl} (hi : Known i) :
    Agree S (chain r i) (chain r' i) fun is => ∀ j ∈ is, Known j :=
  agree_chainFrom hlookup (fun hj => by rw [List.count_erase, List.count_erase, hcount hj]) hi

/-- Rendering agrees where names do. -/
theorem agree_render (hn : Concur S Asked Named n n') (style : WrapperStyle)
    (receiver wrapperName : String) {m : MethodDecl} (hm : ∀ q, m.Mentions q → Asked q)
    (slot : Nat) :
    Agree S (render n style receiver wrapperName m slot)
      (render n' style receiver wrapperName m slot) fun _ => ∀ q, m.Mentions q → Named q := by
  obtain ⟨hreturn, hparameters⟩ := MethodDecl.forall_mentions.1 hm
  unfold render
  refine (hn.name hreturn).bind fun returnName hreturn' => ?_
  refine (hn.parameterNames hparameters).bind fun types hparameters' => ?_
  have hmentions : ∀ q, m.Mentions q → Named q :=
    MethodDecl.forall_mentions.2 ⟨hreturn', hparameters'⟩
  refine (Agree.ofExcept fun _ _ => trivial).bind fun returnColumn _ => ?_
  refine (Agree.ofExcept fun _ _ => trivial).bind fun nameColumn _ => ?_
  refine (hn.returnsAggregate hreturn).bind fun viaPointer _ => ?_
  split
  · exact (Agree.throw _).bind fun _ (_ : True) =>
      (Agree.ofExcept fun _ _ => trivial).bind fun _ _ => .pure hmentions
  · exact (Agree.ofExcept fun _ _ => trivial).bind fun _ _ => .pure hmentions

theorem agree_renderFrom [Session.Quiet S] (hn : Concur S Asked Named n n') (style : WrapperStyle)
    (receiver : String) (slot : Nat) (taken : List String) {es : List (String × MethodDecl)}
    (hes : ∀ e ∈ es, ∀ q, e.2.Mentions q → Asked q) :
    Agree S (renderFrom n style receiver slot taken es) (renderFrom n' style receiver slot taken es)
      fun _ => ∀ e ∈ es, ∀ q, e.2.Mentions q → Named q := by
  induction es generalizing slot taken with
  | nil => exact .pure (by simp)
  | cons e es ih =>
    obtain ⟨declaring, m⟩ := e
    obtain ⟨hm, hes⟩ := List.forall_mem_cons.1 hes
    rw [renderFrom, renderFrom]
    have hwrapper (wrapperName : String) (slot' : Nat) (taken' : List String) :
        Agree S
          (do
            let lines ← render n style receiver wrapperName m slot
            let more ← renderFrom n style receiver slot' taken' es
            return (⟨declaring, m.name, wrapperName, slot, lines⟩ :: more : List Wrapper))
          (do
            let lines ← render n' style receiver wrapperName m slot
            let more ← renderFrom n' style receiver slot' taken' es
            return (⟨declaring, m.name, wrapperName, slot, lines⟩ :: more : List Wrapper))
          fun _ => ∀ e ∈ (declaring, m) :: es, ∀ q, e.2.Mentions q → Named q := by
      refine (agree_render hn _ _ _ hm _).bind fun _ hm' => (ih _ _ hes).bind fun _ hes' => ?_
      exact .pure (List.forall_mem_cons.2 ⟨hm', hes'⟩)
    split
    · exact (Agree.note _ _).bind fun _ _ => hwrapper _ _ _
    · exact hwrapper _ _ _

theorem forall_table {P : TypeRef → Prop} {is : List InterfaceDecl} :
    (∀ e ∈ table is, ∀ q, e.2.Mentions q → P q) ↔ ∀ i ∈ is, ∀ q, i.Mentions q → P q := by
  simp only [table, List.mem_flatMap, List.mem_map, InterfaceDecl.Mentions]
  constructor
  · rintro h i hi q ⟨m, hm, hq⟩
    exact h _ ⟨i, hi, m, hm, rfl⟩ q hq
  · rintro h _ ⟨i, hi, m, hm, rfl⟩ q hq
    exact h i hi q ⟨m, hm, hq⟩

/-- **The wrappers of an interface agree where its base chain does.** -/
theorem agree_ofInterface [Session.Quiet S] (hn : Concur S Asked Named n n') (style : WrapperStyle)
    {i : InterfaceDecl} {C : List InterfaceDecl → Prop}
    (hchain : Agree S (chain n.repository i) (chain n'.repository i) fun is =>
      C is ∧ ∀ j ∈ is, ∀ q, j.Mentions q → Asked q) :
    Agree S (ofInterface n style i) (ofInterface n' style i) fun _ =>
      ∃ is, C is ∧ ∀ j ∈ is, ∀ q, j.Mentions q → Named q := by
  refine hchain.bind fun is ⟨his, hasked⟩ => ?_
  refine (agree_renderFrom hn _ _ _ _ (forall_table.2 hasked)).bind fun _ hnamed => ?_
  exact (Agree.note _ _).bind fun _ _ => .pure ⟨is, his, forall_table.1 hnamed⟩

end Wrapper

/-! ## 3.  Structs -/

theorem StructOrder.agree_resolve [Session.Quiet S] (structs : Table StructDecl) :
    Agree S (resolve structs) (resolve structs) fun l => (order structs).1 = .ok l := by
  refine Agree.timed _ _ ?_
  rcases order structs with ⟨result, notes⟩
  refine (Agree.forM fun e _ => .note e e).bind fun _ _ => ?_
  refine (Agree.ofExcept fun _ h => h).bind fun _ h => ?_
  exact (Agree.note _ _).bind fun _ _ => .pure h

namespace Section

theorem agree_typeNames (hn : Concur S Asked Named n n') {fs : List FieldDecl}
    (hfs : ∀ q, FieldDecl.Mentions fs q → Asked q) :
    Agree S (typeNames n fs) (typeNames n' fs) fun _ => True := by
  induction fs with
  | nil => exact .pure trivial
  | cons f fs ih =>
    rw [FieldDecl.forall_mentions_cons] at hfs
    have hrest := ih hfs.2
    rcases f with ⟨_, type, _⟩ | ⟨_, element, _⟩ | _
    case aggregate => exact hrest
    · exact (hn.nameText (hfs.1 type (by simp))).bind fun _ _ => hrest.bind fun _ _ => .pure trivial
    · exact (hn.nameText (hfs.1 element (by simp))).bind fun _ _ =>
        hrest.bind fun _ _ => .pure trivial

mutual

theorem agree_fieldLines (hn : Concur S Asked Named n n') (i : Indentation) (level : Nat)
    (indent : String) (width : Nat) : ∀ f : FieldDecl,
      (∀ q, FieldDecl.Mentions [f] q → Asked q) →
      Agree S (fieldLines n i level indent width f)
        (fieldLines n' i level indent width f)
        fun _ => ∀ q, FieldDecl.Mentions [f] q → Named q
  | .aggregate _ _ _ fs, h => by
    rw [fieldLines, fieldLines]
    simp only [FieldDecl.mentions_aggregate] at h ⊢
    exact (agree_blockLines hn i (level + 1) fs h).bind fun _ h' => .pure h'
  | .array _ element _, h => by
    rw [fieldLines, fieldLines]
    simp only [FieldDecl.mentions_array, forall_eq] at h ⊢
    exact (hn.nameText h).bind fun _ h' => .pure h'
  | .plain _ type _, h => by
    rw [fieldLines, fieldLines]
    simp only [FieldDecl.mentions_plain, forall_eq] at h ⊢
    exact (hn.nameText h).bind fun _ h' => .pure h'

theorem agree_rowLines (hn : Concur S Asked Named n n') (i : Indentation) (level : Nat)
    (indent : String) (width : Nat) : ∀ fs : List FieldDecl,
      (∀ q, FieldDecl.Mentions fs q → Asked q) →
      Agree S (rowLines n i level indent width fs)
        (rowLines n' i level indent width fs)
        fun _ => ∀ q, FieldDecl.Mentions fs q → Named q
  | [], _ => by
    rw [rowLines, rowLines]
    exact .pure (by simp)
  | f :: fs, h => by
    rw [rowLines, rowLines]
    rw [FieldDecl.forall_mentions_cons] at h
    refine (agree_fieldLines hn i level indent width f h.1).bind fun _ hf => ?_
    refine (agree_rowLines hn i level indent width fs h.2).bind fun _ hfs => ?_
    exact .pure (FieldDecl.forall_mentions_cons.2 ⟨hf, hfs⟩)

theorem agree_blockLines (hn : Concur S Asked Named n n') (i : Indentation) (level : Nat)
    (fs : List FieldDecl) (h : ∀ q, FieldDecl.Mentions fs q → Asked q) :
    Agree S (blockLines n i level fs) (blockLines n' i level fs)
      fun _ => ∀ q, FieldDecl.Mentions fs q → Named q := by
  rw [blockLines, blockLines]
  refine (Agree.ofExcept fun _ _ => trivial).bind fun indent _ => ?_
  refine (agree_typeNames hn h).bind fun names _ => ?_
  exact agree_rowLines hn i level indent (longest names) fs h

end

/-- **The section of structs agrees.**  Once it is written, no struct has an array that C cannot
declare. -/
theorem agree_structs [Session.Quiet S] (hn : Concur S Asked Named n n') (settings : Settings)
    (h : ∀ s ∈ ds.structs.values, ∀ q, FieldDecl.Mentions s.fields q → Asked q) :
    Agree S (structs n settings ds) (structs n' settings ds) fun _ =>
      ∀ s ∈ ds.structs.values, ¬ s.HoldsAggregateArray ∧
        ∀ q, FieldDecl.Mentions s.fields q → Named q := by
  refine (StructOrder.agree_resolve ds.structs).bind fun ordered hordered => ?_
  have hperm := StructOrder.order_perm hordered
  have hlines : Agree S (ordered.mapM (structLines n (indentation settings)))
      (ordered.mapM (structLines n' (indentation settings)))
      fun _ => ∀ s ∈ ordered, ∀ q, FieldDecl.Mentions s.fields q → Named q :=
    .mapM fun s hs => (agree_blockLines hn (indentation settings) 1 s.fields
      (h s (hperm.mem_iff.1 hs))).bind fun _ hs' => .pure hs'
  refine hlines.bind fun _ hnamed => .pure fun s hs => ?_
  exact ⟨StructOrder.not_holdsAggregateArray_of_order hordered hs,
    hnamed s (hperm.mem_iff.2 hs)⟩

/-! ## 4.  The other sections -/

theorem agree_parameterList (hn : Concur S Asked Named n n') {m : MethodDecl}
    (hm : ∀ p ∈ m.parameters, Asked p.type) :
    Agree S (parameterList n m) (parameterList n' m) fun _ => ∀ p ∈ m.parameters, Named p.type :=
  (Agree.mapM fun p hp => (hn.parameterName (hm p hp) p.isConst).bind fun _ hp' =>
    .pure hp').bind fun _ hps => .pure hps

theorem agree_delegates (hn : Concur S Asked Named n n')
    (h : ∀ m ∈ ds.delegates.values, ∀ q, m.Mentions q → Asked q) :
    Agree S (delegates n ds) (delegates n' ds) fun _ =>
      ∀ m ∈ ds.delegates.values, ∀ q, m.Mentions q → Named q := by
  rw [delegates, delegates]
  split
  · rename_i hempty
    exact .pure (by simp [Table.values, List.isEmpty_iff.1 hempty])
  · refine (Agree.mapM fun e he => ?_).bind fun _ hall => .pure (Table.forall_values_of_sorted hall)
    obtain ⟨hreturn, hparameters⟩ :=
      MethodDecl.forall_mentions.1 (h _ (Table.mem_values_of_sorted he))
    refine (hn.name hreturn).bind fun _ hreturn' => ?_
    refine (agree_parameterList hn hparameters).bind fun _ hparameters' => ?_
    exact .pure (MethodDecl.forall_mentions.2 ⟨hreturn', hparameters'⟩)

theorem agree_methods [Session.Quiet S] (hn : Concur S Asked Named n n') (settings : Settings)
    {C : InterfaceDecl → List InterfaceDecl → Prop}
    (hchain : ∀ i ∈ ds.interfaces.values,
      Agree S (Wrapper.chain n.repository i) (Wrapper.chain n'.repository i) fun is =>
        C i is ∧ ∀ j ∈ is, ∀ q, j.Mentions q → Asked q) :
    Agree S (methods n settings ds) (methods n' settings ds) fun _ =>
      ∀ i ∈ ds.interfaces.values, ∃ is, C i is ∧ ∀ j ∈ is, ∀ q, j.Mentions q → Named q := by
  rw [methods, methods]
  refine (Agree.mapM fun e he => ?_).bind fun _ hall => .pure (Table.forall_values_of_sorted hall)
  exact (Wrapper.agree_ofInterface hn (wrapperStyle settings)
    (hchain _ (Table.mem_values_of_sorted he))).bind fun _ hi => .pure hi

/-- Once the section of GUIDs is written, every interface has one. -/
theorem isSome_guid_of_guids {room : Nat} {lines : List String} (h : guids room ds = .ok lines) :
    ∀ i ∈ ds.interfaces.values, i.guid.isSome = true := by
  rw [guids] at h
  obtain ⟨found, hlines, -⟩ := Result.bind_eq_ok.1 h
  refine Table.forall_values_of_sorted (Result.forall_of_mapM_ok hlines fun e line hline => ?_)
  obtain ⟨name, i⟩ := e
  rcases hguid : i.guid with _ | g
  · simp only [hguid] at hline
    cases hline
  · rfl

theorem agree_functions (hn : Concur S Asked Named n n')
    (h : ∀ m ∈ ds.functions.values, ∀ q, m.Mentions q → Asked q) :
    Agree S (functions n ds) (functions n' ds) fun _ =>
      ∀ m ∈ ds.functions.values, ∀ q, m.Mentions q → Named q := by
  rw [functions, functions]
  refine (Agree.mapM fun m hm => hn.nameText (h m hm _ (.inl rfl))).bind fun _ _ => ?_
  refine (Agree.mapM fun e he => ?_).bind fun _ hall => .pure (Table.forall_values_of_sorted hall)
  obtain ⟨hreturn, hparameters⟩ :=
    MethodDecl.forall_mentions.1 (h _ (Table.mem_values_of_sorted he))
  refine (hn.nameText hreturn).bind fun _ hreturn' => ?_
  refine (agree_parameterList hn hparameters).bind fun _ hparameters' => ?_
  exact .pure (MethodDecl.forall_mentions.2 ⟨hreturn', hparameters'⟩)

end Section

/-! ## 5.  The whole header -/

namespace Declarations

/-- All references in structs, delegates and functions have a property. -/
structure Mention (Asked : TypeRef → Prop) (ds : Declarations) : Prop where
  delegates : ∀ m ∈ ds.delegates.values, ∀ q, m.Mentions q → Asked q
  structs : ∀ s ∈ ds.structs.values, ∀ q, FieldDecl.Mentions s.fields q → Asked q
  functions : ∀ m ∈ ds.functions.values, ∀ q, m.Mentions q → Asked q

/-- What is known of declarations once they are written, where `C` says of a list of interfaces
that it is a base chain. -/
structure Written (C : InterfaceDecl → List InterfaceDecl → Prop) (Named : TypeRef → Prop)
    (ds : Declarations) : Prop where
  mention : ds.Mention Named
  arrays : ∀ s ∈ ds.structs.values, ¬ s.HoldsAggregateArray
  guids : ∀ i ∈ ds.interfaces.values, i.guid.isSome = true
  chains : ∀ i ∈ ds.interfaces.values, ∃ is, C i is ∧ ∀ j ∈ is, ∀ q, j.Mentions q → Named q

end Declarations

/-- **The text of a header agrees.** -/
theorem agree_headerText [Session.Quiet S] (hn : Concur S Asked Named n n')
    (settings : Settings) (p : Profile)
    {C : InterfaceDecl → List InterfaceDecl → Prop} (hasked : ds.Mention Asked)
    (hchain : ∀ i ∈ ds.interfaces.values,
      Agree S (Wrapper.chain n.repository i) (Wrapper.chain n'.repository i) fun is =>
        C i is ∧ ∀ j ∈ is, ∀ q, j.Mentions q → Asked q) :
    Agree S (headerText n settings p ds) (headerText n' settings p ds) fun _ =>
      ds.Written C Named := by
  refine Agree.timed _ _ (Agree.bind ?_ fun _ h => .pure h)
  rw [headerLines, headerLines]
  refine (Agree.ofExcept fun _ _ => trivial).bind fun _ _ => ?_
  refine (Section.agree_delegates hn hasked.delegates).bind fun _ hdelegates => ?_
  refine (Section.agree_structs hn settings hasked.structs).bind fun _ hstructs => ?_
  refine (Section.agree_methods hn settings hchain).bind fun _ hchains => ?_
  refine (Agree.ofExcept fun _ h => Section.isSome_guid_of_guids h).bind fun _ hguids => ?_
  refine (Section.agree_functions hn hasked.functions).bind fun _ hfunctions => ?_
  exact .pure ⟨⟨hdelegates, fun s hs => (hstructs s hs).2, hfunctions⟩,
    fun s hs => (hstructs s hs).1, hguids, hchains⟩

/-! ## 6.  Declarations in another order -/

namespace Section

theorem longest_eq_of_perm {texts texts' : List String} (h : texts.Perm texts') :
    longest texts = longest texts' :=
  h.foldl_eq' (fun _ _ _ _ _ => by omega) 0

theorem stubs_eq (hd : ds.Alike ds') : stubs ds = stubs ds' := by
  rw [stubs, stubs, hd.interfaces.sorted_eq, longest_eq_of_perm hd.interfaces.keys_perm]

theorem constants_eq (hd : ds.Alike ds') (room : Nat) :
    constants room ds = constants room ds' := by
  rw [constants, constants, hd.constants]

theorem delegates_eq (hd : ds.Alike ds') : delegates n ds = delegates n ds' := by
  rw [delegates, delegates, hd.delegates.sorted_eq, hd.delegates.perm.isEmpty_eq]

theorem enums_eq (hd : ds.Alike ds') : enums ds = enums ds' := by
  rw [enums, enums, hd.enums.sorted_eq]

theorem structs_eq (hd : ds.Alike ds') (settings : Settings) :
    structs n settings ds = structs n settings ds' := by
  rw [structs, structs, StructOrder.resolve, StructOrder.resolve, StructOrder.order,
    StructOrder.order, hd.structs.sorted_eq]

theorem methods_eq (hd : ds.Alike ds') (settings : Settings) :
    methods n settings ds = methods n settings ds' := by
  rw [methods, methods, hd.interfaces.sorted_eq]

theorem guids_eq (hd : ds.Alike ds') (room : Nat) : guids room ds = guids room ds' := by
  rw [guids, guids, hd.interfaces.sorted_eq, longest_eq_of_perm hd.interfaces.keys_perm]

theorem functions_eq (hd : ds.Alike ds') : functions n ds = functions n ds' := by
  rw [functions, functions, hd.functions]

end Section

/-- **The order of tables does not show in a header.** -/
theorem headerText_eq (hd : ds.Alike ds') (settings : Settings) (p : Profile) :
    headerText n settings p ds = headerText n settings p ds' := by
  rw [headerText, headerText, headerLines, headerLines, Section.stubs_eq hd,
    Section.constants_eq hd settings.room, Section.delegates_eq hd, Section.enums_eq hd,
    Section.structs_eq hd settings, Section.methods_eq hd settings,
    Section.guids_eq hd settings.room, Section.functions_eq hd]

end ComHeaders
