import ComHeaders.Proofs.Classification.Absorption
import ComHeaders.Proofs.Dispatch.Slots
import ComHeaders.Proofs.Reach

/-!
# Definitions of one full name

A metadata set may hold several definitions of one full name.  A repository finds the first of
them and announces that the others are ignored, but they are still in the lists of definitions
that classification goes through.  This file is about whether they show in a header.

They do: of two enums the last one is written (`header_ne_firsts`).  But they do not if every
definition of a namespace repeats the first one of its full name (`Consistent`).  Then the header is
the one that is made when the others are left out (`header_eq_firsts`).  Interfaces of one full name
need not even be equal for this, since an interface is described once.

## 1.  First definitions

Leaving out the others does not change the index.

## 2.  The definitions of a namespace

Classification goes through the definitions.  The invariant, `Settled`, looks ahead: what repeats a
definition that was added adds nothing, and what repeats none is the first of its name.

## 3.  Headers
-/

namespace ComHeaders

open Pass (Agree)

/-! ## 1.  First definitions -/

namespace Repository

variable {ds : List TypeDef}

/-- The definitions whose full names are new: not among those seen before, and borne by no
definition in front. -/
def firsts (seen : List String) : List TypeDef → List TypeDef
  | [] => []
  | d :: rest =>
    if d.fullName ∈ seen then firsts seen rest else d :: firsts (d.fullName :: seen) rest

/-- What is left out is not in the index anyway. -/
theorem extendIndex_firsts {seen : List String} {index : Table TypeDef}
    (h : ∀ k ∈ seen, k ∈ index.keys) :
    extendIndex index (firsts seen ds) = extendIndex index ds := by
  induction ds generalizing seen index with
  | nil => rfl
  | cons d ds ih =>
    rw [firsts]
    split
    · rename_i hseen
      rw [ih h, extendIndex, if_pos (Table.isSome_lookup_iff.2 (h _ hseen))]
    · rw [extendIndex, extendIndex]
      split
      · rename_i htaken
        refine ih fun k hk => ?_
        rcases List.mem_cons.1 hk with rfl | hk
        · exact Table.isSome_lookup_iff.1 htaken
        · exact h k hk
      · refine ih fun k hk => ?_
        rw [Table.keys, List.map_append, List.mem_append]
        rcases List.mem_cons.1 hk with rfl | hk
        · exact .inr List.mem_cons_self
        · exact .inl (h k hk)

/-- **The index does not show what is left out.** -/
theorem index_firsts (ds : List TypeDef) : (ofList (firsts [] ds)).index = (ofList ds).index :=
  extendIndex_firsts (by simp)

theorem agreeOn_firsts (ds : List TypeDef) : (ofList ds).AgreeOn ds (ofList (firsts [] ds)) := by
  have hfind (name : String) : (ofList (firsts [] ds)).find? name = (ofList ds).find? name := by
    rw [find?, find?, index_firsts]
  refine ⟨fun {name} _ => (hfind name).symm, fun {name d} _ hd => ?_, fun {name} _ => ?_⟩
  · rw [hfind, find?_ofList] at hd
    exact List.mem_of_find?_eq_some hd
  · rw [index_firsts]

end Repository

/-! ## 2.  The definitions of a namespace -/

namespace Declarations.Reading

open Repository (firsts)

variable {m : Reading} {P : TypeDef → Bool} {seen : List String} {d d' : TypeDef}
  {l : List TypeDef} {ds : Declarations} {t : Table InterfaceDecl}

/-- Every definition of a namespace repeats the first one of its full name, which belongs to the
namespace as well. -/
def Consistent (m : Reading) (r : Repository) (ns : String) : Prop :=
  ∀ d ∈ r.typesIn (.str ns), ∃ first ∈ r.typesIn (.str ns),
    r.find? d.fullName = some first ∧ m.Repeats first d

/-- Some definitions that are still to be added, among others.  Those of a full name that was seen
add nothing, and the others repeat the first of their full name. -/
structure Settled (m : Reading) (P : TypeDef → Bool) (seen : List String) (l : List TypeDef)
    (ds : Declarations) (t : Table InterfaceDecl) : Prop where
  absorbs : ∀ d ∈ l, P d = true → d.fullName ∈ seen → m.Absorbs ds t d
  repeats : ∀ d ∈ l, P d = true → d.fullName ∉ seen →
    ∃ first, l.find? (fun e => e.fullName = d.fullName) = some first ∧ P first = true ∧
      m.Repeats first d

namespace Settled

theorem find?_tail {first : TypeDef} (hne : d.fullName ≠ d'.fullName)
    (h : (d :: l).find? (fun e => e.fullName = d'.fullName) = some first) :
    l.find? (fun e => e.fullName = d'.fullName) = some first := by
  rwa [List.find?_cons_of_neg (by simpa using hne)] at h

theorem skip (h : m.Settled P seen (d :: l) ds t) (hd : d.fullName ∈ seen) :
    m.Settled P seen l ds t where
  absorbs d' hd' := h.absorbs d' (List.mem_cons_of_mem d hd')
  repeats d' hd' hP hnew := by
    obtain ⟨first, hfirst, hrest⟩ := h.repeats d' (List.mem_cons_of_mem d hd') hP hnew
    exact ⟨first, find?_tail (fun heq => hnew (heq ▸ hd)) hfirst, hrest⟩

theorem repeats_of_new (h : m.Settled P seen (d :: l) ds t) (hd' : d' ∈ l) (hP : P d' = true)
    (hnew : d'.fullName ∉ d.fullName :: seen) :
    ∃ first, l.find? (fun e => e.fullName = d'.fullName) = some first ∧ P first = true ∧
      m.Repeats first d' := by
  rw [List.mem_cons, not_or] at hnew
  obtain ⟨first, hfirst, hrest⟩ := h.repeats d' (List.mem_cons_of_mem d hd') hP hnew.2
  exact ⟨first, find?_tail (Ne.symm hnew.1) hfirst, hrest⟩

theorem repeats_head (h : m.Settled P seen (d :: l) ds t) (hd : d.fullName ∉ seen) (hd' : d' ∈ l)
    (hP : P d' = true) (heq : d'.fullName = d.fullName) : P d = true ∧ m.Repeats d d' := by
  obtain ⟨first, hfirst, hrest⟩ := h.repeats d' (List.mem_cons_of_mem d hd') hP (heq ▸ hd)
  rw [List.find?_cons_of_pos (by simpa using heq.symm)] at hfirst
  obtain rfl := Option.some.inj hfirst
  exact hrest

theorem pass (h : m.Settled P seen (d :: l) ds t) (hd : d.fullName ∉ seen) (hP : P d ≠ true) :
    m.Settled P (d.fullName :: seen) l ds t where
  absorbs d' hd' hP' hseen := by
    rcases List.mem_cons.1 hseen with heq | hseen
    · exact absurd (h.repeats_head hd hd' hP' heq).1 hP
    · exact h.absorbs d' (List.mem_cons_of_mem d hd') hP' hseen
  repeats d' := h.repeats_of_new

/-- **A definition of a new full name is added.**  Those that repeat it add nothing from now on. -/
theorem add (h : m.Settled P seen (d :: l) ds t) (hd : d.fullName ∉ seen)
    (hnames : ∀ d' ∈ l, P d' = true → (d.fullName = d'.fullName ↔ d.name = d'.name)) {e : Entity}
    (he : m.told t d = .ok e) :
    m.Settled P (d.fullName :: seen) l (ds.declare d.name e) (m.described t d e) where
  absorbs d' hd' hP' hseen := by
    by_cases heq : d'.fullName = d.fullName
    · exact absorbs_of_repeats (h.repeats_head hd hd' hP' heq).2 ((hnames d' hd' hP').1 heq.symm)
        heq.symm he
    · have hne : d.fullName ≠ d'.fullName := Ne.symm heq
      have habsorbs : m.Absorbs ds t d' := h.absorbs d' (List.mem_cons_of_mem d hd') hP'
        ((List.mem_cons.1 hseen).resolve_left heq)
      exact habsorbs.declare (mt (hnames d' hd' hP').2 hne) hne he
  repeats d' := h.repeats_of_new

end Settled

variable {S : Session → Session → Prop} {K : Declarations → Prop}
  {add' : Declarations → TypeDef → Pass Declarations}

/-- **Definitions that add nothing can be left out.** -/
theorem agree_firsts [Session.Quiet S]
    (hadd : ∀ ds, K ds → ∀ d ∈ l, P d = true → Agree S (m.add ds d) (add' ds d) K)
    (hnames : ∀ d ∈ l, P d = true → ∀ d' ∈ l, P d' = true →
      (d.fullName = d'.fullName ↔ d.name = d'.name))
    {s s' : Session} (h : m.Settled P seen l ds s.interfaces) (hK : K ds) (hs : S s s') :
    (((l.filter P).foldlM m.add ds).perform s).1 =
        ((((firsts seen l).filter P).foldlM add' ds).perform s').1 ∧
      S (((l.filter P).foldlM m.add ds).perform s).2
        ((((firsts seen l).filter P).foldlM add' ds).perform s').2 ∧
      ∀ a, (((l.filter P).foldlM m.add ds).perform s).1 = .ok a → K a := by
  -- The longer list goes ahead alone where a definition is left out, so the invariant is about its
  -- declarations and its session; the other session only stays related.
  induction l generalizing seen ds s s' with
  | nil => exact Agree.pure hK s s' hs
  | cons d l ih =>
    have hadd' : ∀ ds, K ds → ∀ d ∈ l, P d = true → Agree S (m.add ds d) (add' ds d) K :=
      fun ds hds c hc => hadd ds hds c (List.mem_cons_of_mem d hc)
    have hnames' : ∀ c ∈ l, P c = true → ∀ d' ∈ l, P d' = true →
        (c.fullName = d'.fullName ↔ c.name = d'.name) := fun c hc hP d' hd' =>
      hnames c (List.mem_cons_of_mem d hc) hP d' (List.mem_cons_of_mem d hd')
    by_cases hseen : d.fullName ∈ seen
    · rw [firsts, if_pos hseen]
      by_cases hP : P d = true
      · obtain ⟨j, hj⟩ := (h.absorbs d List.mem_cons_self hP hseen).perform
        rw [List.filter_cons_of_pos hP, List.foldlM_cons, Pass.perform_bind, hj]
        exact ih hadd' hnames' (h.skip hseen) hK (Session.Quiet.journals hs j s'.journal)
      · rw [List.filter_cons_of_neg hP]
        exact ih hadd' hnames' (h.skip hseen) hK hs
    · rw [firsts, if_neg hseen]
      by_cases hP : P d = true
      · have hstep : Agree S (m.add ds d) (add' ds d) K := hadd ds hK d List.mem_cons_self hP
        rw [List.filter_cons_of_pos hP, List.filter_cons_of_pos hP, List.foldlM_cons,
          List.foldlM_cons, Pass.perform_bind, Pass.perform_bind]
        rcases hx : (m.add ds d).perform s with ⟨c | made, u⟩
        · obtain ⟨u', hy, hu⟩ := hstep.error hx hs
          rw [hy]
          exact ⟨rfl, hu, nofun⟩
        · obtain ⟨u', hy, hu⟩ := hstep.ok hx hs
          have hmade : K made := (hstep s s' hs).2.2 made (congrArg Prod.fst hx)
          obtain ⟨e, he, rfl, hinterfaces⟩ := of_add_ok hx
          have hsettled := h.add hseen (fun d' hd' =>
            hnames d List.mem_cons_self hP d' (List.mem_cons_of_mem d hd')) he
          rw [hy]
          exact ih hadd' hnames' (hinterfaces ▸ hsettled) hmade hu
      · rw [List.filter_cons_of_neg hP, List.filter_cons_of_neg hP]
        exact ih hadd' hnames' (h.pass hseen hP) hK hs

/-- The same for the definitions of a namespace. -/
theorem Consistent.agree [Session.Quiet S] {all : List TypeDef} {ns : String}
    (h : m.Consistent (.ofList all) ns)
    (hadd : ∀ ds, K ds → ∀ d ∈ (Repository.ofList all).typesIn (.str ns),
      Agree S (m.add ds d) (add' ds d) K) (hK : K ds) :
    Agree S (((Repository.ofList all).typesIn (.str ns)).foldlM m.add ds)
      (((Repository.ofList (firsts [] all)).typesIn (.str ns)).foldlM add' ds) K := by
  have hin {d : TypeDef} (hd : d ∈ all)
      (hP : (d.namespaceName.equals (.str ns) && !d.isNested) = true) :
      d ∈ (Repository.ofList all).typesIn (.str ns) := List.mem_filter.2 ⟨hd, hP⟩
  have hstart (t : Table InterfaceDecl) :
      m.Settled (fun d => d.namespaceName.equals (.str ns) && !d.isNested) [] all ds t := by
    refine ⟨fun _ _ _ hseen => absurd hseen List.not_mem_nil, fun d hd hP _ => ?_⟩
    obtain ⟨first, hfirst, hfind, hrepeats⟩ := h d (hin hd hP)
    rw [Repository.find?_ofList] at hfind
    exact ⟨first, hfind, (List.mem_filter.1 hfirst).2, hrepeats⟩
  exact fun s s' hs => agree_firsts (fun ds hds d hd hP => hadd ds hds d (hin hd hP))
    (fun d hd hP d' hd' hP' => Repository.fullName_eq_iff (hin hd hP) (hin hd' hP'))
    (hstart s.interfaces) hK hs

end Declarations.Reading

/-! ## 3.  Headers -/

namespace Generator

open Declarations (ownReading sharedReading)
open Repository (firsts)

variable {ds : List TypeDef} {p : Profile}

/-- **Definitions that repeat others do not show.**  Where all definitions of the namespaces repeat
the first ones of their full names, the header is the one that is made of the first definitions
only, and so is the failure. -/
theorem header_eq_firsts
    (hown : (ownReading (.ofList ds) p).Consistent (.ofList ds) p.namespaceName)
    (hshared : ∀ ns, Declarations.sharedNamespace? p = some ns →
      (sharedReading (.ofList ds) p).Consistent (.ofList ds) ns)
    (settings : Settings) (w w' : Workspace) :
    ((header ⟨.ofList ds, settings⟩ p).perform w).1 =
      ((header ⟨.ofList (firsts [] ds), settings⟩ p).perform w').1 := by
  have hagree := Repository.agreeOn_firsts ds
  have hdescribable {ns : Value} {d : TypeDef} (hd : d ∈ (Repository.ofList ds).typesIn ns) :=
    hagree.describable (List.mem_of_mem_filter hd)
  refine header_eq_of_classify hagree (Declarations.agree_classify_of_foldlM (.empty _)
    (fun made hmade => hown.agree (fun made hmade d hd => ?_) hmade)
    fun ns hns made hmade => (hshared ns hns).agree (fun made hmade d hd => ?_) hmade) w w'
  · exact Declarations.agree_addOwn (hdescribable hd) hmade
  · exact Declarations.agree_addShared (hdescribable hd) hmade

/-- The enum of one kind of shape, with another value. -/
def kindAgain : TypeDef :=
  { kind with
    fields := [⟨"CIRCLE", .primitive (.str "Int32"), some ⟨.str "Int32", .int 2⟩, false, []⟩] }

/-- **Definitions of a full name that is taken do show.**  The second value is the one that is
written, although its definition is announced as ignored. -/
theorem header_ne_firsts :
    ((header ⟨.ofList [kind, kindAgain], {}⟩ shapesProfile).perform { files := .fresh [] }).1 ≠
      ((header ⟨.ofList (firsts [] [kind, kindAgain]), {}⟩ shapesProfile).perform
        { files := .fresh [] }).1 := by
  have hne : ((header ⟨.ofList [kind, kindAgain], {}⟩ shapesProfile).perform
      { files := .fresh [] }).1.toOption ≠
        ((header ⟨.ofList (firsts [] [kind, kindAgain]), {}⟩ shapesProfile).perform
          { files := .fresh [] }).1.toOption := by
    decide +kernel
  exact fun h => hne (congrArg Except.toOption h)

/-- An enum that is repeated, and an interface that is defined again with another method. -/
def repeatedShapes : List TypeDef := [
  kind,
  visitor,
  { Wrapper.plainInterface "IShape" "Draw" [] with attributes := [guidMarked 1] },
  kind,
  { Wrapper.plainInterface "IShape" "Erase" [] with attributes := [guidMarked 2] }]

/-- They can be left out. -/
theorem repeatedShapes_header :
    ((header ⟨.ofList repeatedShapes, {}⟩ shapesProfile).perform
        { files := .fresh [] }).1.toOption.isSome = true ∧
      ((header ⟨.ofList repeatedShapes, {}⟩ shapesProfile).perform { files := .fresh [] }).1 =
        ((header ⟨.ofList (firsts [] repeatedShapes), {}⟩ shapesProfile).perform
          { files := .fresh [] }).1 := by
  have hown : (ownReading (.ofList repeatedShapes) shapesProfile).Consistent
      (.ofList repeatedShapes) shapesProfile.namespaceName := by
    intro d hd
    have htypes : (Repository.ofList repeatedShapes).typesIn (.str shapesProfile.namespaceName) =
      repeatedShapes := rfl
    rw [htypes] at hd ⊢
    simp only [repeatedShapes, List.mem_cons, List.not_mem_nil, or_false] at hd
    rcases hd with rfl | rfl | rfl | rfl | rfl
    · exact ⟨_, List.mem_cons_self, rfl, .refl _ _⟩
    · exact ⟨_, .tail _ List.mem_cons_self, rfl, .refl _ _⟩
    · exact ⟨_, .tail _ (.tail _ List.mem_cons_self), rfl, .refl _ _⟩
    · exact ⟨_, List.mem_cons_self, rfl, .refl _ _⟩
    · exact ⟨_, .tail _ (.tail _ List.mem_cons_self), rfl, rfl, .inl rfl⟩
  have hshared : ∀ ns, Declarations.sharedNamespace? shapesProfile = some ns →
      (sharedReading (.ofList repeatedShapes) shapesProfile).Consistent
        (.ofList repeatedShapes) ns := by
    simp [Declarations.sharedNamespace?, shapesProfile]
  have hmade : ((header ⟨.ofList repeatedShapes, {}⟩ shapesProfile).perform
      { files := .fresh [] }).1.toOption.isSome = true := by
    decide +kernel
  exact ⟨hmade, header_eq_firsts hown hshared {} _ _⟩

end Generator

end ComHeaders
