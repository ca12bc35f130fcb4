import ComHeaders.Proofs.Passes
import ComHeaders.Proofs.Sections

/-!
# The order of the source

The metadata lists its definitions in some order.  Two listings of the same definitions give the
same header, or no header at all.

## 1.  Names within a namespace

A top-level definition bears its namespace in front of its name.  So where full names are
distinct, the names within a namespace are, and every definition is found under its own.

## 2.  One pass

A pass first classifies, which leaves a session that answers like a new one, and then writes.
From here on the order only shows in the order of tables, and the sections forget that.

## 3.  Headers

`header_toOption_eq_of_perm` is the result.  Which failure is met first does depend on the order,
so it says nothing about failures.
-/

namespace ComHeaders

/-! ## 1.  Names within a namespace -/

namespace Repository

variable {ds : List TypeDef}

/-- Within a namespace the full name is the name with the namespace in front. -/
theorem fullName_eq_iff {r : Repository} {ns : String} {d d' : TypeDef}
    (hd : d ∈ r.typesIn (.str ns)) (hd' : d' ∈ r.typesIn (.str ns)) :
    d.fullName = d'.fullName ↔ d.name = d'.name := by
  obtain ⟨-, hns, hdeclaring⟩ := mem_typesIn.1 hd
  obtain ⟨-, hns', hdeclaring'⟩ := mem_typesIn.1 hd'
  rw [TypeDef.fullName, TypeDef.fullName, hns, hns', hdeclaring, hdeclaring']
  by_cases htruthy : (Value.str ns).truthy = true
  · rw [TypeRef.qualify, TypeRef.qualify, if_neg (by simp [Value.truthy]), if_pos htruthy,
      if_neg (by simp [Value.truthy]), if_pos htruthy]
    simp
  · rw [TypeRef.qualify, TypeRef.qualify, if_neg (by simp [Value.truthy]), if_neg htruthy,
      if_neg (by simp [Value.truthy]), if_neg htruthy]
    simp

/-- **Where full names are distinct, names within a namespace are.** -/
theorem nodup_typesIn (h : (ds.map TypeDef.fullName).Nodup) (ns : String) :
    (((ofList ds).typesIn (.str ns)).map TypeDef.name).Nodup := by
  have hsub : (((ofList ds).typesIn (.str ns)).map TypeDef.fullName).Nodup :=
    h.sublist (List.filter_sublist.map _)
  rw [List.Nodup, List.pairwise_map] at hsub ⊢
  exact hsub.imp_of_mem fun hd hd' hne hname => hne ((fullName_eq_iff hd hd').2 hname)

end Repository

namespace Generator

variable {ds ds' : List TypeDef} {settings : Settings} {p : Profile}

/-! ## 2.  One pass -/

/-- Classifying gives declarations that do not depend on the session, in a session that still
answers like a new one. -/
theorem classify_perform (h : (ds.map TypeDef.fullName).Nodup) (p : Profile) :
    ∃ s, (Declarations.classify (.ofList ds) p).perform {} =
        (Declarations.collected (.ofList ds) p, s) ∧ s.Alike (.ofList ds) {} := by
  have hfind (ns : Value) : ∀ d ∈ (Repository.ofList ds).typesIn ns,
      (Repository.ofList ds).find? d.fullName = some d :=
    fun d hd => (Repository.find?_ofList_eq_some h).2 ⟨List.mem_of_mem_filter hd, rfl⟩
  exact Declarations.classify_yields hfind {} (.refl _ _)

/-- **A pass over the definitions in another order makes the same text.** -/
theorem pass_ok_of_perm (h : (ds.map TypeDef.fullName).Nodup) (hperm : ds.Perm ds')
    {declarations : Declarations} {text : String} {s : Session}
    (hok : (pass ⟨.ofList ds, settings⟩ p).perform {} = (.ok (declarations, text), s)) :
    ∃ declarations' s', declarations.Alike declarations' ∧
      (pass ⟨.ofList ds', settings⟩ p).perform {} = (.ok (declarations', text), s') := by
  have hr := Repository.alike_of_perm h hperm
  have h' : (ds'.map TypeDef.fullName).Nodup := (hperm.map _).nodup_iff.1 h
  rw [pass] at hok
  obtain ⟨declarations, t, hclassify, hok⟩ := Pass.perform_bind_ok.1 hok
  obtain ⟨text, u, htext, hok⟩ := Pass.perform_bind_ok.1 hok
  cases hok
  -- Both sessions behind classification answer like a new one.
  obtain ⟨t₁, ht₁, hfresh⟩ := classify_perform h p
  obtain ⟨t₂, ht₂, hfresh'⟩ := classify_perform h' p
  obtain ⟨hcollected, rfl⟩ := Prod.mk.inj (ht₁.symm.trans hclassify)
  obtain ⟨declarations', hcollected', halike⟩ :=
    Declarations.collected_alike hr (Repository.nodup_typesIn h) hcollected
  have hsessions : t₁.Alike (.ofList ds) t₂ := hfresh.trans (hr.symm.session_alike hfresh').symm
  have hnamings : Naming.Alike ⟨.ofList ds, p.taggedEnums⟩ ⟨.ofList ds', p.taggedEnums⟩ := ⟨hr, rfl⟩
  have hlookup (b : Value) : Pass.Agree (Session.Alike (.ofList ds))
      (InterfaceDecl.lookup (.ofList ds) b) (InterfaceDecl.lookup (.ofList ds') b)
      fun _ => True := by
    rw [← hr.lookup_eq]
    exact Pass.agree_lookup (Repository.indexed_ofList ds) b
  have hchain (i : InterfaceDecl) : Pass.Agree (Session.Alike (.ofList ds))
      (Wrapper.chain (.ofList ds) i) (Wrapper.chain (.ofList ds') i)
      fun is => True ∧ ∀ j ∈ is, ∀ q, j.Mentions q → True :=
    (Wrapper.agree_chain (fun _ _ => hlookup _) (fun _ => hr.keys.count_eq _) trivial).weaken
      fun _ _ => by simp
  have hasked : declarations.Mention fun _ => True :=
    ⟨fun _ _ _ _ => trivial, fun _ _ _ _ => trivial, fun _ _ _ _ => trivial⟩
  obtain ⟨u', htext', -⟩ := (agree_headerText (hnamings.concur _) settings p hasked
    (C := fun _ _ => True) fun i _ => hchain i).ok htext hsessions
  rw [headerText_eq halike] at htext'
  refine ⟨declarations', u', halike, ?_⟩
  rw [pass]
  refine Pass.perform_bind_ok.2 ⟨declarations', t₂, by rw [ht₂, hcollected'], ?_⟩
  exact Pass.perform_bind_ok.2 ⟨text, u', htext', rfl⟩

/-! ## 3.  Headers -/

theorem header_gives (g : Generator) (p : Profile) :
    Work.Gives (g.header p) (((g.pass p).perform {}).1.map (·.2)) :=
  (g.header_records p).gives

/-- A header that is made is made from the definitions in another order as well. -/
theorem header_ok_of_perm (h : (ds.map TypeDef.fullName).Nodup) (hperm : ds.Perm ds')
    {w w' : Workspace} {text : String}
    (hok : ((header ⟨.ofList ds, settings⟩ p).perform w).1 = .ok text) :
    ((header ⟨.ofList ds', settings⟩ p).perform w').1 = .ok text := by
  rw [header_gives] at hok ⊢
  rcases hpass : (pass ⟨.ofList ds, settings⟩ p).perform {} with ⟨e | ⟨declarations, text'⟩, s⟩
  · rw [hpass] at hok
    cases hok
  · rw [hpass] at hok
    obtain rfl : text' = text := Except.ok.inj hok
    obtain ⟨declarations', s', -, hpass'⟩ := pass_ok_of_perm h hperm hpass
    rw [hpass']
    rfl

/-- **The header does not depend on the order of the source.**  From definitions with distinct
full names in two orders the same text is made, or none from either. -/
theorem header_toOption_eq_of_perm (h : (ds.map TypeDef.fullName).Nodup) (hperm : ds.Perm ds')
    (settings : Settings) (p : Profile) (w w' : Workspace) :
    ((header ⟨.ofList ds, settings⟩ p).perform w).1.toOption =
      ((header ⟨.ofList ds', settings⟩ p).perform w').1.toOption := by
  have h' : (ds'.map TypeDef.fullName).Nodup := (hperm.map _).nodup_iff.1 h
  rcases hx : ((header ⟨.ofList ds, settings⟩ p).perform w).1 with e | text
  · rcases hy : ((header ⟨.ofList ds', settings⟩ p).perform w').1 with e' | text'
    · rfl
    · have hok : ((header ⟨.ofList ds, settings⟩ p).perform w).1 = .ok text' :=
        header_ok_of_perm h' hperm.symm hy
      rw [hx] at hok
      cases hok
  · rw [header_ok_of_perm h hperm hx]

/-- An enum of one kind of shape. -/
def kind : TypeDef where
  namespaceName := .str "Shapes"
  name := "KIND"
  isInterface := false
  baseType := .str "System.Enum"
  declaringType := .null
  explicitLayout := false
  interfaces := []
  fields := [⟨"CIRCLE", .primitive (.str "Int32"), some ⟨.str "Int32", .int 1⟩, false, []⟩]
  methods := []
  attributes := []

/-- A function type that takes a kind. -/
def visitor : TypeDef where
  namespaceName := .str "Shapes"
  name := "VISITOR"
  isInterface := false
  baseType := .str "System.MulticastDelegate"
  declaringType := .null
  explicitLayout := false
  interfaces := []
  fields := []
  methods := [
    ⟨"Invoke", .void, [⟨"kind", .named (.str "Shapes") (.str "KIND") .null true, []⟩], []⟩]
  attributes := []

/-- The GUID that ends with a number, as an attribute. -/
def guidMarked (last : Int) : Attribute :=
  ⟨.str guidAttribute, [.int 1, .int 2, .int 3, .int 0, .int 0, .int 0, .int 0, .int 0, .int 0,
    .int 0, .int last]⟩

/-- A profile that includes nothing. -/
def shapesProfile : Profile where
  namespaceName := "Shapes"
  outputFile := "shapes.h"
  library := "shapes"
  includes := []

/-- The two can be listed in either order, and there is a header. -/
theorem visitor_kind_header :
    ([visitor, kind].map TypeDef.fullName).Nodup ∧ [visitor, kind].Perm [kind, visitor] ∧
      ((header ⟨.ofList [visitor, kind], {}⟩ shapesProfile).perform
        { files := .fresh [] }).1.toOption.isSome = true ∧
      ((header ⟨.ofList [visitor, kind], {}⟩ shapesProfile).perform
          { files := .fresh [] }).1.toOption =
        ((header ⟨.ofList [kind, visitor], {}⟩ shapesProfile).perform
          { files := .fresh [] }).1.toOption := by
  have hnames : ([visitor, kind].map TypeDef.fullName).Nodup := by decide
  have hswap : [visitor, kind].Perm [kind, visitor] := .swap kind visitor []
  exact ⟨hnames, hswap, by decide +kernel, header_toOption_eq_of_perm hnames hswap {} _ _ _⟩

end Generator

end ComHeaders
