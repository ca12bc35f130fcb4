import ComHeaders.Proofs.Classification.Agreement
import ComHeaders.Proofs.Keys
import ComHeaders.Proofs.SourceOrder
import ComHeaders.Proofs.Structs.Origins

/-!
# What a header can reach

A header is made from some definitions of a metadata set: those of its namespaces, and those that
are come to from there by references.  The set may hold any number of other definitions.  This
file proves that they do not show: whoever makes a header asks for a definition only by a name
that another one refers to.

## 1.  References in definitions

A reference occurs in a definition if it is the type of a field, a parameter or a result, or a
base, or what is left of one of these when some of the pointers and arrays around it are taken
off (`TypeDef.references`).  A name is reachable if a definition bears it or a reference that
occurs in one does.

## 2.  Repositories that agree

Two repositories agree on some definitions if they lead from every reachable name to the same one
of them.

## 3.  Structs and interfaces

A struct is described by going inward, from definition to definition.  This never leaves the
definitions that the repositories agree on, so it comes out the same.  An interface is described
from one definition, and its base is looked up by a name that is reachable.

## 4.  Headers

Headers agree where repositories and classifications do (`header_eq_of_classify`), in particular
where repositories also have the same definitions in the namespaces (`header_eq_of_agreeOn`).
Repositories agree if one holds more than the other, none of it with a reachable name
(`agreeOn_of_unreachable`), and that is the result, `header_eq_of_unreachable`.
-/

namespace ComHeaders

open Pass (Agree)

/-! ## 1.  References in definitions -/

namespace TypeRef

/-- A reference, and what is left of it when its layers are taken off one by one. -/
def parts : TypeRef → List TypeRef
  | .pointer element => .pointer element :: element.parts
  | .array element length => .array element length :: element.parts
  | r => [r]

theorem self_mem_parts (r : TypeRef) : r ∈ r.parts := by
  cases r <;> simp [parts]

theorem innermost_mem_parts (r : TypeRef) : r.innermost ∈ r.parts := by
  induction r with
  | pointer _ ih => exact List.mem_cons_of_mem _ ih
  | array _ _ ih => exact List.mem_cons_of_mem _ ih
  | void => exact List.mem_singleton_self _
  | primitive _ => exact List.mem_singleton_self _
  | named _ _ _ _ => exact List.mem_singleton_self _

/-- The parts of a part are parts. -/
theorem parts_subset {q r : TypeRef} (h : q ∈ r.parts) : q.parts ⊆ r.parts := by
  induction r with
  | pointer element ih =>
    rcases List.mem_cons.1 h with rfl | h
    · exact List.Subset.refl _
    · exact List.subset_cons_of_subset _ (ih h)
  | array element length ih =>
    rcases List.mem_cons.1 h with rfl | h
    · exact List.Subset.refl _
    · exact List.subset_cons_of_subset _ (ih h)
  | void =>
    obtain rfl := List.mem_singleton.1 h
    exact List.Subset.refl _
  | primitive _ =>
    obtain rfl := List.mem_singleton.1 h
    exact List.Subset.refl _
  | named _ _ _ _ =>
    obtain rfl := List.mem_singleton.1 h
    exact List.Subset.refl _

end TypeRef

/-- The references that occur in a signature. -/
def Method.references (m : Method) : List TypeRef :=
  m.returnType.parts ++ m.parameters.flatMap fun p => p.type.parts

/-- The references that occur in a definition: in the types of its fields, in its signatures and
among its bases. -/
def TypeDef.references (d : TypeDef) : List TypeRef :=
  (d.fields.flatMap fun f => f.type.parts) ++ d.methods.flatMap Method.references ++
    d.interfaces.flatMap TypeRef.parts

/-- A name that one of some definitions bears, or a reference that occurs in one of them. -/
def Reachable (R : List TypeDef) (name : String) : Prop :=
  ∃ d ∈ R, d.fullName = name ∨ ∃ q ∈ d.references, q.isCalled name = true

instance (R : List TypeDef) (name : String) : Decidable (Reachable R name) :=
  inferInstanceAs (Decidable (∃ d ∈ R, d.fullName = name ∨ ∃ q ∈ d.references, _))

namespace TypeDef

variable {d : TypeDef} {q : TypeRef}

theorem mem_references_of_field {f : Field} (hf : f ∈ d.fields) (hq : q ∈ f.type.parts) :
    q ∈ d.references :=
  List.mem_append_left _ (List.mem_append_left _ (List.mem_flatMap.2 ⟨f, hf, hq⟩))

theorem mem_references_of_base (hq : q ∈ d.interfaces) : q ∈ d.references :=
  List.mem_append_right _ (List.mem_flatMap.2 ⟨q, hq, q.self_mem_parts⟩)

theorem mem_references_of_method {m : Method} (hm : m ∈ d.methods)
    (hq : (MethodDecl.describe m).Mentions q) : q ∈ d.references := by
  refine List.mem_append_left _ (List.mem_append_right _ (List.mem_flatMap.2 ⟨m, hm, ?_⟩))
  rcases hq with rfl | ⟨p, hp, rfl⟩
  · exact List.mem_append_left _ (TypeRef.self_mem_parts _)
  · obtain ⟨p', hp', rfl⟩ := List.mem_map.1 hp
    exact List.mem_append_right _ (List.mem_flatMap.2 ⟨p', hp', TypeRef.self_mem_parts _⟩)

theorem innermost_mem_references (h : q ∈ d.references) : q.innermost ∈ d.references := by
  simp only [references, Method.references, List.mem_append, List.mem_flatMap] at h ⊢
  have hinner {r : TypeRef} (hq : q ∈ r.parts) : q.innermost ∈ r.parts :=
    TypeRef.parts_subset hq q.innermost_mem_parts
  rcases h with (⟨f, hf, hq⟩ | ⟨m, hm, hq | ⟨p, hp, hq⟩⟩) | ⟨r, hr, hq⟩
  · exact .inl (.inl ⟨f, hf, hinner hq⟩)
  · exact .inl (.inr ⟨m, hm, .inl (hinner hq)⟩)
  · exact .inl (.inr ⟨m, hm, .inr ⟨p, hp, hinner hq⟩⟩)
  · exact .inr ⟨r, hr, hinner hq⟩

end TypeDef

/-! ## 2.  Repositories that agree -/

namespace Repository

variable {R : List TypeDef} {r r' : Repository}

/-- Two repositories that find the same under every reachable name, and nothing but the given
definitions. -/
structure AgreeOn (R : List TypeDef) (r r' : Repository) : Prop where
  find? : ∀ {name}, Reachable R name → r.find? name = r'.find? name
  mem : ∀ {name d}, Reachable R name → r'.find? name = some d → d ∈ R
  count : ∀ {name}, Reachable R name → r.index.keys.count name = r'.index.keys.count name

namespace AgreeOn

/-- A reference that occurs in one of the definitions leads to the same one of them, if it leads
to a definition at all. -/
theorem resolve (h : AgreeOn R r r') {d : TypeDef} (hd : d ∈ R) {q : TypeRef}
    (hq : q ∈ d.references) :
    r.resolve q = r'.resolve q ∧ ∀ e, r'.resolve q = .ok (some e) → e ∈ R := by
  have hinner := TypeDef.innermost_mem_references hq
  rw [Repository.resolve, Repository.resolve]
  rcases hinnermost : q.innermost with _ | _ | _ | _ | ⟨ns, name, declaring, isValue⟩
  case named =>
    show r.findKey (TypeRef.qualify ns name declaring) =
        r'.findKey (TypeRef.qualify ns name declaring) ∧
      ∀ e, r'.findKey (TypeRef.qualify ns name declaring) = .ok (some e) → e ∈ R
    rw [findKey.eq_def, findKey.eq_def]
    rcases hname : TypeRef.qualify ns name declaring with _ | _ | _ | _ | k | _ | _
    case str =>
      have hk : Reachable R k := by
        refine ⟨d, hd, .inr ⟨_, hinner, TypeRef.isCalled_iff.2 ?_⟩⟩
        rw [hinnermost, TypeRef.fullName, hname]
      exact ⟨by simp only [h.find? hk], fun e he => h.mem hk (Except.ok.inj he)⟩
    all_goals simp [Value.isKey]
  all_goals simp

end AgreeOn

end Repository

/-! ## 3.  Structs and interfaces -/

namespace FieldDecl

variable {r : Repository} {Known : TypeDef → Prop}

/-- If all definitions that fields lead to are known, then so are those that can be come to by going
from definition to nested definition. -/
theorem known_of_nests
    (hknown : ∀ {d : TypeDef}, Known d → ∀ f ∈ d.fields,
      ∀ e, r.resolve f.type = .ok (some e) → Known e)
    {d e : TypeDef} (hd : Known d) (h : Relation.ReflTransGen r.Nests d e) : Known e := by
  induction h with
  | refl => exact hd
  | tail _ hstep ih =>
    obtain ⟨f, hf, henters⟩ := hstep
    exact hknown ih f hf _ henters.resolve

/-- **Members are written in definitions.**  What described fields mention occurs in a field of a
definition that can be come to. -/
theorem exists_part_of_describe
    (hknown : ∀ {d : TypeDef}, Known d → ∀ f ∈ d.fields,
      ∀ e, r.resolve f.type = .ok (some e) → Known e)
    {enterable : List String} {d : TypeDef} (hd : Known d) {fields : List FieldDecl}
    (h : d.fields.mapM (describe r enterable d.name) = .ok fields) {q : TypeRef}
    (hq : Mentions fields q) : ∃ e, Known e ∧ ∃ f ∈ e.fields, q ∈ f.type.parts := by
  -- The reference is mentioned by a plain member of that type or by an array of it.
  obtain ⟨g, hg, hpart⟩ : ∃ g, g.Within fields ∧
      ∀ enterable owner f, Made r enterable owner f g → q ∈ f.type.parts := by
    rcases hq with ⟨name, groups, hg⟩ | ⟨name, length, hg⟩
    · refine ⟨_, hg, fun _ _ f hmade => ?_⟩
      cases hmade with
      | plain => exact f.type.self_mem_parts
    · refine ⟨_, hg, fun _ _ f hmade => ?_⟩
      cases hmade with
      | array htype => exact htype ▸ List.mem_cons_of_mem _ (TypeRef.self_mem_parts _)
  obtain ⟨owner, f, hdeclares⟩ := exists_declares h hg
  obtain ⟨hf, hnests, _, hdescribed⟩ := hdeclares.origin h
  exact ⟨owner, known_of_nests hknown hd hnests, f, hf, hpart _ _ f (made_of_describe hdescribed)⟩

end FieldDecl

namespace InterfaceDecl

variable {R : List TypeDef} {d : TypeDef} {i : InterfaceDecl}

/-- An interface is described by one of some definitions. -/
def IsOf (R : List TypeDef) (i : InterfaceDecl) : Prop :=
  ∃ d ∈ R, ofDefinition d = .ok i

/-- The parts of an interface that come from its definition. -/
theorem of_ofDefinition (h : ofDefinition d = .ok i) :
    i.fullName = d.fullName ∧ i.methods = d.methods.map MethodDecl.describe ∧
      ∀ b, i.base = some b → ∃ q ∈ d.interfaces, q.fullName = .ok b := by
  rw [ofDefinition] at h
  split at h
  · cases h
  obtain ⟨base, hbase, h⟩ := Result.bind_eq_ok.1 h
  obtain ⟨guid, -, h⟩ := Result.bind_eq_ok.1 h
  obtain rfl := Except.ok.inj h
  refine ⟨rfl, rfl, ?_⟩
  rintro b rfl
  rcases hinterfaces : d.interfaces with _ | ⟨q, rest⟩
  · rw [hinterfaces, baseOf] at hbase
    cases hbase
  · refine ⟨q, List.mem_cons_self, ?_⟩
    rw [hinterfaces, baseOf] at hbase
    obtain ⟨name, hname, hbase⟩ := Result.bind_eq_ok.1 hbase
    have hq : q.fullName = .ok name := by
      rcases hfull : q.fullName with e | v <;> simp [hfull, faulty, Except.mapError] at hname ⊢
      exact hname
    split at hbase
    · cases hbase
    · rw [hq, Option.some.inj (Except.ok.inj hbase)]

end InterfaceDecl

namespace Repository.AgreeOn

variable {R : List TypeDef} {r r' : Repository}

/-- The definitions are described alike. -/
theorem describable (h : AgreeOn R r r') {d : TypeDef} (hd : d ∈ R) :
    Declarations.Describable (Session.Same (fun _ => True) (InterfaceDecl.IsOf R)) r r'
      (fun q => r.resolve q = r'.resolve q) (InterfaceDecl.IsOf R) d where
  struct := by
    refine StructDecl.describe_eq (fun hd f hf => ?_) (fun hd => ?_) hd
    · exact h.resolve hd (TypeDef.mem_references_of_field hf f.type.self_mem_parts)
    · exact h.count ⟨_, hd, .inl rfl⟩
  members s hs q hq := by
    obtain ⟨fields, hfields, hs⟩ := Result.bind_eq_ok.1 hs
    obtain rfl := Except.ok.inj hs
    obtain ⟨e, he, f', hf', hpart⟩ := FieldDecl.exists_part_of_describe
      (fun hd f hf => (h.resolve hd (TypeDef.mem_references_of_field hf f.type.self_mem_parts)).2)
      hd hfields hq
    exact (h.resolve he (TypeDef.mem_references_of_field hf' hpart)).1
  methods m hm q hq := (h.resolve hd (TypeDef.mem_references_of_method hm hq)).1
  interface := InterfaceDecl.agree_describe fun i hi => ⟨d, hd, hi⟩

/-- The base chains of the interfaces agree. -/
theorem agree_chain (h : AgreeOn R r r') {i : InterfaceDecl} (hi : i.IsOf R) :
    Agree (Session.Same (fun _ => True) (InterfaceDecl.IsOf R)) (Wrapper.chain r i)
      (Wrapper.chain r' i) fun is => ∀ j ∈ is, j.IsOf R := by
  refine Wrapper.agree_chain ?_ ?_ hi
  · rintro j b ⟨d, hd, hj⟩ hb
    obtain ⟨-, -, hbase⟩ := InterfaceDecl.of_ofDefinition hj
    obtain ⟨q, hq, hname⟩ := hbase b hb
    have hreach (k : String) (hk : b = .str k) : Reachable R k :=
      ⟨d, hd, .inr ⟨q, TypeDef.mem_references_of_base hq, TypeRef.isCalled_iff.2 (hk ▸ hname)⟩⟩
    exact InterfaceDecl.agree_lookup (fun k hk => h.find? (hreach k hk))
      fun k e i hk he hi => ⟨e, h.mem (hreach k hk) he, hi⟩
  · rintro j ⟨d, hd, hj⟩
    exact h.count ⟨d, hd, .inl (InterfaceDecl.of_ofDefinition hj).1.symm⟩

theorem concur (tags : List String) :
    Naming.Concur (Session.Same (fun _ => True) (InterfaceDecl.IsOf R))
      (fun q => r.resolve q = r'.resolve q) (fun _ => True) ⟨r, tags⟩ ⟨r', tags⟩ where
  name hq := by
    have htags : (⟨r, tags⟩ : Naming).taggedEnums = (⟨r', tags⟩ : Naming).taggedEnums := rfl
    exact Naming.agree_name (Naming.recording_same _ _) ⟨Iff.rfl, fun _ _ => trivial⟩ htags hq
      fun _ _ => trivial
  isEnum hq := Naming.isEnum_eq hq

end Repository.AgreeOn

/-! ## 4.  Headers -/

namespace Generator

variable {R X L : List TypeDef} {r r' : Repository} {settings : Settings} {p : Profile}

/-- Headers agree where repositories and classifications do. -/
theorem header_eq_of_classify (h : r.AgreeOn R r')
    (hclassify : Agree (Session.Same (fun _ => True) (InterfaceDecl.IsOf R))
      (Declarations.classify r p) (Declarations.classify r' p)
      (Declarations.Keep (fun q => r.resolve q = r'.resolve q) (InterfaceDecl.IsOf R)))
    (w w' : Workspace) :
    ((header ⟨r, settings⟩ p).perform w).1 = ((header ⟨r', settings⟩ p).perform w').1 := by
  have hpass : Agree (Session.Same (fun _ => True) (InterfaceDecl.IsOf R)) (pass ⟨r, settings⟩ p)
      (pass ⟨r', settings⟩ p) fun _ => True := by
    refine hclassify.bind fun ds hds => ?_
    refine (agree_headerText (C := fun _ _ => True) (Repository.AgreeOn.concur p.taggedEnums)
      settings p hds.mention fun i hi => ?_).bind fun _ _ => .pure trivial
    refine (h.agree_chain (hds.interfaces i hi)).weaken fun is his => ⟨trivial, ?_⟩
    rintro j hj q ⟨m, hm, hq⟩
    obtain ⟨d, hd, hdj⟩ := his j hj
    rw [(InterfaceDecl.of_ofDefinition hdj).2.1] at hm
    obtain ⟨m', hm', rfl⟩ := List.mem_map.1 hm
    exact (h.describable hd).methods m' hm' q hq
  rw [header_gives, header_gives, (hpass {} {} (.start _ _)).1]

/-- **Headers from repositories that agree.** -/
theorem header_eq_of_agreeOn (h : r.AgreeOn R r')
    (htypes : r.typesIn (.str p.namespaceName) = r'.typesIn (.str p.namespaceName))
    (hshared : ∀ ns, Declarations.sharedNamespace? p = some ns →
      r.typesIn (.str ns) = r'.typesIn (.str ns))
    (hmem : ∀ d ∈ r'.definitions, d ∈ R) (w w' : Workspace) :
    ((header ⟨r, settings⟩ p).perform w).1 = ((header ⟨r', settings⟩ p).perform w').1 :=
  header_eq_of_classify h (Declarations.agree_classify htypes hshared fun _ _ hd =>
    h.describable (hmem _ (List.mem_of_mem_filter hd))) w w'

theorem filter_eq_of_rest (hsub : R.Sublist L) (hperm : L.Perm (R ++ X)) {P : TypeDef → Bool}
    (hrest : ∀ x ∈ X, P x = false) : L.filter P = R.filter P := by
  have hX : X.filter P = [] := List.filter_eq_nil_iff.2 fun x hx => by simp [hrest x hx]
  have hlength : (R.filter P).length = (L.filter P).length := by
    rw [(hperm.filter P).length_eq, List.filter_append, hX, List.append_nil]
  exact ((hsub.filter P).eq_of_length hlength).symm

/-- Definitions whose names are not reachable make no difference. -/
theorem agreeOn_of_unreachable (hsub : R.Sublist L) (hperm : L.Perm (R ++ X))
    (hnames : ∀ x ∈ X, ¬ Reachable R x.fullName) :
    (Repository.ofList L).AgreeOn R (.ofList R) := by
  have hfind {name : String} (hname : Reachable R name) :
      (Repository.ofList L).find? name = (Repository.ofList R).find? name := by
    rw [Repository.find?_ofList, Repository.find?_ofList, ← List.head?_filter,
      ← List.head?_filter, filter_eq_of_rest hsub hperm]
    intro x hx
    exact decide_eq_false fun heq => hnames x hx (heq ▸ hname)
  refine ⟨hfind, fun {name d} _ hd => ?_, fun {name} hname => ?_⟩
  · rw [Repository.find?_ofList] at hd
    exact List.mem_of_find?_eq_some hd
  · have hmem : name ∈ (Repository.ofList L).index.keys ↔
        name ∈ (Repository.ofList R).index.keys := by
      rw [← Table.isSome_lookup_iff, ← Table.isSome_lookup_iff]
      exact iff_of_eq (congrArg (·.isSome = true) (hfind hname))
    rw [(Repository.nodup_keys_ofList L).count, (Repository.nodup_keys_ofList R).count]
    simp only [hmem]

/-- **A header depends only on what it can reach.**  Definitions outside the namespaces of the
profile, whose names no other definition bears or refers to, can be anywhere among the others:
the same text is made, or the same failure is met. -/
theorem header_eq_of_unreachable (hsub : R.Sublist L) (hperm : L.Perm (R ++ X))
    (hplace : ∀ x ∈ X, x.declaringType = .null → x.namespaceName ≠ .str p.namespaceName ∧
      ∀ ns, Declarations.sharedNamespace? p = some ns → x.namespaceName ≠ .str ns)
    (hnames : ∀ x ∈ X, ¬ Reachable R x.fullName) (settings : Settings) (w w' : Workspace) :
    ((header ⟨.ofList L, settings⟩ p).perform w).1 =
      ((header ⟨.ofList R, settings⟩ p).perform w').1 := by
  have htypes {ns : String}
      (hns : ∀ x ∈ X, x.declaringType = .null → x.namespaceName ≠ .str ns) :
      (Repository.ofList L).typesIn (.str ns) = (Repository.ofList R).typesIn (.str ns) := by
    refine filter_eq_of_rest hsub hperm fun x hx => ?_
    by_contra hin
    rw [Bool.not_eq_false] at hin
    obtain ⟨-, hnamespace, hdeclaring⟩ := (Repository.mem_typesIn (r := .ofList X)).1
      (List.mem_filter.2 ⟨hx, hin⟩)
    exact hns x hx hdeclaring hnamespace
  exact header_eq_of_agreeOn (agreeOn_of_unreachable hsub hperm hnames)
    (htypes fun x hx hd => (hplace x hx hd).1)
    (fun ns hns => htypes fun x hx hd => (hplace x hx hd).2 ns hns) (fun _ hd => hd) w w'

/-- An enum of another namespace that bears the simple name of a kind. -/
def strayKind : TypeDef :=
  { kind with namespaceName := .str "Colours" }

/-- It may stand between the two. -/
theorem strayKind_unreachable :
    ((header ⟨.ofList [visitor, kind], {}⟩ shapesProfile).perform
        { files := .fresh [] }).1.toOption.isSome = true ∧
      ((header ⟨.ofList [visitor, strayKind, kind], {}⟩ shapesProfile).perform
          { files := .fresh [] }).1 =
        ((header ⟨.ofList [visitor, kind], {}⟩ shapesProfile).perform
          { files := .fresh [] }).1 := by
  have hsub : [visitor, kind].Sublist [visitor, strayKind, kind] :=
    .cons_cons _ (.cons _ (.refl _))
  have hperm : [visitor, strayKind, kind].Perm ([visitor, kind] ++ [strayKind]) :=
    .cons _ (.swap _ _ _)
  have hplace : ∀ x ∈ [strayKind], x.declaringType = .null →
      x.namespaceName ≠ .str shapesProfile.namespaceName ∧
        ∀ ns, Declarations.sharedNamespace? shapesProfile = some ns →
          x.namespaceName ≠ .str ns := by
    intro x hx _
    obtain rfl := List.mem_singleton.1 hx
    exact ⟨by simp [strayKind, shapesProfile],
      by simp [Declarations.sharedNamespace?, shapesProfile]⟩
  have hnames : ∀ x ∈ [strayKind], ¬ Reachable [visitor, kind] x.fullName := by
    intro x hx
    obtain rfl := List.mem_singleton.1 hx
    decide
  have hmade : ((header ⟨.ofList [visitor, kind], {}⟩ shapesProfile).perform
      { files := .fresh [] }).1.toOption.isSome = true := by
    decide +kernel
  exact ⟨hmade, header_eq_of_unreachable hsub hperm hplace hnames {} _ _⟩

end Generator

end ComHeaders
