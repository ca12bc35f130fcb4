import ComHeaders.Proofs.Classification.Partition

/-!
# Excluded names

A profile lists the names of types that another header declares.  Classification looks at this list
in one place only, when it has come to an enum of the namespace itself.  This file says which of the
names on the list are declared all the same.

## 1.  Definitions that are declared anyway

`Profile.Insists` says of a definition that the list makes no difference to it.

## 2.  The names of a header

An excluded name is declared exactly if such a definition bears it (`mem_keysOf_iff_insists`), and
in all tables but that of the enums the list does not show at all (`mem_keysOf_of_excludedTypes`).
Both are parts of `classify_excluded_iff`.
-/

namespace ComHeaders

/-! ## 1.  Definitions that are declared anyway -/

/-- The kinds of declarations that are types.  The other two are what a container of globals
holds. -/
def DeclarationKind.IsType (kind : DeclarationKind) : Prop :=
  kind = .enum ∨ kind = .interface ∨ kind = .struct ∨ kind = .delegate

/-- A definition that is declared as something of a kind whether or not its name is excluded: one of
the namespace itself, unless it is the container of globals or an enum, or one that is borrowed. -/
inductive Profile.Insists (p : Profile) (r : Repository) (kind : DeclarationKind) (d : TypeDef) :
    Prop
  | own (h : r.Holds p.namespaceName d) (hname : d.name ≠ globalsContainer) (hkind : kind ≠ .enum)
  | borrowed {ns : String} (hshared : p.sharedNamespace = some ns ∧ ns ≠ "") (h : r.Holds ns d)
    (hallowed : d.name ∈ p.sharedAllowList) (hkind : kind.IsShareable)

/-! ## 2.  The names of a header -/

namespace Declarations

variable {r : Repository} {p : Profile} {ds ds' : Declarations} {s s' u u' : Session}
  {kind : DeclarationKind} {n : String}

/-- **An excluded name is declared** exactly if it is that of a definition that is declared
anyway. -/
theorem mem_keysOf_iff_insists (h : (collect r p).perform s = (.ok ds, s')) (hkind : kind.IsType)
    (hn : n ∈ p.excludedTypes) :
    n ∈ ds.keysOf kind ↔ ∃ d, d.name = n ∧ d.IsOfKind kind ∧ p.Insists r kind d := by
  obtain ⟨-, hkeys, -, -⟩ := keysOf_collect h
  simp only [hkeys, Repository.mem_typesIn, sharedNamespace?_eq_some]
  constructor
  · rintro (⟨d, hd, hown⟩ | ⟨ns, hns, d, hd, hallowed, hshareable, hof, rfl⟩)
    · rw [TypeDef.OwnKey] at hown
      split at hown
      · obtain ⟨rfl, -⟩ | ⟨rfl, -⟩ := hown
        · simp [DeclarationKind.IsType] at hkind
        · simp [DeclarationKind.IsType] at hkind
      · rename_i hname
        obtain ⟨hof, hincluded, rfl⟩ := hown
        exact ⟨d, rfl, hof, .own hd hname fun henum => hincluded henum hn⟩
    · exact ⟨d, rfl, hof, .borrowed hns hd hallowed hshareable⟩
  · rintro ⟨d, rfl, hof, ⟨hd, hname, hother⟩ | ⟨hns, hd, hallowed, hshareable⟩⟩
    · refine .inl ⟨d, hd, ?_⟩
      rw [TypeDef.OwnKey, if_neg hname]
      exact ⟨hof, fun henum => absurd henum hother, rfl⟩
    · exact .inr ⟨_, hns, d, hd, hallowed, hshareable, hof, rfl⟩

/-- Which names are excluded does not show in the tables of other things than enums. -/
theorem mem_keysOf_of_excludedTypes {excluded : List String}
    (h : (collect r p).perform s = (.ok ds, s'))
    (h' : (collect r { p with excludedTypes := excluded }).perform u = (.ok ds', u'))
    (hkind : kind ≠ .enum) : n ∈ ds.keysOf kind ↔ n ∈ ds'.keysOf kind := by
  obtain ⟨-, hkeys, -, -⟩ := keysOf_collect h
  obtain ⟨-, hkeys', -, -⟩ := keysOf_collect h'
  have hown (d : TypeDef) :
      d.OwnKey p kind n ↔ d.OwnKey { p with excludedTypes := excluded } kind n := by
    simp only [TypeDef.OwnKey, hkind, false_implies, true_and]
  rw [hkeys, hkeys']
  exact or_congr (exists_congr fun d => and_congr_right fun _ => hown d) Iff.rfl

/-- **What becomes of excluded names.**  Suppose that classification ends well.  An excluded name is
declared as a type of some kind exactly if it is that of a definition of that kind which is no enum
of the namespace itself, or which is borrowed.  So no excluded name is declared exactly if there are
no such definitions.  And had other names been excluded, the tables of interfaces, structs, function
types, constants and functions would hold the same names. -/
theorem classify_excluded_iff (r : Repository) (p : Profile) (ds : Declarations) (s s' : Session)
    (h : (classify r p).perform s = (.ok ds, s')) :
    (∀ kind, kind.IsType → ∀ n ∈ p.excludedTypes,
      (n ∈ ds.keysOf kind ↔ ∃ d, d.name = n ∧ d.IsOfKind kind ∧ p.Insists r kind d)) ∧
    ((∀ kind, kind.IsType → ∀ n ∈ p.excludedTypes, n ∉ ds.keysOf kind) ↔
      ∀ kind d, d.name ∈ p.excludedTypes → d.IsOfKind kind → ¬ p.Insists r kind d) ∧
    ∀ excluded ds' u u',
      (classify r { p with excludedTypes := excluded }).perform u = (.ok ds', u') →
        ∀ kind, kind ≠ .enum → ∀ n, n ∈ ds.keysOf kind ↔ n ∈ ds'.keysOf kind := by
  obtain ⟨t, t', hcollect⟩ := exists_collect_of_classify h
  refine ⟨fun kind hkind n hn => mem_keysOf_iff_insists hcollect hkind hn, ?_, ?_⟩
  · constructor
    · intro hnone kind d hd hof hinsists
      have htype : kind.IsType := by
        rcases kind <;> simp_all [TypeDef.IsOfKind, DeclarationKind.IsType]
      exact hnone kind htype d.name hd
        ((mem_keysOf_iff_insists hcollect htype hd).2 ⟨d, rfl, hof, hinsists⟩)
    · intro hnone kind hkind n hn hmem
      obtain ⟨d, rfl, hof, hinsists⟩ := (mem_keysOf_iff_insists hcollect hkind hn).1 hmem
      exact hnone kind d hn hof hinsists
  · intro excluded ds' u u' h' kind hkind n
    obtain ⟨v, v', hcollect'⟩ := exists_collect_of_classify h'
    exact mem_keysOf_of_excludedTypes hcollect hcollect' hkind

/-- The profile of the shapes, with a struct that it borrows among the excluded names. -/
def guardedProfile : Profile := { shapesProfile with excludedTypes := ["FILL", "POINT"] }

/-- The enum that is excluded is not declared, but the struct is. -/
theorem bareShapes_excluded :
    ∃ ds s', (classify (.ofList bareShapes) guardedProfile).perform {} = (.ok ds, s') ∧
      (∀ kind, kind.IsType → "FILL" ∉ ds.keysOf kind) ∧ "POINT" ∈ ds.keysOf .struct := by
  have hends : ((classify (.ofList bareShapes) guardedProfile).perform {}).1.isOk = true := by
    decide +kernel
  rcases h : (classify (.ofList bareShapes) guardedProfile).perform {} with ⟨e | ds, s'⟩
  · rw [h] at hends
    cases hends
  obtain ⟨hdeclared, -, -⟩ := classify_excluded_iff _ _ ds _ s' h
  refine ⟨ds, s', rfl, fun kind hkind hmem => ?_, ?_⟩
  · obtain ⟨d, hname, hof, hinsists⟩ := (hdeclared kind hkind "FILL" (.head _)).1 hmem
    rcases hinsists with ⟨hd, -, hother⟩ | ⟨-, -, hallowed, -⟩
    · have hfill : d = bareType "Shapes" "FILL" "System.Enum" := by
        have hmem := hd.mem
        simp only [Repository.ofList, bareShapes, List.mem_cons, List.not_mem_nil, or_false] at hmem
        rcases hmem with rfl | rfl | rfl
        · exact absurd hname (by decide)
        · rfl
        · exact absurd hname (by decide)
      exact hother (hof.unique (hfill ▸ rfl))
    · rw [hname] at hallowed
      exact absurd hallowed (by decide)
  · have hholds : (Repository.ofList bareShapes).Holds "Shapes.Common"
        (bareType "Shapes.Common" "POINT" "System.ValueType") :=
      ⟨.tail _ (.tail _ (.head _)), rfl, rfl⟩
    exact (hdeclared .struct (.inr (.inr (.inl rfl))) "POINT" (.tail _ (.head _))).2
      ⟨_, rfl, ⟨rfl, rfl⟩, .borrowed (by decide) hholds (.head _) (.inr (.inr rfl))⟩

/-- A struct of the namespace itself is declared although it is excluded. -/
theorem excludedStruct_declared :
    "POINT" ∈ guardedProfile.excludedTypes ∧
      ((classify (.ofList [bareType "Shapes" "POINT" "System.ValueType"]) guardedProfile).perform
        {}).1.toOption.map (fun ds => ds.keysOf .struct) = some ["POINT"] := by
  decide +kernel

end Declarations

end ComHeaders
