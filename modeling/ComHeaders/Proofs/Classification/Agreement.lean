import ComHeaders.Proofs.Sections

/-!
# What classification depends on

A namespace is classified definition by definition.  What one of them adds depends on the
definition itself, on the interfaces that were described before, and, if it is a struct, on the
definitions that its fields lead to.  So two classifications agree if they go through the same
definitions and describe each of them alike (`agree_classify`).

Whatever is declared comes from a definition, and so do the references in it.  What is known of
the definitions of a namespace is thus known of its declarations.

## 1.  Definitions

`Describable` says of a definition what classification needs.

## 2.  The whole namespace

Each definition is added alike, and so are all of them.
-/

namespace ComHeaders

open Pass (Agree)

namespace Declarations

variable {S : Session → Session → Prop} {r r' : Repository} {Asked : TypeRef → Prop}
  {Known : InterfaceDecl → Prop} {p : Profile} {ds : Declarations} {d : TypeDef}

/-! ## 1.  Definitions -/

/-- A definition that is described alike with two repositories and mentions only references of a
kind. -/
structure Describable (S : Session → Session → Prop) (r r' : Repository) (Asked : TypeRef → Prop)
    (Known : InterfaceDecl → Prop) (d : TypeDef) : Prop where
  struct : StructDecl.describe r d = StructDecl.describe r' d
  members : ∀ s, StructDecl.describe r' d = .ok s → ∀ q, FieldDecl.Mentions s.fields q → Asked q
  methods : ∀ m ∈ d.methods, ∀ q, (MethodDecl.describe m).Mentions q → Asked q
  interface : Agree S (InterfaceDecl.describe d) (InterfaceDecl.describe d) Known

/-- Declarations that mention only references of a kind and hold only interfaces of a kind. -/
structure Keep (Asked : TypeRef → Prop) (Known : InterfaceDecl → Prop) (ds : Declarations) :
    Prop where
  mention : ds.Mention Asked
  interfaces : ∀ i ∈ ds.interfaces.values, Known i

theorem Keep.empty (namespaceName : String) : Keep Asked Known { namespaceName } where
  mention := ⟨by simp [Table.values], by simp [Table.values], by simp [Table.values]⟩
  interfaces := by simp [Table.values]

/-! ## 2.  The whole namespace -/

theorem agree_addGlobals (hd : Describable S r r' Asked Known d) (hds : ds.Keep Asked Known) :
    Agree S (Pass.ofExcept (ds.addGlobals d)) (Pass.ofExcept (ds.addGlobals d))
      (Keep Asked Known) := by
  refine .ofExcept fun made hmade => ?_
  obtain ⟨constants, -, hmade⟩ := Result.bind_eq_ok.1 hmade
  obtain rfl := Except.ok.inj hmade
  refine ⟨⟨hds.mention.delegates, hds.mention.structs, fun m hm => ?_⟩, hds.interfaces⟩
  rcases Table.mem_values_foldl_set hm with ⟨m', hm', rfl⟩ | hm
  · exact hd.methods m' hm'
  · exact hds.mention.functions m hm

theorem agree_addEnum (hds : ds.Keep Asked Known) :
    Agree S (Pass.ofExcept (ds.addEnum d)) (Pass.ofExcept (ds.addEnum d)) (Keep Asked Known) := by
  refine .ofExcept fun made hmade => ?_
  obtain ⟨e, -, hmade⟩ := Result.bind_eq_ok.1 hmade
  obtain rfl := Except.ok.inj hmade
  exact ⟨⟨hds.mention.delegates, hds.mention.structs, hds.mention.functions⟩, hds.interfaces⟩

theorem agree_addInterface (hd : Describable S r r' Asked Known d) (hds : ds.Keep Asked Known) :
    Agree S (ds.addInterface d) (ds.addInterface d) (Keep Asked Known) := by
  refine hd.interface.bind fun i hi => .pure ⟨⟨hds.mention.delegates, hds.mention.structs,
    hds.mention.functions⟩, fun j hj => ?_⟩
  rcases Table.mem_values_set hj with rfl | hj
  · exact hi
  · exact hds.interfaces j hj

theorem agree_addStruct (hd : Describable S r r' Asked Known d) (hds : ds.Keep Asked Known) :
    Agree S (Pass.ofExcept (ds.addStruct r d)) (Pass.ofExcept (ds.addStruct r' d))
      (Keep Asked Known) := by
  rw [addStruct, addStruct, hd.struct]
  refine .ofExcept fun made hmade => ?_
  obtain ⟨s, hs, hmade⟩ := Result.bind_eq_ok.1 hmade
  obtain rfl := Except.ok.inj hmade
  refine ⟨⟨hds.mention.delegates, fun s' hs' => ?_, hds.mention.functions⟩, hds.interfaces⟩
  rcases Table.mem_values_set hs' with rfl | hs'
  · exact hd.members s' hs
  · exact hds.mention.structs s' hs'

theorem agree_addDelegate (hd : Describable S r r' Asked Known d) (hds : ds.Keep Asked Known) :
    Agree S (Pass.ofExcept (ds.addDelegate d)) (Pass.ofExcept (ds.addDelegate d))
      (Keep Asked Known) := by
  refine .ofExcept fun made hmade => ?_
  obtain ⟨m, hm, hmade⟩ := Result.bind_eq_ok.1 hmade
  obtain rfl := Except.ok.inj hmade
  refine ⟨⟨fun m' hm' => ?_, hds.mention.structs, hds.mention.functions⟩, hds.interfaces⟩
  rcases Table.mem_values_set hm' with rfl | hm'
  · rw [MethodDecl.describeDelegate] at hm
    split at hm
    · rename_i invoke hinvoke
      obtain rfl := Except.ok.inj hm
      exact hd.methods invoke (List.mem_of_find?_eq_some hinvoke)
    · cases hm
  · exact hds.mention.delegates m' hm'

/-- A definition of the namespace itself is added alike. -/
theorem agree_addOwn [Session.Quiet S] (hd : Describable S r r' Asked Known d)
    (hds : ds.Keep Asked Known) :
    Agree S (addOwn r p ds d) (addOwn r' p ds d) (Keep Asked Known) := by
  rw [addOwn, addOwn]
  split
  · exact agree_addGlobals hd hds
  split
  · split
    · exact .note_bind _ _ (.pure hds)
    · exact agree_addEnum hds
  split
  · exact agree_addInterface hd hds
  split
  · exact agree_addStruct hd hds
  split
  · exact agree_addDelegate hd hds
  · exact .throw _

/-- A definition of the shared namespace is added alike. -/
theorem agree_addShared [Session.Quiet S] (hd : Describable S r r' Asked Known d)
    (hds : ds.Keep Asked Known) :
    Agree S (addShared r p ds d) (addShared r' p ds d) (Keep Asked Known) := by
  rw [addShared, addShared]
  split
  · exact .pure hds
  refine .note_bind _ _ ?_
  split
  · exact agree_addEnum hds
  split
  · exact agree_addInterface hd hds
  split
  · exact agree_addStruct hd hds
  · exact .throw _

/-- Classifications agree if the definitions of both namespaces are added alike. -/
theorem agree_classify_of_foldlM [Session.Quiet S] {K : Declarations → Prop}
    (hstart : K { namespaceName := p.namespaceName })
    (hown : ∀ ds, K ds → Agree S ((r.typesIn (.str p.namespaceName)).foldlM (addOwn r p) ds)
      ((r'.typesIn (.str p.namespaceName)).foldlM (addOwn r' p) ds) K)
    (hshared : ∀ ns, sharedNamespace? p = some ns → ∀ ds, K ds →
      Agree S ((r.typesIn (.str ns)).foldlM (addShared r p) ds)
        ((r'.typesIn (.str ns)).foldlM (addShared r' p) ds) K) :
    Agree S (classify r p) (classify r' p) K := by
  refine Agree.timed _ _ (Agree.bind ?_ fun ds hds => .note_bind _ _ (.pure hds))
  refine (hown _ hstart).bind fun own hkeep => ?_
  rcases hns : sharedNamespace? p with _ | ns
  · exact .pure hkeep
  · exact hshared ns hns own hkeep

/-- **Classifications agree where definitions are described alike.** -/
theorem agree_classify [Session.Quiet S]
    (htypes : r.typesIn (.str p.namespaceName) = r'.typesIn (.str p.namespaceName))
    (hshared : ∀ ns, sharedNamespace? p = some ns → r.typesIn (.str ns) = r'.typesIn (.str ns))
    (hd : ∀ ns, ∀ d ∈ r'.typesIn ns, Describable S r r' Asked Known d) :
    Agree S (classify r p) (classify r' p) (Keep Asked Known) := by
  refine agree_classify_of_foldlM (.empty _) (fun ds hds => ?_) fun ns hns ds hds => ?_
  · rw [htypes]
    exact .foldlM (fun ds hds d hmem => agree_addOwn (hd _ d hmem) hds) hds
  · rw [hshared ns hns]
    exact .foldlM (fun ds hds d hmem => agree_addShared (hd _ d hmem) hds) hds

end Declarations

end ComHeaders
