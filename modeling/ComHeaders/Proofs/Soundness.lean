import ComHeaders.Proofs.Classification.Agreement
import ComHeaders.Proofs.Dispatch.Slots
import ComHeaders.Proofs.SourceOrder
import ComHeaders.Proofs.ValueTexts

/-!
# What a header shows of its metadata

A header relies on assumptions about the metadata: that interfaces have GUIDs and chains of bases
that end, that arrays have elements that C can declare in place, that primitives have aliases.  No
single part of the program checks them all.  They are met one after the other while the sections
are written, some of them only when a column is measured.  This file proves that none of them is
missed: once there is a header, they hold of all that was classified.

## 1.  Supported references

A primitive without an alias has no name, and neither has a pointer to one or an array of them.
So a reference that has got a name is supported (`TypeRef.isSupported_of_baseName`), and so is
every reference that is remembered.

## 2.  Answers

While sections are written, the answers about interfaces stay those that classification has left
behind.  A base chain is walked by these answers, and no interface is met twice.

## 3.  Headers

`written_of_header` is the result.
-/

namespace ComHeaders

open Pass (Agree)

/-! ## 1.  Supported references -/

/-- At the end of all layers there is no primitive without an alias, apart from two names for which
there are other rules. -/
def TypeRef.IsSupported (r : TypeRef) : Prop :=
  ∀ n, r.innermost = .primitive n →
    (Naming.aliasOf? n).isSome = true ∨ n = .str "Guid" ∨ n = .str "PWSTR"

namespace TypeRef

/-- Support is a matter of the innermost element as a key. -/
theorem inherent_isSupported : Inherent IsSupported where
  innermost {r} := by rw [IsSupported, IsSupported, r.innermost_innermost]
  sameKey {q r} h hq n hn := by
    have hinnermost := innermost_sameKey h
    rw [hn] at hinnermost
    rcases hm : q.innermost with _ | m | _ | _ | _ <;>
      simp only [hm, sameKey, Bool.false_eq_true] at hinnermost
    have hstr (k : String) (hk : m = .str k) : n = .str k := by
      subst hk
      cases n <;> simp_all [Value.sameKey]
    rcases hq m hm with halias | hguid | hpwstr
    · rcases m with _ | _ | _ | _ | k | _ | _ <;> try cases halias
      rw [hstr k rfl]
      exact .inl halias
    · exact .inr (.inl (hstr _ hguid))
    · exact .inr (.inr (hstr _ hpwstr))

/-- **The rules name no primitive without an alias.** -/
theorem isSupported_of_baseName {naming : Naming} {r : TypeRef} {v : Value}
    (h : naming.baseName r.innermost = .ok v) : r.innermost.IsSupported := by
  intro n hn
  rw [innermost_innermost] at hn
  rw [hn, Naming.baseName, if_neg (by simp [isVoid])] at h
  split at h
  · rename_i hcalled
    refine .inr (.inl (Value.eq_str_of_text rfl ?_))
    rw [isCalled_iff, fullName, Except.ok.injEq, Value.str.injEq] at hcalled
    exact (String.append_right_inj _).1 hcalled
  · split at h
    · rename_i hname
      refine .inr (.inr ?_)
      cases n <;> simp_all [name, Value.sameKey]
    · rw [if_pos (by rfl)] at h
      split at h
      · rename_i halias
        exact .inl (Option.isSome_of_mem halias)
      · cases h

end TypeRef

/-! ## 2.  Answers -/

/-- Sessions that give the same answers, which are given ones, and remember the same names, all of
them for references of a kind. -/
structure Session.Answering (r : Repository) (answers : String → Except Failure InterfaceDecl)
    (Named : TypeRef → Prop) (s t : Session) : Prop where
  names : s.names = t.names
  named : ∀ e ∈ s.names, Named e.1
  left : ∀ k, s.interface? r k = answers k
  right : ∀ k, t.interface? r k = answers k

namespace Session.Answering

variable {r : Repository} {answers : String → Except Failure InterfaceDecl}
  {Named : TypeRef → Prop}

instance : Session.Quiet (Session.Answering r answers Named) where
  journals h _ _ := ⟨h.names, h.named, h.left, h.right⟩

theorem recording : Session.Recording Named (Session.Answering r answers Named) where
  names h := h.names
  named h := h.named
  remember h q hq v := {
    names := congrArg (List.cons (q, v)) h.names
    named := List.forall_mem_cons.2 ⟨hq, h.named⟩
    left := h.left
    right := h.right }

/-- A look-up gives the answer and leaves the answers as they are. -/
theorem agree_lookup (hr : r.Indexed) (v : Value) :
    Agree (Session.Answering r answers Named) (InterfaceDecl.lookup r v)
      (InterfaceDecl.lookup r v) fun _ => True := by
  intro s t h
  by_cases hv : ∃ k, v = .str k
  · obtain ⟨k, rfl⟩ := hv
    obtain ⟨s', hs, hss'⟩ := InterfaceDecl.lookup_perform hr s k
    obtain ⟨t', ht, htt'⟩ := InterfaceDecl.lookup_perform hr t k
    rw [hs, ht]
    refine ⟨(h.left k).trans (h.right k).symm, ⟨?_, ?_, ?_, ?_⟩, fun _ _ => trivial⟩
    · exact hss'.names.symm.trans (h.names.trans htt'.names)
    · exact hss'.names ▸ h.named
    · exact fun k => (hss'.interface? k).symm.trans (h.left k)
    · exact fun k => (htt'.interface? k).symm.trans (h.right k)
  · have hne : ∀ k, v ≠ .str k := fun k hk => hv ⟨k, hk⟩
    unfold InterfaceDecl.lookup
    split
    · exact absurd rfl (hne _)
    · split
      · exact Agree.throw _ s t h
      · exact Agree.throw _ s t h

/-- **A base chain follows the answers.**  It comes to its root without meeting an interface
twice. -/
theorem agree_chain (hr : r.Indexed) (hkeys : r.index.keys.Nodup) (i : InterfaceDecl) :
    Agree (Session.Answering r answers Named) (Wrapper.chain r i) (Wrapper.chain r i) fun is =>
      Wrapper.BaseChain answers i is ∧ (is.map InterfaceDecl.fullName).Nodup := by
  have hchain : Agree (Session.Answering r answers Named) (Wrapper.chain r i) (Wrapper.chain r i)
      fun is => ∀ j ∈ is, True :=
    Wrapper.agree_chain (fun _ _ => agree_lookup hr _) (fun _ => rfl) trivial
  refine (hchain.and fun s t h is s' his => ?_).weaken fun _ h => h.2
  have hanswers : s.interface? r = answers := funext h.left
  obtain ⟨hbases, -, -⟩ := Wrapper.chainFrom_again hr his
  refine ⟨hanswers ▸ hbases, ?_⟩
  refine (Wrapper.chainFrom_nodup hr his (hkeys.erase _) ?_).1
  rw [hkeys.mem_erase_iff]
  exact fun hself => hself.1 rfl

end Session.Answering

/-! ## 3.  Headers -/

namespace Generator

variable {ds : List TypeDef} {settings : Settings} {p : Profile}

/-- **What a header shows of its metadata.**  Once a header is made, every interface of the module
has a GUID and a base chain that ends, no array in a struct has elements that are no primitives,
and all references are supported: those in structs, delegates and functions, and those in the
methods of all interfaces on the base chains. -/
theorem written_of_header {w : Workspace} {text : String}
    (h : ((header ⟨.ofList ds, settings⟩ p).perform w).1 = .ok text) :
    ∃ declarations t,
      (Declarations.classify (.ofList ds) p).perform {} = (.ok declarations, t) ∧
        declarations.Written
          (fun i is => Wrapper.BaseChain (t.interface? (.ofList ds)) i is ∧
            (is.map InterfaceDecl.fullName).Nodup)
          TypeRef.IsSupported := by
  rw [header_gives] at h
  rcases hpass : (pass ⟨.ofList ds, settings⟩ p).perform {} with ⟨e | made, s⟩
  · rw [hpass] at h
    cases h
  obtain ⟨declarations, t, hclassify, hpass⟩ := Pass.perform_bind_ok.1 hpass
  obtain ⟨text', u, htext, -⟩ := Pass.perform_bind_ok.1 hpass
  refine ⟨declarations, t, hclassify, ?_⟩
  -- Classification remembers no name, so all that it remembers are supported.
  have hdescribable (ns : Value) : ∀ d ∈ (Repository.ofList ds).typesIn ns,
      Declarations.Describable (Session.Same TypeRef.IsSupported fun _ => True)
        (.ofList ds) (.ofList ds) (fun _ => True) (fun _ => True) d := fun d _ =>
    ⟨rfl, fun _ _ _ _ => trivial, fun _ _ _ _ => trivial,
      InterfaceDecl.agree_describe fun _ _ => trivial⟩
  have hclassified : Agree (Session.Same TypeRef.IsSupported fun _ => True)
      (Declarations.classify (.ofList ds) p) (Declarations.classify (.ofList ds) p)
      (Declarations.Keep (fun _ => True) fun _ => True) :=
    Declarations.agree_classify rfl (fun _ _ => rfl) hdescribable
  obtain ⟨-, hsame, hkeep⟩ := hclassified {} {} (.start _ _)
  rw [hclassify] at hsame hkeep
  have hstart : Session.Answering (.ofList ds) (t.interface? (.ofList ds)) TypeRef.IsSupported
      t t := ⟨rfl, hsame.named, fun _ => rfl, fun _ => rfl⟩
  have hconcur : Naming.Concur (Session.Answering (.ofList ds) (t.interface? (.ofList ds))
      TypeRef.IsSupported) (fun _ => True) TypeRef.IsSupported ⟨.ofList ds, p.taggedEnums⟩
      ⟨.ofList ds, p.taggedEnums⟩ := {
    name := fun _ => Naming.agree_name Session.Answering.recording TypeRef.inherent_isSupported rfl
      rfl fun _ => TypeRef.isSupported_of_baseName
    isEnum := fun _ => rfl }
  have hwritten := agree_headerText hconcur settings p (hkeep _ rfl).mention (fun i _ =>
    (Session.Answering.agree_chain (Repository.indexed_ofList ds)
      (Repository.nodup_keys_ofList ds) i).weaken fun is his =>
        ⟨his, fun _ _ _ _ => trivial⟩) t t hstart
  exact hwritten.2.2 text' (congrArg Prod.fst htext)

/-- A kind, a function type that takes one, and an interface with a base in another namespace. -/
def guidedShapes : List TypeDef := [
  kind,
  visitor,
  { Wrapper.plainInterface "IShape" "Draw" [.named (.str "Roots") (.str "IRoot") .null false] with
    attributes := [guidMarked 1] },
  { Wrapper.plainInterface "IRoot" "Release" [] with namespaceName := .str "Roots" }]

/-- A header is made from them. -/
theorem guidedShapes_written :
    ((header ⟨.ofList guidedShapes, {}⟩ shapesProfile).perform
        { files := .fresh [] }).1.toOption.isSome = true ∧
      ∃ declarations t,
        (Declarations.classify (.ofList guidedShapes) shapesProfile).perform {} =
            (.ok declarations, t) ∧
          declarations.Written
            (fun i is => Wrapper.BaseChain (t.interface? (.ofList guidedShapes)) i is ∧
              (is.map InterfaceDecl.fullName).Nodup)
            TypeRef.IsSupported := by
  have hmade : ((header ⟨.ofList guidedShapes, {}⟩ shapesProfile).perform
      { files := .fresh [] }).1.toOption.isSome = true := by
    decide +kernel
  rcases hheader : ((header ⟨.ofList guidedShapes, {}⟩ shapesProfile).perform
    { files := .fresh [] }).1 with e | text
  · rw [hheader] at hmade
    cases hmade
  · exact ⟨rfl, written_of_header hheader⟩

end Generator

end ComHeaders
