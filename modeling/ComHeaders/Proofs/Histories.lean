import ComHeaders.Proofs.Soundness

/-!
# What a pass was asked before

A pass describes interfaces in three situations: while it classifies a namespace, when one is looked
up by its name, and along the base chain of another one.  Each of them can fail halfway and leaves
behind what it has described until then.  This file proves that this makes no difference for the
interfaces that are found later on.

## 1.  Classification and names

Classification asks for no names of references, so the names that a session remembers do not matter
to it (`Declarations.classify_answersAnew`).

## 2.  Histories

A session `AnswersAnew` if it gives the answers of a new one.  It goes on doing so, whatever it is
asked (`answersAnew_history`).
-/

namespace ComHeaders

open Pass (Agree)

/-! ## 1.  Classification and names -/

namespace Session

/-- A session that gives the answers of a new one. -/
def AnswersAnew (r : Repository) (s : Session) : Prop :=
  ∀ k, s.interface? r k = ({} : Session).interface? r k

theorem interface?_start {r : Repository} {k : String} {d : TypeDef} (hfind : r.find? k = some d)
    (hinterface : d.isInterface = true) :
    ({} : Session).interface? r k = InterfaceDecl.ofDefinition d := by
  simp [interface?, hfind, hinterface]

theorem interface?_start_of_unknown {r : Repository} {k : String}
    (hnone : ∀ d, r.find? k = some d → d.isInterface = false) :
    ({} : Session).interface? r k = .error (.unknownInterface k) := by
  rcases hfind : r.find? k with _ | d
  · simp [interface?, hfind]
  · simp [interface?, hfind, hnone d hfind]

/-- Sessions with the same interfaces, which remember given names. -/
structure SameInterfaces (left right : List (TypeRef × Value)) (s t : Session) : Prop where
  interfaces : s.interfaces = t.interfaces
  left : s.names = left
  right : t.names = right

instance (left right : List (TypeRef × Value)) : Session.Quiet (SameInterfaces left right) where
  journals h _ _ := ⟨h.interfaces, h.left, h.right⟩

end Session

variable {r : Repository} {ds : List TypeDef} {s : Session}

/-- Describing an interface asks for no names. -/
theorem InterfaceDecl.agree_describe_of_sameInterfaces {left right : List (TypeRef × Value)}
    (d : TypeDef) :
    Agree (Session.SameInterfaces left right) (describe d) (describe d) fun _ => True := by
  intro s t h
  rw [describe, Pass.perform_bind, Pass.perform_get, Pass.perform_bind, Pass.perform_get]
  simp only [h.interfaces]
  rcases t.interfaces.lookup d.fullName with _ | i
  · refine (Agree.ofExcept fun _ _ => trivial).bind (fun i (_ : True) => ?_) s t h
    intro s t h
    refine ⟨rfl, ⟨?_, h.left, h.right⟩, fun _ _ => trivial⟩
    exact congrArg (Table.set d.fullName i) h.interfaces
  · exact ⟨rfl, h, fun _ _ => trivial⟩

/-- **Classification makes no difference.**  In a session that gives the answers of a new one it has
the result that it has in a new one, and the session goes on giving these answers. -/
theorem Declarations.classify_answersAnew (hdistinct : (ds.map TypeDef.fullName).Nodup)
    (hs : s.AnswersAnew (.ofList ds)) (p : Profile) :
    ((classify (.ofList ds) p).perform s).1 = collected (.ofList ds) p ∧
      ((classify (.ofList ds) p).perform s).2.AnswersAnew (.ofList ds) := by
  have hagree : Agree (Session.SameInterfaces s.names []) (classify (.ofList ds) p)
      (classify (.ofList ds) p) (Keep (fun _ => True) fun _ => True) :=
    agree_classify rfl (fun _ _ => rfl) fun _ d _ =>
      ⟨rfl, fun _ _ _ _ => trivial, fun _ _ _ _ => trivial,
        InterfaceDecl.agree_describe_of_sameInterfaces d⟩
  have hfind (ns : Value) : ∀ d ∈ (Repository.ofList ds).typesIn ns,
      (Repository.ofList ds).find? d.fullName = some d :=
    fun d hd => (Repository.find?_ofList_eq_some hdistinct).2 ⟨List.mem_of_mem_filter hd, rfl⟩
  obtain ⟨hresult, hsame, -⟩ := hagree s { s with names := [] } ⟨rfl, rfl, rfl⟩
  obtain ⟨t, ht, halike⟩ := classify_yields (p := p) hfind { s with names := [] } ⟨rfl, hs⟩
  rw [ht] at hresult hsame
  refine ⟨hresult, fun k => ?_⟩
  rw [Session.interface?, hsame.interfaces]
  exact halike.interface? k

/-! ## 2.  Histories -/

/-- What a pass can be asked for. -/
inductive Request where
  | declarations (p : Profile)
  | interface (fullName : Value)
  | wrappers (style : WrapperStyle) (i : InterfaceDecl)

/-- The session behind a request, whether or not the request fails. -/
def Request.after (n : Naming) (s : Session) : Request → Session
  | declarations p => ((Declarations.classify n.repository p).perform s).2
  | interface fullName => ((InterfaceDecl.lookup n.repository fullName).perform s).2
  | wrappers style i => ((Wrapper.ofInterface n style i).perform s).2

/-- The session behind requests one after the other. -/
def Naming.history (n : Naming) (requests : List Request) : Session :=
  requests.foldl (Request.after n) {}

/-- In sessions that give the answers of a new one the wrappers of an interface agree. -/
theorem agree_ofInterface {n : Naming} (hr : n.repository.Indexed)
    (hkeys : n.repository.index.keys.Nodup) (style : WrapperStyle) (i : InterfaceDecl) :
    Agree (Session.Answering n.repository (({} : Session).interface? n.repository) fun _ => True)
      (Wrapper.ofInterface n style i) (Wrapper.ofInterface n style i) fun _ => True := by
  have hconcur : Naming.Concur (Session.Answering n.repository
      (({} : Session).interface? n.repository) fun _ => True) (fun _ => True) (fun _ => True)
      n n := {
    name := fun _ => Naming.agree_name Session.Answering.recording ⟨Iff.rfl, fun _ _ => trivial⟩
      rfl rfl fun _ _ => trivial
    isEnum := fun _ => rfl }
  exact (Wrapper.agree_ofInterface hconcur style (C := fun _ => True)
    ((Session.Answering.agree_chain hr hkeys i).weaken fun _ _ =>
      ⟨trivial, fun _ _ _ _ => trivial⟩)).weaken fun _ _ => trivial

namespace Session.AnswersAnew

theorem lookup_perform (hr : r.Indexed) (hs : s.AnswersAnew r) {k : String}
    {answer : Except Failure InterfaceDecl} (h : ({} : Session).interface? r k = answer) :
    ∃ t, (InterfaceDecl.lookup r (.str k)).perform s = (answer, t) ∧ t.AnswersAnew r := by
  obtain ⟨t, ht, halike⟩ := InterfaceDecl.lookup_perform hr s k
  exact ⟨t, by rw [ht, hs k, h], fun k => (halike.interface? k).symm.trans (hs k)⟩

theorem of_agree {α : Type} {x : Pass α} {P : α → Prop} (hs : s.AnswersAnew r)
    (hx : Agree (Session.Answering r (({} : Session).interface? r) fun _ => True) x x P) :
    (x.perform s).2.AnswersAnew r :=
  (hx s s ⟨rfl, fun _ _ => trivial, hs, hs⟩).2.1.left

theorem lookup (hr : r.Indexed) (hs : s.AnswersAnew r) (v : Value) :
    ((InterfaceDecl.lookup r v).perform s).2.AnswersAnew r :=
  hs.of_agree (Session.Answering.agree_lookup hr v)

theorem ofInterface {n : Naming} (hr : n.repository.Indexed)
    (hkeys : n.repository.index.keys.Nodup) (hs : s.AnswersAnew n.repository)
    (style : WrapperStyle) (i : InterfaceDecl) :
    ((Wrapper.ofInterface n style i).perform s).2.AnswersAnew n.repository :=
  hs.of_agree (agree_ofInterface hr hkeys style i)

/-- **A request makes no difference**, whether or not it fails. -/
theorem after (hdistinct : (ds.map TypeDef.fullName).Nodup) (hs : s.AnswersAnew (.ofList ds))
    (tagged : List String) (q : Request) :
    (q.after ⟨.ofList ds, tagged⟩ s).AnswersAnew (.ofList ds) := by
  have hr := Repository.indexed_ofList ds
  cases q with
  | declarations p => exact (Declarations.classify_answersAnew hdistinct hs p).2
  | interface fullName => exact hs.lookup hr fullName
  | wrappers style i => exact hs.ofInterface hr (Repository.nodup_keys_ofList ds) style i

end Session.AnswersAnew

/-- **Whatever a pass was asked, it answers like a new one.** -/
theorem answersAnew_history (hdistinct : (ds.map TypeDef.fullName).Nodup) (tagged : List String)
    (requests : List Request) :
    (Naming.history ⟨.ofList ds, tagged⟩ requests).AnswersAnew (.ofList ds) :=
  List.foldlRecOn requests _ (fun _ => rfl) fun _ hs q _ => hs.after hdistinct tagged q

end ComHeaders
