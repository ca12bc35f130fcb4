import ComHeaders.Proofs.Classification.Partition
import ComHeaders.Proofs.Histories
import ComHeaders.Proofs.Reach

/-!
# Interfaces that are described once

An interface is described when it is first met, be it in a namespace, in the namespace that is
borrowed from, or as a base that lies in neither; from then on the description is kept.
Classification can end halfway, and what it has described until then is kept as well.  This file
proves that nobody can tell: no answer depends on what is kept.

## 1.  Where declared interfaces come from

An interface among declarations was described by the definition of an interface
(`interfaces_of_collected`).  Enums come first when kinds are told apart, so one that is flagged as
an interface is not among them.

## 2.  Answers

`Session.Reached` are the sessions that the same described interfaces are carried through, whatever
is asked.  Names of references are another matter: they are remembered by whoever writes the
wrappers, and between two requests others may take over, with tags and names of their own.

`answer_of_reached` is the result.  An answer is that of a session in which no interface was
described and the same names are remembered.
-/

namespace ComHeaders

/-! ## 1.  Where declared interfaces come from -/

namespace Declarations

variable {r : Repository} {p : Profile} {ds ds' : Declarations} {i : InterfaceDecl} {k : String}
  {e : Entity}

/-- What is declared by one definition after the other comes from definitions. -/
theorem keeps_foldlM_step {entity : TypeDef → Except Failure Entity} {l : List TypeDef}
    (h : l.foldlM (step entity) ds = .ok ds') (hkeeps : ds'.Keeps k e) :
    (∃ d ∈ l, entity d = .ok e) ∨ ds.Keeps k e := by
  induction l generalizing ds with
  | nil =>
    obtain rfl := Except.ok.inj h
    exact .inr hkeeps
  | cons d l ih =>
    rw [List.foldlM_cons] at h
    obtain ⟨made, hmade, h⟩ := Result.bind_eq_ok.1 h
    obtain ⟨e', he', hmade⟩ := Result.bind_eq_ok.1 hmade
    obtain rfl := Except.ok.inj hmade
    rcases ih h with ⟨c, hc, hentity⟩ | hkeeps
    · exact .inl ⟨c, List.mem_cons_of_mem _ hc, hentity⟩
    · rcases keeps_declare hkeeps with ⟨-, rfl⟩ | hkeeps
      · exact .inl ⟨d, List.mem_cons_self, he'⟩
      · exact .inr hkeeps

/-- **Declared interfaces come from the definitions of interfaces** in the metadata set. -/
theorem interfaces_of_collected (h : collected r p = .ok ds) (hi : i ∈ ds.interfaces.values) :
    ∃ d ∈ r.definitions, d.isInterface = true ∧ InterfaceDecl.ofDefinition d = .ok i := by
  obtain ⟨⟨k, i⟩, hkeeps, rfl⟩ := List.mem_map.1 hi
  obtain ⟨own, hown, hshared⟩ := Result.bind_eq_ok.1 h
  have hfromOwn (hkeeps : own.Keeps k (.interface i)) :
      ∃ d ∈ r.definitions, d.isInterface = true ∧ InterfaceDecl.ofDefinition d = .ok i := by
    rcases keeps_foldlM_step hown hkeeps with ⟨d, hd, he⟩ | hnone
    · exact ⟨d, List.mem_of_mem_filter hd, (isOfKind_ownEntity he rfl).2, isOf_ownEntity he⟩
    · cases hnone
  rcases hns : sharedNamespace? p with _ | ns
  · rw [hns] at hshared
    obtain rfl := Except.ok.inj hshared
    exact hfromOwn hkeeps
  · rw [hns] at hshared
    rcases keeps_foldlM_step (e := .interface i) hshared hkeeps with ⟨d, hd, he⟩ | hkeeps
    · exact ⟨d, List.mem_of_mem_filter hd, (isOfKind_sharedEntity he rfl).2.2,
        isOf_sharedEntity he⟩
    · exact hfromOwn hkeeps

end Declarations

/-! ## 2.  Answers -/

/-- What a request is answered with. -/
inductive Answer where
  | declarations (ds : Declarations)
  | interface (i : InterfaceDecl)
  | wrappers (ws : List Wrapper)

/-- The answer to a request in a session, or the failure it ends with. -/
def Request.answer (n : Naming) (s : Session) : Request → Except Failure Answer
  | declarations p => ((Declarations.classify n.repository p).perform s).1.map .declarations
  | interface fullName => ((InterfaceDecl.lookup n.repository fullName).perform s).1.map .interface
  | wrappers style i => ((Wrapper.ofInterface n style i).perform s).1.map .wrappers

/-- The sessions that described interfaces are carried through: a new one; the session behind a
request, whether or not the request fails; and one in which somebody else, who remembers other
names, goes on. -/
inductive Session.Reached (r : Repository) : Session → Prop
  | new : Reached r {}
  | asked {s : Session} (hs : Reached r s) (tagged : List String) (q : Request) :
      Reached r (q.after ⟨r, tagged⟩ s)
  | renamed {s : Session} (hs : Reached r s) (names : List (TypeRef × Value)) :
      Reached r { s with names }

variable {ds : List TypeDef} {s : Session}

theorem Session.Reached.answersAnew (hdistinct : (ds.map TypeDef.fullName).Nodup)
    (hs : s.Reached (.ofList ds)) : s.AnswersAnew (.ofList ds) := by
  induction hs with
  | new => exact fun _ => rfl
  | asked _ tagged q ih => exact ih.after hdistinct tagged q
  | renamed _ _ ih => exact ih

/-- A session that answers like a new one differs from it in nothing that a request looks at but
the names. -/
theorem Session.AnswersAnew.answering {r : Repository} (hs : s.AnswersAnew r) :
    Session.Answering r (({} : Session).interface? r) (fun _ => True) s { names := s.names } where
  names := rfl
  named _ _ := trivial
  left := hs
  right _ := rfl

/-- **One request.** -/
theorem Request.answer_of_answersAnew (hdistinct : (ds.map TypeDef.fullName).Nodup)
    (hs : s.AnswersAnew (.ofList ds)) (tagged : List String) (q : Request) :
    q.answer ⟨.ofList ds, tagged⟩ s = q.answer ⟨.ofList ds, tagged⟩ { names := s.names } := by
  have hr := Repository.indexed_ofList ds
  cases q with
  | declarations p =>
    have hnew : ({ names := s.names } : Session).AnswersAnew (.ofList ds) := fun _ => rfl
    exact congrArg (Except.map Answer.declarations)
      ((Declarations.classify_answersAnew hdistinct hs p).1.trans
        (Declarations.classify_answersAnew hdistinct hnew p).1.symm)
  | interface fullName =>
    exact congrArg (Except.map Answer.interface)
      (Session.Answering.agree_lookup hr fullName _ _ hs.answering).1
  | wrappers style i =>
    exact congrArg (Except.map Answer.wrappers)
      (agree_ofInterface (n := ⟨.ofList ds, tagged⟩) hr (Repository.nodup_keys_ofList ds) style i
        _ _ hs.answering).1

/-- **What was described before makes no difference.**  Take a metadata set without repeated names,
and a session in which anything was asked before.  Each request is answered, or fails, as it does
in a session in which no interface was described and the same names are remembered.  And every
interface among declarations is the one that a look-up of its full name gives, in each session of
this kind. -/
theorem answer_of_reached (ds : List TypeDef) (hdistinct : (ds.map TypeDef.fullName).Nodup)
    (s : Session) (hs : s.Reached (.ofList ds)) :
    (∀ (tagged : List String) (q : Request),
      q.answer ⟨.ofList ds, tagged⟩ s = q.answer ⟨.ofList ds, tagged⟩ { names := s.names }) ∧
    ∀ p declarations, ((Declarations.classify (.ofList ds) p).perform s).1 = .ok declarations →
      ∀ i ∈ declarations.interfaces.values, ∀ t : Session, t.Reached (.ofList ds) →
        ((InterfaceDecl.lookup (.ofList ds) (.str i.fullName)).perform t).1 = .ok i := by
  have hanew := hs.answersAnew hdistinct
  refine ⟨Request.answer_of_answersAnew hdistinct hanew, fun p declarations h i hi t ht => ?_⟩
  rw [(Declarations.classify_answersAnew hdistinct hanew p).1] at h
  obtain ⟨d, hd, hinterface, hdescribed⟩ := Declarations.interfaces_of_collected h hi
  have hfind : (Repository.ofList ds).find? i.fullName = some d :=
    (Repository.find?_ofList_eq_some hdistinct).2
      ⟨hd, (InterfaceDecl.of_ofDefinition hdescribed).1.symm⟩
  obtain ⟨u, hlookup, -⟩ := (ht.answersAnew hdistinct).lookup_perform
    (Repository.indexed_ofList ds) (Session.interface?_start hfind hinterface)
  rw [hlookup, hdescribed]

/-- A shape with a base in another namespace, and a class that ends the classification of its
namespace. -/
def unfinishedShapes : List TypeDef := [
  Wrapper.plainInterface "IShape" "Draw" [.named (.str "Roots") (.str "IRoot") .null false],
  { Wrapper.plainInterface "Widget" "Draw" [] with isInterface := false },
  { Wrapper.plainInterface "IRoot" "Release" [] with namespaceName := .str "Roots" }]

/-- The interface that the shape is based on. -/
def root : InterfaceDecl where
  name := "IRoot"
  fullName := "Roots.IRoot"
  methods := [⟨"Release", .void, [], none⟩]
  base := none
  guid := none

/-- The session behind the classification that comes to the class. -/
def unfinished : Session :=
  (Request.declarations Generator.shapesProfile).after ⟨.ofList unfinishedShapes, []⟩ {}

/-- That classification has failed, but it has described the shape.  The shape is looked up as in a
new session, and so is the interface that another namespace declares. -/
theorem unfinished_answer :
    (unfinishedShapes.map TypeDef.fullName).Nodup ∧ unfinished.Reached (.ofList unfinishedShapes) ∧
      ((Declarations.classify (.ofList unfinishedShapes) Generator.shapesProfile).perform
        {}).1.isOk = false ∧
      unfinished.interfaces.keys = ["Shapes.IShape"] ∧
      (Request.interface (.str "Shapes.IShape")).answer ⟨.ofList unfinishedShapes, []⟩ unfinished =
        (Request.interface (.str "Shapes.IShape")).answer ⟨.ofList unfinishedShapes, []⟩
          { names := unfinished.names } ∧
      ((InterfaceDecl.lookup (.ofList unfinishedShapes) (.str "Roots.IRoot")).perform {}).1 =
        .ok root := by
  have hdistinct : (unfinishedShapes.map TypeDef.fullName).Nodup := by decide +kernel
  have hreached : unfinished.Reached (.ofList unfinishedShapes) := .asked .new _ _
  have hanswers := answer_of_reached unfinishedShapes hdistinct unfinished hreached
  refine ⟨hdistinct, hreached, by decide +kernel, by decide +kernel, hanswers.1 _ _, ?_⟩
  exact hanswers.2 { Generator.shapesProfile with namespaceName := "Roots" }
    { namespaceName := "Roots", interfaces := [("IRoot", root)] } rfl root
    (List.mem_singleton.2 rfl) {} .new

end ComHeaders
