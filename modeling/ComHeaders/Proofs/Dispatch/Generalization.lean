import ComHeaders.Proofs.Dispatch.Slots
import ComHeaders.Proofs.Failures
import ComHeaders.Proofs.SourceOrder

/-!
# Aggregates beside parameters

A method that returns an aggregate is called through a hidden pointer.  If it also takes parameters,
it is only wrapped when the settings allow it.  This file compares the wrappers that are made with
and without this permission: it adds wrappers and changes none.

## 1.  Computations that go further

`Extends x y` says that whatever comes out of `x` comes out of `y` as well, with the same session
behind it.  Where `x` fails, `y` may go on.

## 2.  Restricted methods

Whether a method is restricted is asked of a session, since the name of its result decides, and
names are remembered.  Once the method is rendered its result has got a name, which stays
(`Renders.isRestricted_eq`).  So the question can be asked when all wrappers are made.

## 3.  With and without permission

`renderFrom_strict` goes along a table that was rendered with permission.  Without it the same lines
come out, up to the first method that is restricted.  `ofInterface_generalize` is the result for
interfaces and headers.
-/

namespace ComHeaders

/-! ## 1.  Computations that go further -/

namespace Pass

variable {α β : Type}

/-- Whatever comes out of the first computation comes out of the second one. -/
def Extends (x y : Pass α) : Prop :=
  ∀ s a s', x.perform s = (.ok a, s') → y.perform s = (.ok a, s')

namespace Extends

theorem refl (x : Pass α) : Extends x x :=
  fun _ _ _ h => h

theorem bind {x y : Pass α} {f g : α → Pass β} (hxy : Extends x y)
    (hfg : ∀ a, Extends (f a) (g a)) : Extends (x >>= f) (y >>= g) := by
  intro s b s' h
  obtain ⟨a, t, hx, hf⟩ := perform_bind_ok.1 h
  exact perform_bind_ok.2 ⟨a, t, hxy s a t hx, hfg a t b s' hf⟩

theorem mapM {f g : α → Pass β} (hfg : ∀ a, Extends (f a) (g a)) (l : List α) :
    Extends (l.mapM f) (l.mapM g) := by
  induction l with
  | nil => exact refl _
  | cons a l ih =>
    rw [List.mapM_cons, List.mapM_cons]
    exact (hfg a).bind fun b => ih.bind fun bs => refl _

/-- What is caught did not come out. -/
theorem tryCatch {x y : Pass α} (hxy : Extends x y) (f : Failure → Pass α)
    (hf : ∀ e s a s', (f e).perform s ≠ (.ok a, s')) :
    Extends (MonadExcept.tryCatch x f) (MonadExcept.tryCatch y f) := by
  intro s a s' h
  rw [perform_tryCatch] at h ⊢
  rcases hx : x.perform s with ⟨e | b, t⟩
  · rw [hx] at h
    exact absurd h (hf e t a s')
  · rw [hx] at h
    rw [hxy s b t hx]
    exact h

theorem timed {x y : Pass α} (speaker : Speaker) (operation : String) (hxy : Extends x y) :
    Extends (timed speaker operation x) (timed speaker operation y) := by
  have hwatched : Extends (watched speaker operation x) (watched speaker operation y) := by
    refine (refl _).bind fun _ => hxy.tryCatch _ fun e s a s' h => ?_
    cases h
  exact hwatched.bind fun a => refl _

end Extends

end Pass

namespace Wrapper

variable {n : Naming} {style : WrapperStyle} {m : MethodDecl} {s s' t u later : Session}

/-! ## 2.  Restricted methods -/

/-- Whether a method is only wrapped with permission: it takes parameters, and asked in a session
its result is an aggregate. -/
def isRestricted (n : Naming) (t : Session) (m : MethodDecl) : Bool :=
  ((n.returnsAggregate m.returnType).perform t).1.toOption == some true && !m.parameters.isEmpty

/-- A method that was rendered stays restricted, or stays free. -/
theorem Renders.isRestricted_eq (h : Renders n style m s u) (hut : u.Recalls n.repository t) :
    isRestricted n t m = isRestricted n u m := by
  obtain ⟨hreturn, htypes, hreturnColumn, -, -, -, -⟩ := h
  rename_i t₁ returnName types viaPointer texts returnColumn nameColumn
  have hkey := (Naming.name_ok hreturn).1
  have hremembered := Naming.name_remembered hreturn (ne_null_of_valueColumn hreturnColumn)
  have hrecalls : t₁.Recalls n.repository u := (Naming.parameterNames_again htypes).1
  have hu := hrecalls.remembered _ _ hkey hremembered
  obtain ⟨answer, hanswer⟩ := n.returnsAggregate_of_remembered hkey _
  rw [isRestricted, isRestricted, hanswer u hu, hanswer t (hut.remembered _ _ hkey hu)]

/-! ## 3.  With and without permission -/

/-- Without permission the same lines come out, unless the method is restricted. -/
theorem render_strict {receiver wrapperName : String} {slot : Nat} {lines : List String}
    (h : (render n { style with generalize := true } receiver wrapperName m slot).perform s =
      (.ok lines, u)) :
    (render n { style with generalize := false } receiver wrapperName m slot).perform s =
      (if isRestricted n u m then .error (.aggregateReturn receiver m.name m.parameters.length)
        else .ok lines, u) := by
  obtain ⟨hreturn, htypes, hreturnColumn, -, hviaPointer, -, -⟩ := renders_of_render h
  rename_i returnName types viaPointer texts returnColumn blank
  rcases hnameColumn : column style.room style.nameWidth wrapperName with e | nameColumn
  · simp only [render, Pass.perform_bind, hreturn, htypes, Pass.perform_ofExcept, hreturnColumn,
      hnameColumn] at h
    cases h
  have hrestricted : isRestricted n u m = (viaPointer && !m.parameters.isEmpty) := by
    rw [isRestricted, hviaPointer]
    rcases viaPointer <;> rfl
  simp only [render, Pass.perform_bind, hreturn, htypes, Pass.perform_ofExcept, hreturnColumn,
    hnameColumn, hviaPointer, Bool.not_true, Bool.and_false, Bool.false_eq_true, if_false] at h
  simp only [render, Pass.perform_bind, hreturn, htypes, Pass.perform_ofExcept, hreturnColumn,
    hnameColumn, hviaPointer, Bool.not_false, Bool.and_true, hrestricted]
  split
  · rfl
  · exact (Pass.perform_bind _ _ u).trans h

/-- **Without permission a table is rendered up to its first restricted method.**  If there is none,
it is rendered as it was with permission, and the session behind it is the same.  What is restricted
can be asked of any later session. -/
theorem renderFrom_strict {receiver : String} {slot : Nat} {taken : List String}
    {es : List (String × MethodDecl)} {ws : List Wrapper}
    (h : (renderFrom n { style with generalize := true } receiver slot taken es).perform s =
      (.ok ws, s')) (hlater : s'.Recalls n.repository later) :
    ((∀ e ∈ es, isRestricted n later e.2 = false) →
      (renderFrom n { style with generalize := false } receiver slot taken es).perform s =
        (.ok ws, s')) ∧
    ∀ e, (es.find? fun e => isRestricted n later e.2) = some e → ∃ t,
      (renderFrom n { style with generalize := false } receiver slot taken es).perform s =
        (.error (.aggregateReturn receiver e.2.name e.2.parameters.length), t) := by
  induction es generalizing slot taken s ws with
  | nil => exact ⟨fun _ => h, fun e he => by cases he⟩
  | cons e es ih =>
    obtain ⟨j, hj⟩ := renderFrom_cons n receiver slot taken e s
    obtain ⟨lines, u, more, hlines, hmore, rfl⟩ := cons_ok.1 ((hj _ es).symm.trans h)
    obtain ⟨hfree, hrestricted⟩ := ih hmore
    -- The method was rendered first, so later it is restricted if it was then.
    have hstays : isRestricted n later e.2 = isRestricted n u e.2 :=
      (renders_of_render hlines).isRestricted_eq ((renderFrom_recalls hmore).trans hlater)
    have hstrict := render_strict hlines
    rw [← hstays] at hstrict
    rcases hfirst : isRestricted n later e.2 with _ | _
    · rw [hfirst, if_neg Bool.false_ne_true] at hstrict
      refine ⟨fun hall => ?_, fun d hd => ?_⟩
      · have hrest := hfree fun d hd => hall d (List.mem_cons_of_mem e hd)
        exact (hj _ es).trans (cons_ok.2 ⟨lines, u, more, hstrict, hrest, rfl⟩)
      · simp only [List.find?_cons, hfirst] at hd
        obtain ⟨t, ht⟩ := hrestricted d hd
        refine ⟨t, (hj _ es).trans ?_⟩
        simp only [cons, Pass.perform_bind, hstrict, ht]
    · rw [hfirst, if_pos rfl] at hstrict
      refine ⟨fun hall => ?_, fun d hd => ?_⟩
      · rw [hall e List.mem_cons_self] at hfirst
        cases hfirst
      · simp only [List.find?_cons, hfirst, Option.some.injEq] at hd
        subst hd
        refine ⟨u, (hj _ es).trans ?_⟩
        simp only [cons, Pass.perform_bind, hstrict]

/-! ### What permission adds -/

theorem extends_render (receiver wrapperName : String) (m : MethodDecl) (slot : Nat) :
    Pass.Extends (render n { style with generalize := false } receiver wrapperName m slot)
      (render n { style with generalize := true } receiver wrapperName m slot) := by
  unfold render
  refine (Pass.Extends.refl _).bind fun returnName => ?_
  refine (Pass.Extends.refl _).bind fun types => ?_
  refine (Pass.Extends.refl _).bind fun returnColumn => ?_
  refine (Pass.Extends.refl _).bind fun nameColumn => ?_
  refine (Pass.Extends.refl _).bind fun viaPointer => ?_
  rcases viaPointer && !m.parameters.isEmpty with _ | _
  · exact .refl _
  · intro s a s' h
    cases h

theorem extends_renderFrom (receiver : String) (slot : Nat) (taken : List String)
    (es : List (String × MethodDecl)) :
    Pass.Extends (renderFrom n { style with generalize := false } receiver slot taken es)
      (renderFrom n { style with generalize := true } receiver slot taken es) := by
  induction es generalizing slot taken with
  | nil => exact .refl _
  | cons e es ih =>
    intro s ws s' h
    obtain ⟨j, hj⟩ := renderFrom_cons n receiver slot taken e s
    obtain ⟨lines, u, more, hlines, hmore, rfl⟩ := cons_ok.1 ((hj _ es).symm.trans h)
    exact (hj _ es).trans (cons_ok.2 ⟨lines, u, more, extends_render _ _ _ _ _ _ _ hlines,
      ih _ _ _ _ _ hmore, rfl⟩)

theorem extends_ofInterface (i : InterfaceDecl) :
    Pass.Extends (ofInterface n { style with generalize := false } i)
      (ofInterface n { style with generalize := true } i) :=
  (Pass.Extends.refl _).bind fun _ => (extends_renderFrom _ _ _ _).bind fun _ => .refl _

/-- **With permission no method is refused.**  What can go wrong is that an interface is not found,
that a name is not, or that a column has an impossible width. -/
theorem failsWith_ofInterface (i : InterfaceDecl) :
    Pass.FailsWith (fun e => e.IsOfInterface ∨ e.IsOfName)
      (ofInterface n { style with generalize := true } i) := by
  have hrender (wrapperName : String) (m : MethodDecl) (slot : Nat) :
      Pass.FailsWith Failure.IsOfName
        (render n { style with generalize := true } i.name wrapperName m slot) := by
    unfold render
    refine (n.failsWith_name _).bind fun returnName => ?_
    refine (Pass.FailsWith.mapM fun p _ => n.failsWith_parameterName _ _).bind fun types => ?_
    refine (Pass.FailsWith.ofExcept (failsWith_valueColumn _ _ _)).bind fun returnColumn => ?_
    refine (Pass.FailsWith.ofExcept (failsWith_column _ _ _)).bind fun nameColumn => ?_
    refine (n.failsWith_returnsAggregate _).bind fun viaPointer => ?_
    rw [Bool.not_true, Bool.and_false, if_neg Bool.false_ne_true]
    exact (Pass.FailsWith.ofExcept (.faulty _ .fault)).bind fun _ => .pure _
  have hrenderFrom (es : List (String × MethodDecl)) (slot : Nat) (taken : List String) :
      Pass.FailsWith Failure.IsOfName
        (renderFrom n { style with generalize := true } i.name slot taken es) := by
    induction es generalizing slot taken with
    | nil => exact .pure []
    | cons e es ih =>
      intro s
      obtain ⟨j, hj⟩ := renderFrom_cons n i.name slot taken e s
      rw [hj]
      exact ((hrender _ _ _).bind fun _ => (ih _ _).bind fun _ => .pure _) _
  exact ((failsWith_chainFrom _ _ i).imp fun _ => .inl).bind fun is =>
    ((hrenderFrom (table is) 0 []).imp fun _ => .inr).bind fun ws => .note_bind _ (.pure ws)

end Wrapper

/-! ### Headers -/

variable {settings : Settings}

theorem Section.extends_methods (n : Naming) (ds : Declarations) :
    Pass.Extends (methods n { settings with generalizeAggregateReturns := false } ds)
      (methods n { settings with generalizeAggregateReturns := true } ds) := by
  refine (Pass.Extends.mapM (fun e => ?_) _).bind fun _ => .refl _
  obtain ⟨name, i⟩ := e
  have hwrappers : Pass.Extends
      (Wrapper.ofInterface n { wrapperStyle settings with generalize := false } i)
      (Wrapper.ofInterface n { wrapperStyle settings with generalize := true } i) :=
    Wrapper.extends_ofInterface i
  exact hwrappers.bind fun _ => .refl _

namespace Generator

variable {r : Repository}

/-- **What a pass makes without permission it makes with it.** -/
theorem extends_pass (p : Profile) :
    Pass.Extends (pass ⟨r, { settings with generalizeAggregateReturns := false }⟩ p)
      (pass ⟨r, { settings with generalizeAggregateReturns := true }⟩ p) := by
  refine (Pass.Extends.refl _).bind fun declarations => Pass.Extends.bind ?_ fun _ => .refl _
  refine .timed _ _ (Pass.Extends.bind ?_ fun _ => .refl _)
  refine (Pass.Extends.refl _).bind fun constants => ?_
  refine (Pass.Extends.refl _).bind fun delegates => ?_
  refine (Pass.Extends.refl _).bind fun structs => ?_
  exact (Section.extends_methods _ declarations).bind fun _ => .refl _

end Generator

namespace Wrapper

/-- **Permission is a conservative extension.**  With permission no method is refused.

Suppose that the wrappers of an interface are made with permission, from whatever session.  If no
method on its base chain is restricted, the same wrappers are made without it.  Else the first
restricted method in the order of slots is refused in the name of the interface that receives it.

So a header that is made without permission is made with it, and is the same. -/
theorem ofInterface_generalize (ds : List TypeDef) (tagged : List String) (style : WrapperStyle) :
    (∀ i s receiver method count,
      ((ofInterface ⟨.ofList ds, tagged⟩ { style with generalize := true } i).perform s).1 ≠
        .error (.aggregateReturn receiver method count)) ∧
    (∀ i s ws s',
      (ofInterface ⟨.ofList ds, tagged⟩ { style with generalize := true } i).perform s =
        (.ok ws, s') →
      ∃ is, BaseChain (s.interface? (.ofList ds)) i is ∧
        ((∀ j ∈ is, ∀ m ∈ j.methods, isRestricted ⟨.ofList ds, tagged⟩ s' m = false) →
          ((ofInterface ⟨.ofList ds, tagged⟩ { style with generalize := false } i).perform s).1 =
            .ok ws) ∧
        ∀ declaring m,
          ((table is).find? fun e => isRestricted ⟨.ofList ds, tagged⟩ s' e.2) =
            some (declaring, m) →
          ((ofInterface ⟨.ofList ds, tagged⟩ { style with generalize := false } i).perform s).1 =
            .error (.aggregateReturn i.name m.name m.parameters.length)) ∧
    ∀ (settings : Settings) p w w' text,
      ((Generator.header ⟨.ofList ds, { settings with generalizeAggregateReturns := false }⟩
        p).perform w).1 = .ok text →
      ((Generator.header ⟨.ofList ds, { settings with generalizeAggregateReturns := true }⟩
        p).perform w').1 = .ok text := by
  refine ⟨fun i s receiver method count h => ?_, fun i s ws s' h => ?_,
    fun settings p w w' text h => ?_⟩
  · rcases failsWith_ofInterface i s _ h with hinterface | hname
    · cases hinterface
    · cases hname
  · obtain ⟨is, t, u, hchain, hrender, rfl⟩ := ofInterface_ok.1 h
    obtain ⟨hbases, -, -⟩ := chainFrom_again (Repository.indexed_ofList ds) hchain
    obtain ⟨hfree, hrestricted⟩ := renderFrom_strict hrender (.journal _ u _)
    refine ⟨is, hbases, fun hall => ?_, fun declaring m hfirst => ?_⟩
    · have hstrict := hfree fun e he => by
        obtain ⟨j, hj, hm⟩ := List.mem_flatMap.1 he
        obtain ⟨m, hmem, rfl⟩ := List.mem_map.1 hm
        exact hall j hj m hmem
      rw [ofInterface_ok.2 ⟨is, t, u, hchain, hstrict, rfl⟩]
    · obtain ⟨v, hv⟩ := hrestricted _ hfirst
      simp only [ofInterface, Pass.perform_bind, hchain, hv]
  · rw [Generator.header_gives] at h ⊢
    rcases hpass : (Generator.pass ⟨.ofList ds, { settings with
      generalizeAggregateReturns := false }⟩ p).perform {} with ⟨e | made, t⟩
    · rw [hpass] at h
      cases h
    · rw [hpass] at h
      rw [Generator.extends_pass p {} made t hpass]
      exact h

/-- A shape has a box, which depends on the scale.  A circle is a shape. -/
def boxedShapes : List TypeDef := [
  { plainInterface "IShape" "Draw" [] with
    methods := [
      ⟨"Draw", .void, [], []⟩,
      ⟨"Box", .named (.str "Shapes") (.str "BOX") .null true,
        [⟨"scale", .primitive (.str "Single"), []⟩], []⟩] },
  plainInterface "ICircle" "Draw" [.named (.str "Shapes") (.str "IShape") .null false]]

/-- The box of a shape, at a scale. -/
def box : MethodDecl where
  name := "Box"
  returnType := .named (.str "Shapes") (.str "BOX") .null true
  parameters := [⟨"scale", .primitive (.str "Single"), false⟩]
  deprecation := none

/-- The interface of a shape that has a box. -/
def boxedShape : InterfaceDecl where
  name := "IShape"
  fullName := "Shapes.IShape"
  methods := [⟨"Draw", .void, [], none⟩, box]
  base := none
  guid := none

/-- The chain of a circle, however the bases were looked up. -/
theorem circle_chain {is : List InterfaceDecl}
    (h : BaseChain (({} : Session).interface? (.ofList boxedShapes)) circle is) :
    is = [boxedShape, circle] := by
  have hshape : ({} : Session).interface? (.ofList boxedShapes) "Shapes.IShape" = .ok boxedShape :=
    rfl
  rcases h with hbase | ⟨hbase, hfind, hchain⟩
  · cases hbase
  · cases hbase
    rw [hshape] at hfind
    cases hfind
    rcases hchain with - | ⟨hbase, -, -⟩
    · rfl
    · cases hbase

/-- The box of a circle is wrapped with permission and refused without it, although it is the shape
that declares it. -/
theorem boxedCircle_refused :
    ∃ ws s', (ofInterface ⟨.ofList boxedShapes, []⟩ { generalize := true } circle).perform {} =
        (.ok ws, s') ∧
      ws.map (·.wrapperName) = ["ICircle_Draw", "ICircle_Box", "ICircle_Draw1"] ∧
      ((ofInterface ⟨.ofList boxedShapes, []⟩ { generalize := false } circle).perform {}).1 =
        .error (.aggregateReturn "ICircle" "Box" 1) := by
  have hnames : ((ofInterface ⟨.ofList boxedShapes, []⟩ { generalize := true }
      circle).perform {}).1.toOption.map (·.map (·.wrapperName)) =
        some ["ICircle_Draw", "ICircle_Box", "ICircle_Draw1"] := by
    decide +kernel
  have hbox : isRestricted ⟨.ofList boxedShapes, []⟩
      ((ofInterface ⟨.ofList boxedShapes, []⟩ { generalize := true } circle).perform {}).2 box =
        true := by
    decide +kernel
  rcases h : (ofInterface ⟨.ofList boxedShapes, []⟩ { generalize := true } circle).perform {} with
    ⟨e | ws, s'⟩
  · rw [h] at hnames
    cases hnames
  · rw [h] at hnames hbox
    obtain ⟨-, hmade, -⟩ := ofInterface_generalize boxedShapes [] { generalize := true }
    obtain ⟨is, hbases, -, hrefused⟩ := hmade circle {} ws s' h
    rw [circle_chain hbases] at hrefused
    -- The shape's `Draw` stands before its `Box`, and returns nothing.
    have hfirst : ((table [boxedShape, circle]).find? fun e =>
        isRestricted ⟨.ofList boxedShapes, []⟩ s' e.2) = some ("IShape", box) :=
      (List.find?_cons_of_neg Bool.false_ne_true).trans (List.find?_cons_of_pos hbox)
    exact ⟨ws, s', rfl, Option.some.inj hnames, hrefused _ _ hfirst⟩

end Wrapper

end ComHeaders
