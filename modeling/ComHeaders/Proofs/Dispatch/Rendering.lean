import ComHeaders.Dispatch
import ComHeaders.Proofs.Naming.Memory

/-!
# Rendering the wrappers of a table

An interface and its base render many methods in common, under other names and possibly at
another time.  This file says that what was rendered once is rendered again.

## 1.  One method

Whether a method can be rendered does not depend on the receiver, the name of the wrapper or the
slot: they only show in the text.  `Renders n style m s u` says without them that rendering `m`
leads from `s` to `u` (`render_ok_iff`).  It carries over to sessions that are alike
(`Renders.alike`) and to sessions that recall what was remembered in the end (`Renders.again`).

## 2.  A whole table

`renderFrom` goes through the methods of a table and names each member.  Its wrappers are for the
methods of the table in their order and sit in consecutive slots; their members are named alike
for any two receivers (`renderFrom_samePlaces`).  A table that was rendered to its end was
rendered to each of its cuts (`renderFrom_append`), and can be rendered again.
-/

namespace ComHeaders

namespace Wrapper

variable {rep : Repository} {n : Naming} {style : WrapperStyle} {s s' t u : Session}

/-! ## 1.  One method -/

/-- The width of a column decides whether a text has a place in it, and not the text. -/
theorem column_ok {room : Nat} {width : Int} {a c : String} (h : column room width a = .ok c)
    (b : String) : ∃ c, column room width b = .ok c := by
  rw [column] at h
  split at h
  · cases h
  · rename_i hwidth
    exact ⟨_, by rw [column, if_neg hwidth, filling_eq_ok_iff.2 ⟨(filling_eq_ok_iff.1 h).1, rfl⟩]⟩

/-- Rendering a method leads from one session to another. -/
inductive Renders (n : Naming) (style : WrapperStyle) (m : MethodDecl) (s u : Session) : Prop where
  | intro {t : Session} {returnName : Value} {types : List Value} {viaPointer : Bool}
      {texts : List String} {returnColumn nameColumn : String}
      (hreturn : (n.name m.returnType).perform s = (.ok returnName, t))
      (htypes : (m.parameters.mapM fun p => n.parameterName p.type p.isConst).perform t =
        (.ok types, u))
      (hreturnColumn : valueColumn style.room style.returnWidth returnName = .ok returnColumn)
      (hnameColumn : column style.room style.nameWidth "" = .ok nameColumn)
      (hviaPointer : (n.returnsAggregate m.returnType).perform u = (.ok viaPointer, u))
      (hallowed : (viaPointer && !m.parameters.isEmpty && !style.generalize) = false)
      (htexts : types.mapM Value.asText = .ok texts)

theorem ne_null_of_valueColumn {room : Nat} {width : Int} {v : Value} {c : String}
    (h : valueColumn room width v = .ok c) : v ≠ .null := by
  rintro rfl
  cases h

theorem returnsAggregate_stays {r : TypeRef} {v : Value} {viaPointer : Bool}
    (hname : (n.name r).perform s = (.ok v, t)) (hv : v ≠ .null) (htu : t.Recalls n.repository u)
    (h : (n.returnsAggregate r).perform u = (.ok viaPointer, s')) : s' = u := by
  have hkey := (Naming.name_ok hname).1
  obtain ⟨e, he⟩ := n.returnsAggregate_of_remembered hkey v
  rw [he u (htu.remembered r v hkey (Naming.name_remembered hname hv)), Prod.mk.injEq] at h
  exact h.2.symm

/-- **What rendering a method takes**, in the order in which it is asked for, and what it gives. -/
theorem render_ok {receiver wrapperName : String} {m : MethodDecl} {slot : Nat}
    {lines : List String}
    (h : (render n style receiver wrapperName m slot).perform s = (.ok lines, s')) :
    ∃ returnName t types u returnColumn nameColumn viaPointer texts,
      (n.name m.returnType).perform s = (.ok returnName, t) ∧
      (m.parameters.mapM fun p => n.parameterName p.type p.isConst).perform t = (.ok types, u) ∧
      valueColumn style.room style.returnWidth returnName = .ok returnColumn ∧
      column style.room style.nameWidth wrapperName = .ok nameColumn ∧
      (n.returnsAggregate m.returnType).perform u = (.ok viaPointer, s') ∧
      (viaPointer && !m.parameters.isEmpty && !style.generalize) = false ∧
      types.mapM Value.asText = .ok texts ∧
      lines = (m.deprecation.map deprecationLine).toList ++ [Call.line {
        receiver, wrapperName, slot, viaPointer
        returnName := returnName.text
        parameters := texts.zip (m.parameters.map (·.name)) } returnColumn nameColumn] := by
  rw [render] at h
  obtain ⟨returnName, t, hreturn, h₁⟩ := Pass.perform_bind_ok.1 h
  obtain ⟨types, u, htypes, h₂⟩ := Pass.perform_bind_ok.1 h₁
  obtain ⟨returnColumn, hreturnColumn, h₃⟩ := Pass.perform_ofExcept_bind_ok.1 h₂
  obtain ⟨nameColumn, hnameColumn, h₄⟩ := Pass.perform_ofExcept_bind_ok.1 h₃
  obtain ⟨viaPointer, u', hviaPointer, h₅⟩ := Pass.perform_bind_ok.1 h₄
  split at h₅
  · obtain ⟨_, _, hthrow, _⟩ := Pass.perform_bind_ok.1 h₅
    cases hthrow
  · rename_i hallowed
    obtain ⟨texts, htexts, h₆⟩ := Pass.perform_ofExcept_bind_ok.1 h₅
    rw [Pass.perform_pure, Prod.mk.injEq, Except.ok.injEq] at h₆
    obtain ⟨rfl, rfl⟩ := h₆
    exact ⟨returnName, t, types, u, returnColumn, nameColumn, viaPointer, texts, hreturn, htypes,
      hreturnColumn, hnameColumn, hviaPointer, by simpa using hallowed,
      Result.faulty_eq_ok.1 htexts, rfl⟩

/-- A method that is rendered for some receiver, name and slot renders. -/
theorem renders_of_render {receiver wrapperName : String} {m : MethodDecl} {slot : Nat}
    {lines : List String}
    (h : (render n style receiver wrapperName m slot).perform s = (.ok lines, s')) :
    Renders n style m s s' := by
  obtain ⟨returnName, t, types, u, returnColumn, nameColumn, viaPointer, texts, hreturn, htypes,
    hreturnColumn, hnameColumn, hviaPointer, hallowed, htexts, -⟩ := render_ok h
  obtain rfl : s' = u := returnsAggregate_stays hreturn (ne_null_of_valueColumn hreturnColumn)
    (Naming.parameterNames_again htypes).1 hviaPointer
  obtain ⟨blank, hblank⟩ := column_ok hnameColumn ""
  exact .intro hreturn htypes hreturnColumn hblank hviaPointer hallowed htexts

/-- A method that renders is rendered for every receiver, name and slot. -/
theorem render_of_renders {m : MethodDecl} (h : Renders n style m s u)
    (receiver wrapperName : String) (slot : Nat) :
    ∃ lines, (render n style receiver wrapperName m slot).perform s = (.ok lines, u) := by
  obtain ⟨hreturn, htypes, hreturnColumn, hblank, hviaPointer, hallowed, htexts⟩ := h
  obtain ⟨nameColumn, hnameColumn⟩ := column_ok hblank wrapperName
  have htexts' := Result.faulty_eq_ok.2 htexts
  simp only [render, Pass.perform_bind, hreturn, htypes, Pass.perform_ofExcept, hreturnColumn,
    hnameColumn, hviaPointer, hallowed, htexts', Bool.false_eq_true, if_false]
  exact ⟨_, rfl⟩

namespace Renders

variable {m : MethodDecl}

/-- Rendering does the same in sessions that are alike. -/
theorem alike (h : Renders n style m s s') (hst : s.Alike rep t) :
    ∃ t', Renders n style m t t' ∧ s'.Alike rep t' := by
  obtain ⟨hreturn, htypes, hreturnColumn, hblank, hviaPointer, hallowed, htexts⟩ := h
  have hn := (Naming.Alike.refl n).concur rep
  obtain ⟨t₁, hreturn', ht₁⟩ := (hn.name trivial).ok hreturn hst
  obtain ⟨t₂, htypes', ht₂⟩ := (hn.parameterNames fun _ _ => trivial).ok htypes ht₁
  obtain ⟨t₃, hviaPointer', -⟩ := (hn.returnsAggregate trivial).ok hviaPointer ht₂
  obtain rfl : t₃ = t₂ := returnsAggregate_stays hreturn' (ne_null_of_valueColumn hreturnColumn)
    (Naming.parameterNames_again htypes').1 hviaPointer'
  exact ⟨t₃, .intro hreturn' htypes' hreturnColumn hblank hviaPointer' hallowed htexts, ht₂⟩

theorem recalls (h : Renders n style m s s') : s.Recalls rep s' := by
  obtain ⟨hreturn, htypes, -, -, -, -, -⟩ := h
  exact (Naming.name_recalls hreturn).trans (Naming.parameterNames_again htypes).1

/-- A method that was rendered is rendered again. -/
theorem again (h : Renders n style m s s') (hst : s'.Recalls rep t) :
    ∃ t', Renders n style m t t' ∧ t.Recalls rep t' := by
  obtain ⟨hreturn, htypes, hreturnColumn, hblank, hviaPointer, hallowed, htexts⟩ := h
  have hkey := (Naming.name_ok hreturn).1
  have hv := ne_null_of_valueColumn hreturnColumn
  obtain ⟨hrecalls, htypesAgain⟩ := Naming.parameterNames_again htypes
  obtain ⟨w, t₁, hreturn', hw, ht₁⟩ := Naming.name_again hreturn (hrecalls.trans hst)
  obtain rfl := hw hv
  obtain ⟨types', t₂, htypes', htext, ht₂⟩ := htypesAgain t₁ (hst.trans ht₁)
  obtain ⟨texts', htexts'⟩ := Naming.mapM_asText_of_forall₂ htext htexts
  -- The return type is remembered in both sessions, so both ask for the same aggregate.
  obtain ⟨e, he⟩ := n.returnsAggregate_of_remembered hkey w
  rw [he s' (hrecalls.remembered _ _ hkey (Naming.name_remembered hreturn hv)), Prod.mk.injEq]
    at hviaPointer
  have hviaPointer' := he t₂ (ht₂.remembered _ _ hkey (Naming.name_remembered hreturn' hv))
  rw [hviaPointer.1] at hviaPointer'
  exact ⟨t₂, .intro hreturn' htypes' hreturnColumn hblank hviaPointer' hallowed htexts',
    ht₁.trans ht₂⟩

end Renders

/-! ## 2.  A whole table -/

variable {receiver receiver' declaring : String} {slot : Nat} {taken : List String}
  {es : List (String × MethodDecl)} {ws ws' : List Wrapper}

/-- The wrapper of a method, under the name of its member, in front of those of the rest. -/
def cons (n : Naming) (style : WrapperStyle) (receiver declaring : String) (slot : Nat)
    (m : MethodDecl) (member : String) (rest : Pass (List Wrapper)) : Pass (List Wrapper) := do
  let wrapperName := receiver ++ "_" ++ member
  let lines ← render n style receiver wrapperName m slot
  let more ← rest
  return ⟨declaring, m.name, wrapperName, slot, lines⟩ :: more

theorem cons_ok {m : MethodDecl} {member : String} {rest : Pass (List Wrapper)} :
    (cons n style receiver declaring slot m member rest).perform s = (.ok ws, s') ↔
      ∃ lines u more,
        (render n style receiver (receiver ++ "_" ++ member) m slot).perform s = (.ok lines, u) ∧
          rest.perform u = (.ok more, s') ∧
          ws = ⟨declaring, m.name, receiver ++ "_" ++ member, slot, lines⟩ :: more := by
  constructor
  · intro h
    obtain ⟨lines, u, hlines, h₁⟩ := Pass.perform_bind_ok.1 h
    obtain ⟨more, v, hmore, h₂⟩ := Pass.perform_bind_ok.1 h₁
    rw [Pass.perform_pure, Prod.mk.injEq, Except.ok.injEq] at h₂
    obtain ⟨rfl, rfl⟩ := h₂
    exact ⟨lines, u, more, hlines, hmore, rfl⟩
  · rintro ⟨lines, u, more, hlines, hmore, rfl⟩
    exact Pass.perform_bind_ok.2 ⟨lines, u, hlines, Pass.perform_bind_ok.2 ⟨more, s', hmore, rfl⟩⟩

/-- A table that is not empty: behind an entry of the journal, which is the same in all styles,
comes the wrapper of its first method. -/
theorem renderFrom_cons (n : Naming) (receiver : String) (slot : Nat) (taken : List String)
    (e : String × MethodDecl) (s : Session) :
    ∃ j, ∀ style es, (renderFrom n style receiver slot taken (e :: es)).perform s =
      (cons n style receiver e.1 slot e.2 (freshName taken e.2.name)
        (renderFrom n style receiver (slot + 1) (freshName taken e.2.name :: taken) es)).perform
          { s with journal := j } := by
  obtain ⟨declaring, m⟩ := e
  by_cases hname : freshName taken m.name = m.name
  · refine ⟨s.journal, fun style es => ?_⟩
    rw [renderFrom, if_neg (not_not.2 hname)]
    rfl
  · refine ⟨s.journal.push (.plain .dispatch .info
      s!"Renaming {receiver}_{m.name} to {receiver}_{freshName taken m.name}"),
      fun style es => ?_⟩
    rw [renderFrom, if_pos hname, Pass.perform_bind, Pass.perform_note]
    rfl

/-- The wrappers are for the methods of the table in their order. -/
theorem renderFrom_methods
    (h : (renderFrom n style receiver slot taken es).perform s = (.ok ws, s')) :
    ws.map (fun w => (w.interfaceName, w.methodName)) = es.map fun e => (e.1, e.2.name) := by
  induction es generalizing slot taken s ws with
  | nil =>
    obtain ⟨rfl, -⟩ : [] = ws ∧ s = s' := by simpa [renderFrom] using h
    rfl
  | cons e es ih =>
    obtain ⟨j, hj⟩ := renderFrom_cons n receiver slot taken e s
    obtain ⟨lines, u, more, -, hmore, rfl⟩ := cons_ok.1 ((hj style es).symm.trans h)
    rw [List.map_cons, List.map_cons, ih hmore]

theorem renderFrom_length
    (h : (renderFrom n style receiver slot taken es).perform s = (.ok ws, s')) :
    ws.length = es.length := by
  simpa using congrArg List.length (renderFrom_methods h)

/-- The wrappers sit in consecutive slots. -/
theorem renderFrom_slots
    (h : (renderFrom n style receiver slot taken es).perform s = (.ok ws, s')) :
    ws.map (·.slot) = List.range' slot es.length := by
  induction es generalizing slot taken s ws with
  | nil =>
    obtain ⟨rfl, -⟩ : [] = ws ∧ s = s' := by simpa [renderFrom] using h
    rfl
  | cons e es ih =>
    obtain ⟨j, hj⟩ := renderFrom_cons n receiver slot taken e s
    obtain ⟨lines, u, more, -, hmore, rfl⟩ := cons_ok.1 ((hj style es).symm.trans h)
    rw [List.map_cons, ih hmore, List.length_cons, List.range'_succ]

/-- Wrappers for two receivers that call the same member through the same slot. -/
structure SamePlace (receiver receiver' : String) (w w' : Wrapper) : Prop where
  slot : w.slot = w'.slot
  interfaceName : w.interfaceName = w'.interfaceName
  methodName : w.methodName = w'.methodName
  member : ∃ member, w.wrapperName = receiver ++ "_" ++ member ∧
    w'.wrapperName = receiver' ++ "_" ++ member

/-- Two receivers get their members in the same places. -/
theorem renderFrom_samePlaces
    (h : (renderFrom n style receiver slot taken es).perform s = (.ok ws, s'))
    (h' : (renderFrom n style receiver' slot taken es).perform t = (.ok ws', u)) :
    List.Forall₂ (SamePlace receiver receiver') ws ws' := by
  induction es generalizing slot taken s t ws ws' with
  | nil =>
    obtain ⟨rfl, -⟩ : [] = ws ∧ s = s' := by simpa [renderFrom] using h
    obtain ⟨rfl, -⟩ : [] = ws' ∧ t = u := by simpa [renderFrom] using h'
    exact .nil
  | cons e es ih =>
    obtain ⟨j, hj⟩ := renderFrom_cons n receiver slot taken e s
    obtain ⟨j', hj'⟩ := renderFrom_cons n receiver' slot taken e t
    obtain ⟨lines, v, more, -, hmore, rfl⟩ := cons_ok.1 ((hj style es).symm.trans h)
    obtain ⟨lines', v', more', -, hmore', rfl⟩ := cons_ok.1 ((hj' style es).symm.trans h')
    exact .cons ⟨rfl, rfl, rfl, _, rfl, rfl⟩ (ih hmore hmore')

/-- **A table that is rendered to its end is rendered to each of its cuts.** -/
theorem renderFrom_append {es' : List (String × MethodDecl)}
    (h : (renderFrom n style receiver slot taken (es ++ es')).perform s = (.ok ws, s')) :
    ∃ ws₁ u taken' ws₂, (renderFrom n style receiver slot taken es).perform s = (.ok ws₁, u) ∧
      (renderFrom n style receiver (slot + es.length) taken' es').perform u = (.ok ws₂, s') ∧
      ws = ws₁ ++ ws₂ := by
  induction es generalizing slot taken s ws with
  | nil => exact ⟨[], s, taken, ws, rfl, h, rfl⟩
  | cons e es ih =>
    obtain ⟨j, hj⟩ := renderFrom_cons n receiver slot taken e s
    obtain ⟨lines, v, more, hlines, hmore, rfl⟩ := cons_ok.1 ((hj style (es ++ es')).symm.trans h)
    obtain ⟨ws₁, u, taken', ws₂, h₁, h₂, rfl⟩ := ih hmore
    have hslot : slot + (e :: es).length = slot + 1 + es.length := by
      rw [List.length_cons]
      omega
    rw [← hslot] at h₂
    exact ⟨_, u, taken', ws₂, (hj style es).trans (cons_ok.2 ⟨lines, v, ws₁, hlines, h₁, rfl⟩),
      h₂, rfl⟩

/-! ### Once more -/

/-- A table is rendered in sessions that are alike, whoever receives it. -/
theorem renderFrom_alike {slot' : Nat} {taken' : List String}
    (h : (renderFrom n style receiver slot taken es).perform s = (.ok ws, s'))
    (hst : s.Alike rep t) :
    ∃ ws' t', (renderFrom n style receiver' slot' taken' es).perform t = (.ok ws', t') ∧
      s'.Alike rep t' := by
  induction es generalizing slot taken slot' taken' s t ws with
  | nil =>
    obtain ⟨-, rfl⟩ : [] = ws ∧ s = s' := by simpa [renderFrom] using h
    exact ⟨[], t, rfl, hst⟩
  | cons e es ih =>
    obtain ⟨j, hj⟩ := renderFrom_cons n receiver slot taken e s
    obtain ⟨j', hj'⟩ := renderFrom_cons n receiver' slot' taken' e t
    obtain ⟨lines, u, more, hlines, hmore, rfl⟩ := cons_ok.1 ((hj style es).symm.trans h)
    have hnoted : Session.Alike rep { s with journal := j } { t with journal := j' } :=
      ((Session.Alike.journal rep s j).symm.trans hst).trans (.journal rep t j')
    obtain ⟨v, hrenders, huv⟩ := (renders_of_render hlines).alike hnoted
    obtain ⟨lines', hlines'⟩ := render_of_renders hrenders receiver'
      (receiver' ++ "_" ++ freshName taken' e.2.name) slot'
    obtain ⟨more', t', hmore', ht'⟩ := ih hmore huv
    exact ⟨_, t', (hj' style es).trans (cons_ok.2 ⟨lines', v, more', hlines', hmore', rfl⟩), ht'⟩

/-- Rendering a table forgets nothing. -/
theorem renderFrom_recalls
    (h : (renderFrom n style receiver slot taken es).perform s = (.ok ws, s')) :
    s.Recalls rep s' := by
  induction es generalizing slot taken s ws with
  | nil =>
    obtain ⟨-, rfl⟩ : [] = ws ∧ s = s' := by simpa [renderFrom] using h
    exact .refl rep s
  | cons e es ih =>
    obtain ⟨j, hj⟩ := renderFrom_cons n receiver slot taken e s
    obtain ⟨lines, u, more, hlines, hmore, rfl⟩ := cons_ok.1 ((hj style es).symm.trans h)
    exact (Session.Recalls.journal rep s j).trans
      ((renders_of_render hlines).recalls.trans (ih hmore))

/-- A table that was rendered is rendered again, whoever receives it. -/
theorem renderFrom_again {slot' : Nat} {taken' : List String}
    (h : (renderFrom n style receiver slot taken es).perform s = (.ok ws, s'))
    (hst : s'.Recalls rep t) :
    ∃ ws' t', (renderFrom n style receiver' slot' taken' es).perform t = (.ok ws', t') := by
  induction es generalizing slot taken slot' taken' s t ws with
  | nil => exact ⟨[], t, rfl⟩
  | cons e es ih =>
    obtain ⟨j, hj⟩ := renderFrom_cons n receiver slot taken e s
    obtain ⟨j', hj'⟩ := renderFrom_cons n receiver' slot' taken' e t
    obtain ⟨lines, u, more, hlines, hmore, rfl⟩ := cons_ok.1 ((hj style es).symm.trans h)
    have hnoted : s'.Recalls rep { t with journal := j' } := hst.trans (.journal rep t j')
    obtain ⟨v, hrenders, htv⟩ := (renders_of_render hlines).again
      ((renderFrom_recalls hmore).trans hnoted)
    obtain ⟨lines', hlines'⟩ := render_of_renders hrenders receiver'
      (receiver' ++ "_" ++ freshName taken' e.2.name) slot'
    obtain ⟨more', t', hmore'⟩ := ih hmore (hnoted.trans htv)
    exact ⟨_, t', (hj' style es).trans (cons_ok.2 ⟨lines', v, more', hlines', hmore', rfl⟩)⟩

end Wrapper

end ComHeaders
