import ComHeaders.Proofs.Dispatch.Rendering

/-!
# The slots of a dispatch table

A native object of a derived interface can be used through its base interface, because its
dispatch table starts with the table of the base.  The wrappers of an interface rely on that:
those for the methods of the base have to call the same slots under the same member names, or
they call the wrong functions.  This file proves that they do.

## 1.  Base chains

The chain is walked from the interface to its root and written the other way round.  The walk
stops with a failure at a name that it has visited before, so an interface whose chain can be
walked has a base whose chain can be walked: the walk from the base has visited less
(`chainFrom_again`).

## 2.  The table of the base

`ofInterface_slots` is the main result.  If the wrappers of an interface were made, then those of
its base can be made, before or after, and the wrappers of the interface are those of the base
with the receiver exchanged, followed by those for the interface's own methods.
-/

namespace ComHeaders

namespace Wrapper

variable {r : Repository} {s s' t : Session} {i : InterfaceDecl} {is : List InterfaceDecl}
  {unvisited : List String}

/-! ## 1.  Base chains -/

/-- The base chain of an interface, the root first, where interfaces are found by their full
names in a given way. -/
inductive BaseChain (find : String → Except Failure InterfaceDecl) :
    InterfaceDecl → List InterfaceDecl → Prop
  | root {i : InterfaceDecl} (hbase : i.base = none) : BaseChain find i [i]
  | derived {i base : InterfaceDecl} {fullName : String} {is : List InterfaceDecl}
      (hbase : i.base = some (.str fullName)) (hfind : find fullName = .ok base)
      (hchain : BaseChain find base is) : BaseChain find i (is ++ [i])

theorem chainFrom_root (hb : i.base = none) (s : Session) :
    (chainFrom r unvisited i).perform s = (.ok [i], s) := by
  rw [chainFrom, hb]
  rfl

/-- The chain of an interface with a base: the base is looked up, and then comes its own chain. -/
theorem chainFrom_derived (hr : r.Indexed) {b : Value} (hb : i.base = some b) :
    (chainFrom r unvisited i).perform s = (.ok is, s') ↔
      ∃ fullName base t is', b = .str fullName ∧ s.interface? r fullName = .ok base ∧
        (InterfaceDecl.lookup r (.str fullName)).perform s = (.ok base, t) ∧ s.Alike r t ∧
        base.fullName ∈ unvisited ∧
        (chainFrom r (unvisited.erase base.fullName) base).perform t = (.ok is', s') ∧
        is = is' ++ [i] := by
  rw [chainFrom, hb]
  constructor
  · intro h
    obtain ⟨base, t, hlookup, h₁⟩ := Pass.perform_bind_ok.1 h
    obtain ⟨fullName, rfl⟩ : ∃ fullName, b = .str fullName := by
      by_contra hv
      rw [InterfaceDecl.lookup_perform_of_ne (fun k hk => hv ⟨k, hk⟩) s] at hlookup
      cases hlookup
    obtain ⟨t', ht', halike⟩ := InterfaceDecl.lookup_perform hr s fullName
    rw [ht', Prod.mk.injEq] at hlookup
    obtain ⟨hfind, rfl⟩ := hlookup
    split at h₁
    · rename_i hmem
      obtain ⟨is', u, hchain, h₂⟩ := Pass.perform_bind_ok.1 h₁
      rw [Pass.perform_pure, Prod.mk.injEq, Except.ok.injEq] at h₂
      obtain ⟨rfl, rfl⟩ := h₂
      rw [hfind] at ht'
      exact ⟨fullName, base, t', is', rfl, hfind, ht', halike, hmem, hchain, rfl⟩
    · cases h₁
  · rintro ⟨fullName, base, t, is', rfl, -, hlookup, -, hmem, hchain, rfl⟩
    refine Pass.perform_bind_ok.2 ⟨base, t, hlookup, ?_⟩
    rw [dif_pos hmem]
    exact Pass.perform_bind_ok.2 ⟨is', s', hchain, rfl⟩

/-- What a walk along a chain finds, and that a walk that has visited less finds it again. -/
theorem chainFrom_again (hr : r.Indexed) {unvisited : List String} {i : InterfaceDecl}
    {is : List InterfaceDecl} {s : Session}
    (h : (chainFrom r unvisited i).perform s = (.ok is, s')) :
    BaseChain (s.interface? r) i is ∧ s.Alike r s' ∧
      ∀ more t, unvisited.Sublist more → (∀ k, t.interface? r k = s.interface? r k) →
        ∃ t', (chainFrom r more i).perform t = (.ok is, t') ∧ t.Alike r t' := by
  rcases hb : i.base with _ | b
  · rw [chainFrom_root hb, Prod.mk.injEq, Except.ok.injEq] at h
    obtain ⟨rfl, rfl⟩ := h
    exact ⟨.root hb, .refl r s, fun _ t _ _ => ⟨t, chainFrom_root hb t, .refl r t⟩⟩
  · obtain ⟨fullName, base, u, is', rfl, hfind, -, hsu, hmem, hchain, rfl⟩ :=
      (chainFrom_derived hr hb).1 h
    have hshorter : (unvisited.erase base.fullName).length < unvisited.length := by
      rw [List.length_erase_of_mem hmem]
      exact Nat.sub_lt (List.length_pos_of_mem hmem) Nat.one_pos
    obtain ⟨hbase, hus', hagain⟩ := chainFrom_again hr hchain
    rw [show u.interface? r = s.interface? r from (funext hsu.interface?).symm] at hbase hagain
    refine ⟨.derived hb hfind hbase, hsu.trans hus', fun more t hsub ht => ?_⟩
    obtain ⟨t₁, hlookup, htt₁⟩ := InterfaceDecl.lookup_perform hr t fullName
    rw [ht, hfind] at hlookup
    obtain ⟨t₂, hchain', ht₁t₂⟩ := hagain (more.erase base.fullName) t₁ (hsub.erase _)
      fun k => (htt₁.interface? k).symm.trans (ht k)
    exact ⟨t₂, (chainFrom_derived hr hb).2 ⟨fullName, base, t₁, is', rfl, (ht _).trans hfind,
      hlookup, htt₁, hsub.subset hmem, hchain', rfl⟩, htt₁.trans ht₁t₂⟩
termination_by unvisited.length

/-- No interface occurs twice in a chain. -/
theorem chainFrom_nodup (hr : r.Indexed) {unvisited : List String} {i : InterfaceDecl}
    {is : List InterfaceDecl} {s : Session}
    (h : (chainFrom r unvisited i).perform s = (.ok is, s')) (hnodup : unvisited.Nodup)
    (hi : i.fullName ∉ unvisited) :
    (is.map InterfaceDecl.fullName).Nodup ∧
      ∀ j ∈ is, j.fullName = i.fullName ∨ j.fullName ∈ unvisited := by
  rcases hb : i.base with _ | b
  · rw [chainFrom_root hb, Prod.mk.injEq, Except.ok.injEq] at h
    obtain ⟨rfl, rfl⟩ := h
    exact ⟨List.nodup_singleton _, by simp⟩
  · obtain ⟨fullName, base, u, is', rfl, -, -, -, hmem, hchain, rfl⟩ :=
      (chainFrom_derived hr hb).1 h
    have hshorter : (unvisited.erase base.fullName).length < unvisited.length := by
      rw [List.length_erase_of_mem hmem]
      exact Nat.sub_lt (List.length_pos_of_mem hmem) Nat.one_pos
    have hbase : base.fullName ∉ unvisited.erase base.fullName := by
      rw [hnodup.mem_erase_iff]
      exact fun hself => hself.1 rfl
    obtain ⟨hdistinct, hvisited⟩ := chainFrom_nodup hr hchain (hnodup.erase _) hbase
    have hbelow : ∀ j ∈ is', j.fullName ∈ unvisited := by
      intro j hj
      rcases hvisited j hj with heq | hj
      · exact heq ▸ hmem
      · exact List.mem_of_mem_erase hj
    constructor
    · rw [List.map_append, List.map_singleton]
      refine List.nodup_append.2 ⟨hdistinct, List.nodup_singleton _, ?_⟩
      rintro _ hk _ hi' rfl
      obtain ⟨j, hj, hj'⟩ := List.mem_map.1 hk
      obtain rfl := List.mem_singleton.1 hi'
      exact hi (hj' ▸ hbelow j hj)
    · intro j hj
      rcases List.mem_append.1 hj with hj | hj
      · exact .inr (hbelow j hj)
      · exact .inl (congrArg InterfaceDecl.fullName (List.mem_singleton.1 hj))
termination_by unvisited.length

/-! ## 2.  The table of the base -/

theorem table_singleton (i : InterfaceDecl) : table [i] = i.methods.map fun m => (i.name, m) := by
  rw [table, List.flatMap_cons, List.flatMap_nil, List.append_nil]

theorem table_append (is js : List InterfaceDecl) : table (is ++ js) = table is ++ table js :=
  List.flatMap_append

theorem table_map (is : List InterfaceDecl) :
    (table is).map (fun e => (e.1, e.2.name)) =
      is.flatMap fun j => j.methods.map fun m => (j.name, m.name) := by
  simp only [table, List.map_flatMap, List.map_map]
  rfl

/-- The wrappers of an interface, taken apart. -/
theorem ofInterface_ok {n : Naming} {style : WrapperStyle} {ws : List Wrapper} :
    (ofInterface n style i).perform s = (.ok ws, s') ↔
      ∃ is t u, (chain n.repository i).perform s = (.ok is, t) ∧
        (renderFrom n style i.name 0 [] (table is)).perform t = (.ok ws, u) ∧
        s' = { u with journal := u.journal.push (.plain .dispatch .debug
          s!"{i.name}: {ws.length} dispatch slots") } := by
  constructor
  · intro h
    obtain ⟨is, t, hchain, h₁⟩ := Pass.perform_bind_ok.1 h
    obtain ⟨ws', u, hrender, h₂⟩ := Pass.perform_bind_ok.1 h₁
    rw [Pass.perform_bind, Pass.perform_note] at h₂
    simp only [Pass.perform_pure, Prod.mk.injEq, Except.ok.injEq] at h₂
    obtain ⟨rfl, rfl⟩ := h₂
    exact ⟨is, t, u, hchain, hrender, rfl⟩
  · rintro ⟨is, t, u, hchain, hrender, rfl⟩
    exact Pass.perform_bind_ok.2 ⟨is, t, hchain, Pass.perform_bind_ok.2 ⟨ws, u, hrender, rfl⟩⟩

/-- Where the names for the methods of the base can be found, its table is rendered if that of the
interface was. -/
theorem renderFrom_base {n : Naming} {style : WrapperStyle} {receiver : String}
    (receiver' : String) {es es' : List (String × MethodDecl)} {ws : List Wrapper} {u : Session}
    (h : (renderFrom n style receiver 0 [] (es ++ es')).perform s = (.ok ws, u))
    (ht : s.Alike r t ∨ u.Recalls r t) :
    ∃ ws' t' inherited own, (renderFrom n style receiver' 0 [] es).perform t = (.ok ws', t') ∧
      ws = inherited ++ own ∧ List.Forall₂ (SamePlace receiver receiver') inherited ws' ∧
      own.map (fun w => (w.interfaceName, w.methodName)) = es'.map (fun e => (e.1, e.2.name)) ∧
      own.map (·.slot) = List.range' ws'.length es'.length := by
  obtain ⟨inherited, v, taken, own, hinherited, hown, rfl⟩ := renderFrom_append h
  have hagain : ∃ ws' t', (renderFrom n style receiver' 0 [] es).perform t = (.ok ws', t') := by
    rcases ht with halike | hrecalls
    · obtain ⟨ws', t', hrender, -⟩ := renderFrom_alike hinherited halike
      exact ⟨ws', t', hrender⟩
    · exact renderFrom_again hinherited ((renderFrom_recalls hown).trans hrecalls)
  obtain ⟨ws', t', hrender⟩ := hagain
  refine ⟨ws', t', inherited, own, hrender, rfl, renderFrom_samePlaces hinherited hrender,
    renderFrom_methods hown, ?_⟩
  rw [renderFrom_slots hown, renderFrom_length hrender, Nat.zero_add]

/-- **The slots of a dispatch table.**  Suppose that the wrappers of an interface are made, from
whatever session.  They are for the methods of the base chain, the root first and each
interface's methods in their order, and their slots are counted from zero.

If the interface has a base, the look-up finds it.  The wrappers of the base can be made then, in
a session like the first one or in any later one that recalls the last one.  Those of the
interface begin with wrappers that sit in the same places as those of the base, and go on with
wrappers for its own methods in the slots behind. -/
theorem ofInterface_slots (ds : List TypeDef) (tagged : List String) (style : WrapperStyle)
    {i : InterfaceDecl} {s s' : Session} {ws : List Wrapper}
    (h : (ofInterface ⟨.ofList ds, tagged⟩ style i).perform s = (.ok ws, s')) :
    (∃ is, BaseChain (s.interface? (.ofList ds)) i is ∧
      ws.map (fun w => (w.interfaceName, w.methodName)) =
        is.flatMap (fun j => j.methods.map fun m => (j.name, m.name)) ∧
      ws.map (·.slot) = List.range ws.length) ∧
    ∀ b, i.base = some b → ∃ base,
      ((InterfaceDecl.lookup (.ofList ds) b).perform s).1 = .ok base ∧
      ∀ t, s.Alike (.ofList ds) t ∨ s'.Recalls (.ofList ds) t → ∃ ws' t' inherited own,
        (ofInterface ⟨.ofList ds, tagged⟩ style base).perform t = (.ok ws', t') ∧
        ws = inherited ++ own ∧
        List.Forall₂ (SamePlace i.name base.name) inherited ws' ∧
        own.map (fun w => (w.interfaceName, w.methodName)) =
          i.methods.map (fun m => (i.name, m.name)) ∧
        own.map (·.slot) = List.range' ws'.length i.methods.length := by
  have hr := Repository.indexed_ofList ds
  obtain ⟨is, s₁, u, hchain, hrender, rfl⟩ := ofInterface_ok.1 h
  obtain ⟨hbases, hss₁, -⟩ := chainFrom_again hr hchain
  refine ⟨⟨is, hbases, ?_, ?_⟩, fun b hb => ?_⟩
  · rw [renderFrom_methods hrender, table_map]
  · rw [renderFrom_slots hrender, List.range_eq_range', renderFrom_length hrender]
  obtain ⟨fullName, base, s₂, is', rfl, hfind, hlookup, hss₂, hmem, hbaseChain, rfl⟩ :=
    (chainFrom_derived hr hb).1 hchain
  refine ⟨base, congrArg Prod.fst hlookup, fun t ht => ?_⟩
  have hs₁u : s₁.Recalls (.ofList ds) u := renderFrom_recalls hrender
  have hanswers : ∀ k, t.interface? (.ofList ds) k = s₂.interface? (.ofList ds) k := by
    intro k
    rw [← hss₂.interface? k]
    rcases ht with halike | hrecalls
    · exact (halike.interface? k).symm
    · exact (hrecalls.interface? k).symm.trans
        ((hs₁u.interface? k).symm.trans (hss₁.interface? k).symm)
  -- The walk from the base has visited less than the walk from the interface.
  obtain ⟨-, -, hagain⟩ := chainFrom_again hr hbaseChain
  obtain ⟨t₁, hbaseChain', htt₁⟩ :=
    hagain _ t (List.erase_sublist.erase base.fullName) hanswers
  have hnames : s₁.Alike (.ofList ds) t₁ ∨ u.Recalls (.ofList ds) t₁ := by
    rcases ht with halike | hrecalls
    · exact .inl (hss₁.symm.trans (halike.trans htt₁))
    · exact .inr (((Session.Recalls.journal _ u _).trans hrecalls).trans (.of_alike htt₁))
  rw [table_append, table_singleton] at hrender
  obtain ⟨ws', t₂, inherited, own, hbase, rfl, hplaces, hmethods, hslots⟩ :=
    renderFrom_base base.name hrender hnames
  refine ⟨ws', _, inherited, own, ofInterface_ok.2 ⟨is', t₁, t₂, hbaseChain', hbase, rfl⟩, rfl,
    hplaces, ?_, ?_⟩
  · rw [hmethods, List.map_map]
    rfl
  · rw [hslots, List.length_map]

/-- An interface with one method, which takes nothing and returns nothing. -/
def plainInterface (name method : String) (bases : List TypeRef) : TypeDef where
  namespaceName := .str "Shapes"
  name := name
  isInterface := true
  baseType := .null
  declaringType := .null
  explicitLayout := false
  interfaces := bases
  fields := []
  methods := [⟨method, .void, [], []⟩]
  attributes := []

/-- A circle is a shape, and both have a method called `Draw`. -/
def shapes : List TypeDef := [
  plainInterface "IShape" "Draw" [],
  plainInterface "ICircle" "Draw" [.named (.str "Shapes") (.str "IShape") .null false]]

/-- The interface of a circle. -/
def circle : InterfaceDecl where
  name := "ICircle"
  fullName := "Shapes.ICircle"
  methods := [⟨"Draw", .void, [], none⟩]
  base := some (.str "Shapes.IShape")
  guid := none

theorem circle_wrappers :
    (((ofInterface ⟨.ofList shapes, []⟩ {} circle).perform {}).1.toOption.map
      fun ws => ws.map fun w => (w.interfaceName, w.wrapperName, w.slot)) =
        some [("IShape", "ICircle_Draw", 0), ("ICircle", "ICircle_Draw1", 1)] := by
  decide +kernel

/-- The wrappers of the circle are made, and behind them those of the shape, which are the first
of the circle's. -/
theorem circle_slots :
    ∃ ws s', (ofInterface ⟨.ofList shapes, []⟩ {} circle).perform {} = (.ok ws, s') ∧
      ∃ base ws' t' inherited own,
        (ofInterface ⟨.ofList shapes, []⟩ {} base).perform s' = (.ok ws', t') ∧
          ws = inherited ++ own ∧ List.Forall₂ (SamePlace "ICircle" base.name) inherited ws' ∧
          own.map (·.slot) = List.range' ws'.length 1 := by
  obtain ⟨ws, s', h⟩ : ∃ ws s',
      (ofInterface ⟨.ofList shapes, []⟩ {} circle).perform {} = (.ok ws, s') := by
    have hsome := circle_wrappers
    rcases h : (ofInterface ⟨.ofList shapes, []⟩ {} circle).perform {} with ⟨e | ws, s'⟩
    · rw [h] at hsome
      cases hsome
    · exact ⟨ws, s', rfl⟩
  obtain ⟨-, hbase⟩ := ofInterface_slots shapes [] {} h
  obtain ⟨base, -, hbeside⟩ := hbase _ rfl
  obtain ⟨ws', t', inherited, own, hrun, hws, hplaces, -, hslots⟩ :=
    hbeside s' (.inr (.refl _ s'))
  exact ⟨ws, s', h, base, ws', t', inherited, own, hrun, hws, hplaces, hslots⟩

end Wrapper

end ComHeaders
