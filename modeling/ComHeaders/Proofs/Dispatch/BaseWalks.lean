import ComHeaders.Proofs.Failures
import ComHeaders.Proofs.Histories
import ComHeaders.Proofs.Reach

/-!
# Where base chains end

The bases of an interface are names, and the metadata may have put anything there: names that denote
nothing, or an interface that the walk has come by before.  This file says how the walk along these
names ends, without the tables that a pass keeps and without the order in which the program takes
its steps, and that the wrappers of an interface follow that.

## 1.  Walks

`BaseWalk r i heirs result` says that the walk which has come from the interfaces `heirs` to `i`
ends with a result.  It does not look at methods.

## 2.  Every walk ends

What decreases are the names in the metadata set that were not visited.  They are what the program
keeps in a list (`Unvisited`).

## 3.  The program walks

From a session that answers like a new one the program has the result of the walk
(`BaseWalk.chainFrom_perform`).

## 4.  Wrappers

`ofInterface_baseWalk` is the result.  The base chain comes first, and only then are methods
rendered.
-/

namespace ComHeaders

namespace Wrapper

variable {r : Repository} {i : InterfaceDecl} {heirs : List InterfaceDecl}
  {result : Except Failure (List InterfaceDecl)} {unvisited : List String} {s : Session}

/-! ## 1.  Walks -/

/-- The walk from an interface to its bases, when it has come by its heirs, the nearest first, and
what the walk ends with: the whole chain, the root first, or a failure. -/
inductive BaseWalk (r : Repository) :
    InterfaceDecl → List InterfaceDecl → Except Failure (List InterfaceDecl) → Prop
  | root {i : InterfaceDecl} {heirs : List InterfaceDecl} (hbase : i.base = none) :
      BaseWalk r i heirs (.ok (i :: heirs))
  | unnamed {i : InterfaceDecl} {heirs : List InterfaceDecl} {v : Value} (hbase : i.base = some v)
      (hv : ∀ k, v ≠ .str k) :
      BaseWalk r i heirs
        (.error (if v.isKey then .unknownInterface v.text else .fault .wrongKind))
  | unknown {i : InterfaceDecl} {heirs : List InterfaceDecl} {k : String}
      (hbase : i.base = some (.str k))
      (hnone : ∀ d, r.find? k = some d → d.isInterface = false) :
      BaseWalk r i heirs (.error (.unknownInterface k))
  | rejected {i : InterfaceDecl} {heirs : List InterfaceDecl} {k : String} {d : TypeDef}
      {e : Failure} (hbase : i.base = some (.str k)) (hfind : r.find? k = some d)
      (hinterface : d.isInterface = true) (hd : InterfaceDecl.ofDefinition d = .error e) :
      BaseWalk r i heirs (.error e)
  | cyclic {i base : InterfaceDecl} {heirs : List InterfaceDecl} {k : String} {d : TypeDef}
      (hbase : i.base = some (.str k)) (hfind : r.find? k = some d)
      (hinterface : d.isInterface = true) (hd : InterfaceDecl.ofDefinition d = .ok base)
      (hvisited : k ∈ (i :: heirs).map InterfaceDecl.fullName) :
      BaseWalk r i heirs (.error (.unsupportedShape k .cyclicBases))
  | step {i base : InterfaceDecl} {heirs : List InterfaceDecl} {k : String} {d : TypeDef}
      {result : Except Failure (List InterfaceDecl)}
      (hbase : i.base = some (.str k)) (hfind : r.find? k = some d)
      (hinterface : d.isInterface = true) (hd : InterfaceDecl.ofDefinition d = .ok base)
      (hnew : k ∉ (i :: heirs).map InterfaceDecl.fullName)
      (hrest : BaseWalk r base (i :: heirs) result) :
      BaseWalk r i heirs result

theorem fullName_eq (hr : r.Indexed) {k : String} {d : TypeDef} {base : InterfaceDecl}
    (hfind : r.find? k = some d) (hd : InterfaceDecl.ofDefinition d = .ok base) :
    base.fullName = k :=
  (InterfaceDecl.of_ofDefinition hd).1.trans (hr k d hfind)

/-- No interface is on the way twice. -/
theorem BaseWalk.nodup (hr : r.Indexed) (h : BaseWalk r i heirs result)
    (hheirs : ((i :: heirs).map InterfaceDecl.fullName).Nodup) :
    ∀ is, result = .ok is → (is.map InterfaceDecl.fullName).Nodup := by
  induction h with
  | root hbase =>
    rintro _ ⟨⟩
    exact hheirs
  | step hbase hfind hinterface hd hnew hrest ih =>
    refine ih (List.nodup_cons.2 ⟨?_, hheirs⟩)
    rwa [fullName_eq hr hfind hd]
  | _ =>
    rintro _ ⟨⟩

/-! ## 2.  Every walk ends -/

/-- The names in a metadata set that were not visited on the way to an interface and at it. -/
structure Unvisited (r : Repository) (i : InterfaceDecl) (heirs : List InterfaceDecl)
    (unvisited : List String) : Prop where
  nodup : unvisited.Nodup
  mem_iff : ∀ k, k ∈ unvisited ↔ k ∈ r.index.keys ∧ k ∉ (i :: heirs).map InterfaceDecl.fullName

namespace Unvisited

theorem start (hkeys : r.index.keys.Nodup) (i : InterfaceDecl) :
    Unvisited r i [] (r.index.keys.erase i.fullName) where
  nodup := hkeys.erase _
  mem_iff k := by
    rw [hkeys.mem_erase_iff, List.map_singleton, List.mem_singleton, and_comm]

theorem mem_iff_new (h : Unvisited r i heirs unvisited) {k : String} {d : TypeDef}
    (hfind : r.find? k = some d) :
    k ∈ unvisited ↔ k ∉ (i :: heirs).map InterfaceDecl.fullName := by
  have hkey : k ∈ r.index.keys := Table.isSome_lookup_iff.1 (Option.isSome_of_mem hfind)
  rw [h.mem_iff, and_iff_right hkey]

theorem step (h : Unvisited r i heirs unvisited) (base : InterfaceDecl) :
    Unvisited r base (i :: heirs) (unvisited.erase base.fullName) where
  nodup := h.nodup.erase _
  mem_iff k := by
    rw [h.nodup.mem_erase_iff, h.mem_iff, List.map_cons (a := base), List.mem_cons, not_or]
    exact and_left_comm

end Unvisited

/-- **Every walk ends**, since each step visits a name in the metadata set. -/
theorem exists_baseWalk (hr : r.Indexed) {i : InterfaceDecl} {heirs : List InterfaceDecl}
    {unvisited : List String} (h : Unvisited r i heirs unvisited) :
    ∃ result, BaseWalk r i heirs result := by
  rcases hbase : i.base with _ | v
  · exact ⟨_, .root hbase⟩
  by_cases hv : ∃ k, v = .str k
  case neg => exact ⟨_, .unnamed hbase fun k hk => hv ⟨k, hk⟩⟩
  obtain ⟨k, rfl⟩ := hv
  by_cases hfind : ∃ d, r.find? k = some d ∧ d.isInterface = true
  case neg =>
    refine ⟨_, .unknown hbase fun d hd => Bool.eq_false_iff.2 fun hinterface => ?_⟩
    exact hfind ⟨d, hd, hinterface⟩
  obtain ⟨d, hfind, hinterface⟩ := hfind
  rcases hd : InterfaceDecl.ofDefinition d with e | base
  · exact ⟨_, .rejected hbase hfind hinterface hd⟩
  by_cases hnew : k ∉ (i :: heirs).map InterfaceDecl.fullName
  case neg => exact ⟨_, .cyclic hbase hfind hinterface hd (not_not.1 hnew)⟩
  have hmem : base.fullName ∈ unvisited := by
    rw [fullName_eq hr hfind hd]
    exact (h.mem_iff_new hfind).2 hnew
  have hshorter : (unvisited.erase base.fullName).length < unvisited.length := by
    rw [List.length_erase_of_mem hmem]
    exact Nat.sub_lt (List.length_pos_of_mem hmem) Nat.one_pos
  obtain ⟨result, hrest⟩ := exists_baseWalk hr (h.step base)
  exact ⟨result, .step hbase hfind hinterface hd hnew hrest⟩
termination_by unvisited.length

/-! ## 3.  The program walks -/

theorem chainFrom_of_base {v : Value} (hbase : i.base = some v) :
    chainFrom r unvisited i = (do
      let base ← InterfaceDecl.lookup r v
      if base.fullName ∈ unvisited then
        return (← chainFrom r (unvisited.erase base.fullName) base) ++ [i]
      else throw (.unsupportedShape base.fullName .cyclicBases)) := by
  rw [chainFrom, hbase]
  rfl

/-- Where the base is not found, the walk fails with the failure of the look-up. -/
theorem chainFrom_error {v : Value} {e : Failure} {t : Session} (hbase : i.base = some v)
    (hlookup : (InterfaceDecl.lookup r v).perform s = (.error e, t)) :
    (chainFrom r unvisited i).perform s = (.error e, t) := by
  rw [chainFrom_of_base hbase, Pass.perform_bind, hlookup]

/-- An interface that was visited before closes a cycle. -/
theorem chainFrom_visited {v : Value} {base : InterfaceDecl} {t : Session} (hbase : i.base = some v)
    (hlookup : (InterfaceDecl.lookup r v).perform s = (.ok base, t))
    (hvisited : base.fullName ∉ unvisited) :
    (chainFrom r unvisited i).perform s =
      (.error (.unsupportedShape base.fullName .cyclicBases), t) := by
  rw [chainFrom_of_base hbase, Pass.perform_bind, hlookup]
  simp only [if_neg hvisited, Pass.perform_throw]

/-- From any other one the walk goes on. -/
theorem chainFrom_new {v : Value} {base : InterfaceDecl} {t : Session} (hbase : i.base = some v)
    (hlookup : (InterfaceDecl.lookup r v).perform s = (.ok base, t))
    (hnew : base.fullName ∈ unvisited) :
    ((chainFrom r unvisited i).perform s).1 =
      ((chainFrom r (unvisited.erase base.fullName) base).perform t).1.map (· ++ [i]) := by
  rw [chainFrom_of_base hbase, Pass.perform_bind, hlookup]
  simp only [if_pos hnew, Pass.perform_bind]
  rcases (chainFrom r (unvisited.erase base.fullName) base).perform t with ⟨e | is, u⟩
  · rfl
  · rfl

/-- **The program walks as the names lead**, from any session that answers like a new one. -/
theorem BaseWalk.chainFrom_perform (hr : r.Indexed) (h : BaseWalk r i heirs result)
    (hunvisited : Unvisited r i heirs unvisited) (hs : s.AnswersAnew r) :
    ((chainFrom r unvisited i).perform s).1.map (· ++ heirs) = result := by
  induction h generalizing unvisited s with
  | root hbase =>
    rw [chainFrom_root hbase]
    rfl
  | unnamed hbase hv =>
    rw [chainFrom_error hbase (InterfaceDecl.lookup_perform_of_ne hv s)]
    rfl
  | unknown hbase hnone =>
    obtain ⟨t, hlookup, -⟩ := hs.lookup_perform hr (Session.interface?_start_of_unknown hnone)
    rw [chainFrom_error hbase hlookup]
    rfl
  | rejected hbase hfind hinterface hd =>
    obtain ⟨t, hlookup, -⟩ :=
      hs.lookup_perform hr ((Session.interface?_start hfind hinterface).trans hd)
    rw [chainFrom_error hbase hlookup]
    rfl
  | cyclic hbase hfind hinterface hd hvisited =>
    obtain ⟨t, hlookup, -⟩ :=
      hs.lookup_perform hr ((Session.interface?_start hfind hinterface).trans hd)
    obtain rfl := fullName_eq hr hfind hd
    rw [chainFrom_visited hbase hlookup fun hmem => (hunvisited.mem_iff_new hfind).1 hmem hvisited]
    rfl
  | step hbase hfind hinterface hd hnew hrest ih =>
    obtain ⟨t, hlookup, ht⟩ :=
      hs.lookup_perform hr ((Session.interface?_start hfind hinterface).trans hd)
    obtain rfl := fullName_eq hr hfind hd
    rw [chainFrom_new hbase hlookup ((hunvisited.mem_iff_new hfind).2 hnew),
      ← ih (hunvisited.step _) ht]
    rcases ((chainFrom r _ _).perform t).1 with e | is
    · rfl
    · simp [Except.map]

/-! ## 4.  Wrappers -/

section Wrappers

variable {n : Naming} {style : WrapperStyle} {receiver declaring member : String} {slot : Nat}
  {taken : List String} {m : MethodDecl} {es : List (String × MethodDecl)} {e : Failure}

/-- A table fails at one of its methods: those in front of it are rendered, and it is not. -/
def FailsAtMethod (n : Naming) (style : WrapperStyle) (receiver : String) (s : Session) (slot : Nat)
    (taken : List String) (es : List (String × MethodDecl)) (e : Failure) : Prop :=
  ∃ before declaring m after, es = before ++ (declaring, m) :: after ∧
    ∃ ws u, (renderFrom n style receiver slot taken before).perform s = (.ok ws, u) ∧
      ∃ wrapperName j,
        ((render n style receiver wrapperName m (slot + before.length)).perform
          { u with journal := j }).1 = .error e

/-- A wrapper in front of others fails where it is rendered, or behind it. -/
theorem cons_error {rest : Pass (List Wrapper)}
    (h : ((cons n style receiver declaring slot m member rest).perform s).1 = .error e) :
    ((render n style receiver (receiver ++ "_" ++ member) m slot).perform s).1 = .error e ∨
      ∃ lines u, (render n style receiver (receiver ++ "_" ++ member) m slot).perform s =
          (.ok lines, u) ∧ (rest.perform u).1 = .error e := by
  rw [cons, Pass.perform_bind] at h
  rcases hlines : (render n style receiver (receiver ++ "_" ++ member) m slot).perform s
    with ⟨e' | lines, u⟩
  · rw [hlines] at h
    exact .inl (congrArg Except.error (Except.error.inj h))
  · rw [hlines] at h
    refine .inr ⟨lines, u, rfl, ?_⟩
    simp only [Pass.perform_bind] at h
    rcases hrest : rest.perform u with ⟨e' | more, v⟩
    · rw [hrest] at h
      exact h
    · rw [hrest] at h
      cases h

/-- **A table that is not rendered fails at a method.** -/
theorem failsAtMethod_of_renderFrom
    (h : ((renderFrom n style receiver slot taken es).perform s).1 = .error e) :
    FailsAtMethod n style receiver s slot taken es e := by
  induction es generalizing slot taken s with
  | nil => cases h
  | cons a es ih =>
    obtain ⟨j, hj⟩ := renderFrom_cons n receiver slot taken a s
    rw [hj] at h
    obtain h | ⟨lines, u, hlines, hrest⟩ := cons_error h
    · exact ⟨[], a.1, a.2, es, rfl, [], s, rfl, _, j, h⟩
    · obtain ⟨before, declaring, m, after, rfl, ws, v, hbefore, wrapperName, j', hm⟩ := ih hrest
      have hslot : slot + 1 + before.length = slot + (a :: before).length := by
        rw [List.length_cons]
        omega
      rw [hslot] at hm
      exact ⟨a :: before, declaring, m, after, rfl, _, v,
        (hj style before).trans (cons_ok.2 ⟨lines, u, ws, hlines, hbefore, rfl⟩),
        wrapperName, j', hm⟩

/-- The wrappers of an interface come behind its chain. -/
theorem ofInterface_perform (n : Naming) (style : WrapperStyle) (i : InterfaceDecl) (s : Session) :
    ((ofInterface n style i).perform s).1 =
      match (chain n.repository i).perform s with
      | (.ok is, t) => ((renderFrom n style i.name 0 [] (table is)).perform t).1
      | (.error e, _) => .error e := by
  rw [ofInterface, Pass.perform_bind]
  rcases (chain n.repository i).perform s with ⟨e | is, t⟩
  · rfl
  · simp only [Pass.perform_bind]
    rcases (renderFrom n style i.name 0 [] (table is)).perform t with ⟨e | ws, u⟩
    · rfl
    · rfl

/-- **Where base chains end.**  Take a metadata set without repeated names, and a pass over it that
was asked for anything before.  The walk from an interface along its bases ends.  If it ends with a
failure, the wrappers of the interface fail with it, whatever methods there are on the way.  If it
ends with a chain, no interface is in the chain twice; and either there are wrappers, for exactly
the methods of the chain, or they fail at one of these methods. -/
theorem ofInterface_baseWalk (ds : List TypeDef) (hdistinct : (ds.map TypeDef.fullName).Nodup)
    (tagged : List String) (style : WrapperStyle) (requests : List Request) (i : InterfaceDecl) :
    (∃ result, BaseWalk (.ofList ds) i [] result) ∧
    (∀ e, BaseWalk (.ofList ds) i [] (.error e) →
      ((ofInterface ⟨.ofList ds, tagged⟩ style i).perform
        (Naming.history ⟨.ofList ds, tagged⟩ requests)).1 = .error e) ∧
    ∀ is, BaseWalk (.ofList ds) i [] (.ok is) → (is.map InterfaceDecl.fullName).Nodup ∧
      ((∃ ws, ((ofInterface ⟨.ofList ds, tagged⟩ style i).perform
          (Naming.history ⟨.ofList ds, tagged⟩ requests)).1 = .ok ws ∧
          ws.map (fun w => (w.interfaceName, w.methodName)) =
            is.flatMap fun j => j.methods.map fun m => (j.name, m.name)) ∨
        ∃ e, ((ofInterface ⟨.ofList ds, tagged⟩ style i).perform
          (Naming.history ⟨.ofList ds, tagged⟩ requests)).1 = .error e ∧
          FailsAtMethod ⟨.ofList ds, tagged⟩ style i.name ((chain (.ofList ds) i).perform
            (Naming.history ⟨.ofList ds, tagged⟩ requests)).2 0 [] (table is) e) := by
  have hr := Repository.indexed_ofList ds
  have hunvisited := Unvisited.start (Repository.nodup_keys_ofList ds) i
  have hwalk {result : Except Failure (List InterfaceDecl)}
      (h : BaseWalk (.ofList ds) i [] result) :
      ((chain (.ofList ds) i).perform (Naming.history ⟨.ofList ds, tagged⟩ requests)).1 =
        result := by
    have happend : (fun is : List InterfaceDecl => is ++ []) = id := funext List.append_nil
    have hchain := h.chainFrom_perform hr hunvisited (answersAnew_history hdistinct tagged requests)
    rwa [happend, Except.map_id] at hchain
  refine ⟨exists_baseWalk hr hunvisited, fun e h => ?_, fun is h => ?_⟩
  · rcases hchain : (chain (.ofList ds) i).perform
      (Naming.history ⟨.ofList ds, tagged⟩ requests) with ⟨x, t⟩
    obtain rfl : x = .error e := by rw [← hwalk h, hchain]
    rw [ofInterface_perform, hchain]
  · refine ⟨h.nodup hr (List.nodup_singleton _) is rfl, ?_⟩
    rcases hchain : (chain (.ofList ds) i).perform
      (Naming.history ⟨.ofList ds, tagged⟩ requests) with ⟨x, t⟩
    obtain rfl : x = .ok is := by rw [← hwalk h, hchain]
    have hwrappers : ((ofInterface ⟨.ofList ds, tagged⟩ style i).perform
        (Naming.history ⟨.ofList ds, tagged⟩ requests)).1 =
          ((renderFrom ⟨.ofList ds, tagged⟩ style i.name 0 [] (table is)).perform t).1 := by
      rw [ofInterface_perform, hchain]
    rw [hwrappers]
    rcases hrender : (renderFrom ⟨.ofList ds, tagged⟩ style i.name 0 [] (table is)).perform t
      with ⟨e | ws, u⟩
    · exact .inr ⟨e, rfl, failsAtMethod_of_renderFrom (congrArg Prod.fst hrender)⟩
    · exact .inl ⟨ws, rfl, by rw [renderFrom_methods hrender, table_map]⟩

/-- Two interfaces that are each other's base.  The method of the first one has no wrapper, since
there is no name for its result. -/
def alternating : List TypeDef := [
  { plainInterface "IEven" "Next" [.named (.str "Shapes") (.str "IOdd") .null false] with
    methods := [⟨"Next", .primitive (.str "Char"), [], []⟩] },
  plainInterface "IOdd" "Next" [.named (.str "Shapes") (.str "IEven") .null false]]

/-- The first of the two. -/
def even : InterfaceDecl where
  name := "IEven"
  fullName := "Shapes.IEven"
  methods := [⟨"Next", .primitive (.str "Char"), [], none⟩]
  base := some (.str "Shapes.IOdd")
  guid := none

/-- Its wrappers fail because it is its own base in the end, also when its base was looked up
before. -/
theorem even_baseWalk :
    (alternating.map TypeDef.fullName).Nodup ∧
      ((ofInterface ⟨.ofList alternating, []⟩ {} even).perform
        (Naming.history ⟨.ofList alternating, []⟩ [.interface (.str "Shapes.IOdd")])).1 =
          .error (.unsupportedShape "Shapes.IEven" .cyclicBases) := by
  have hdistinct : (alternating.map TypeDef.fullName).Nodup := by decide +kernel
  have hwalk : BaseWalk (.ofList alternating) even []
      (.error (.unsupportedShape "Shapes.IEven" .cyclicBases)) :=
    .step (k := "Shapes.IOdd") rfl rfl rfl rfl (by decide +kernel)
      (.cyclic (k := "Shapes.IEven") rfl rfl rfl rfl (by decide +kernel))
  exact ⟨hdistinct, (ofInterface_baseWalk alternating hdistinct [] {} _ even).2.1 _ hwalk⟩

end Wrappers

end Wrapper

end ComHeaders
