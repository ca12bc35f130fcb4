import ComHeaders.Proofs.StructOrder.References
import Mathlib.Data.List.Infix
import Mathlib.Data.List.Nodup

/-!
# The turns of the walk

`StructOrder.run` is a loop over `Walk`.  Here it is taken apart into single turns, and what
one turn preserves is carried through a whole run.

## 1.  Turns

`Turn w w'` is one turn that does not end the run.  There are four: a struct is entered
because nothing is open (`enter`), because an open struct asks for it (`descend`), a demand is
passed over because its target was entered before (`pass`), and a struct whose demands are
settled is finished (`finish`).  A run that ends well is a sequence of turns to a walk with
nothing left (`exists_turns_of_run`).

## 2.  What a walk remembers

A walk is `Sound` if each open struct is at the end of the first chain that leads to it, and if
what an open struct has settled is exhausted: everything that a settled struct leads to around
the open ones is finished.  The frames below the latest one are a case of their own, since the
demand that led upward is settled only when the struct above is finished; `Reached` recurses
along them.

## 3.  Every turn keeps a walk sound

The four turns are four lemmas, and `Walk.Sound.turns` carries them through a run.
-/

namespace ComHeaders

namespace StructOrder

/-! ## Taking a struct out -/

/-- A struct that is taken out leaves the others in their order. -/
theorem take?_eq_some {name : String} {l rest : List StructDecl} {s : StructDecl}
    (h : take? name l = some (s, rest)) :
    s.name = name ∧ ∃ pre post, l = pre ++ s :: post ∧ rest = pre ++ post := by
  induction l generalizing rest with
  | nil => simp [take?] at h
  | cons t l ih =>
    rw [take?] at h
    split at h
    · rename_i hname
      simp only [Option.some.injEq, Prod.mk.injEq] at h
      obtain ⟨rfl, rfl⟩ := h
      exact ⟨hname, [], l, rfl, rfl⟩
    · obtain ⟨⟨u, others⟩, hu, heq⟩ := Option.map_eq_some_iff.1 h
      simp only [Prod.mk.injEq] at heq
      obtain ⟨rfl, rfl⟩ := heq
      obtain ⟨hname, pre, post, rfl, rfl⟩ := ih hu
      exact ⟨hname, t :: pre, post, rfl, rfl⟩

theorem take?_eq_none {name : String} {l : List StructDecl} (h : take? name l = none) :
    ∀ s ∈ l, s.name ≠ name := by
  induction l with
  | nil => simp
  | cons t l ih =>
    rw [take?] at h
    split at h
    · simp at h
    · rename_i hname
      intro s hs
      rcases List.mem_cons.mp hs with rfl | hs
      · exact hname
      · exact ih (Option.map_eq_none_iff.mp h) s hs

/-! ## 1.  Turns -/

/-- One turn of the walk that does not end the run. -/
inductive Turn : Walk → Walk → Prop where
  | enter {s : StructDecl} {rest finished : List StructDecl} {notes : List Entry} :
    Turn ⟨s :: rest, [], finished, notes⟩ ⟨rest, [⟨s, s.demands⟩], finished, notes⟩
  | finish {remaining finished : List StructDecl} {owner : StructDecl}
      {outer : List OpenStruct} {notes : List Entry} :
    Turn ⟨remaining, ⟨owner, []⟩ :: outer, finished, notes⟩
      ⟨remaining, outer, owner :: finished, notes⟩
  | pass {remaining finished : List StructDecl} {owner : StructDecl} {field target : String}
      {pending : List Demand} {outer : List OpenStruct} {notes : List Entry} :
    take? target remaining = none →
    Turn ⟨remaining, ⟨owner, .reference field target :: pending⟩ :: outer, finished, notes⟩
      ⟨remaining, ⟨owner, pending⟩ :: outer, finished, notes⟩
  | descend {remaining rest finished : List StructDecl} {owner s : StructDecl}
      {field target : String} {pending : List Demand} {outer : List OpenStruct}
      {notes : List Entry} :
    take? target remaining = some (s, rest) →
    Turn ⟨remaining, ⟨owner, .reference field target :: pending⟩ :: outer, finished, notes⟩
      ⟨rest, ⟨s, s.demands⟩ :: ⟨owner, pending⟩ :: outer, finished,
        requirement owner field target :: notes⟩

/-- A walk that has come to its end, with what comes of it. -/
inductive Ends : Walk → Except Failure (List StructDecl) → Prop where
  | done {finished : List StructDecl} {notes : List Entry} :
    Ends ⟨[], [], finished, notes⟩ (.ok finished.reverse)
  | forbidden {remaining finished : List StructDecl} {owner : StructDecl} {field element : String}
      {pending : List Demand} {outer : List OpenStruct} {notes : List Entry} :
    Ends ⟨remaining, ⟨owner, .forbidden field element :: pending⟩ :: outer, finished, notes⟩
      (.error (.aggregateArray owner.name field element))
  | unusable {remaining finished : List StructDecl} {owner : StructDecl} {fault : Fault}
      {pending : List Demand} {outer : List OpenStruct} {notes : List Entry} :
    Ends ⟨remaining, ⟨owner, .unusable fault :: pending⟩ :: outer, finished, notes⟩
      (.error (.fault fault))

/-- **A run is a sequence of turns** to a walk that has come to its end. -/
theorem exists_ends (w : Walk) : ∃ w', Relation.ReflTransGen Turn w w' ∧ Ends w' (run w).1 := by
  fun_induction run w with
  | case1 w hopened hremaining =>
    obtain ⟨remaining, opened, finished, notes⟩ := w
    dsimp only at hopened hremaining
    subst hopened hremaining
    exact ⟨_, Relation.ReflTransGen.refl, .done⟩
  | case2 w hopened s rest hremaining ih =>
    obtain ⟨remaining, opened, finished, notes⟩ := w
    dsimp only at hopened hremaining
    subst hopened hremaining
    obtain ⟨w', hturns, hends⟩ := ih
    exact ⟨w', Relation.ReflTransGen.head .enter hturns, hends⟩
  | case3 w owner outer hopened ih =>
    obtain ⟨remaining, opened, finished, notes⟩ := w
    dsimp only at hopened
    subst hopened
    obtain ⟨w', hturns, hends⟩ := ih
    exact ⟨w', Relation.ReflTransGen.head .finish hturns, hends⟩
  | case4 w owner field element pending outer hopened =>
    obtain ⟨remaining, opened, finished, notes⟩ := w
    dsimp only at hopened
    subst hopened
    exact ⟨_, Relation.ReflTransGen.refl, .forbidden⟩
  | case5 w owner fault pending outer hopened =>
    obtain ⟨remaining, opened, finished, notes⟩ := w
    dsimp only at hopened
    subst hopened
    exact ⟨_, Relation.ReflTransGen.refl, .unusable⟩
  | case6 w owner field target pending outer hopened htake ih =>
    obtain ⟨remaining, opened, finished, notes⟩ := w
    dsimp only at hopened htake
    subst hopened
    obtain ⟨w', hturns, hends⟩ := ih
    exact ⟨w', Relation.ReflTransGen.head (.pass htake) hturns, hends⟩
  | case7 w owner field target pending outer hopened s rest htake ih =>
    obtain ⟨remaining, opened, finished, notes⟩ := w
    dsimp only at hopened htake
    subst hopened
    obtain ⟨w', hturns, hends⟩ := ih
    exact ⟨w', Relation.ReflTransGen.head (.descend htake) hturns, hends⟩

theorem exists_turns_of_run {w : Walk} {l : List StructDecl} (h : (run w).1 = .ok l) :
    ∃ w', Relation.ReflTransGen Turn w w' ∧ w'.remaining = [] ∧ w'.opened = [] ∧
      l = w'.finished.reverse := by
  obtain ⟨w', hturns, hends⟩ := exists_ends w
  rw [h] at hends
  cases hends
  exact ⟨_, hturns, rfl, rfl, rfl⟩

/-! ## 2.  What a walk remembers -/

/-- The structs of some frames. -/
def owners (frames : List OpenStruct) : List StructDecl := frames.map (·.owner)

/-- All structs of a walk: those that are left, open or finished. -/
def Walk.all (w : Walk) : List StructDecl := w.remaining ++ owners w.opened ++ w.finished

/-- **A turn loses no struct and adds none.** -/
theorem Turn.perm {w w' : Walk} (h : Turn w w') : w'.all.Perm w.all := by
  cases h with
  | enter => simp [Walk.all, owners]
  | finish =>
    simp only [Walk.all, owners, List.map_cons, List.append_assoc]
    exact List.perm_middle.append_left _
  | pass => exact List.Perm.refl _
  | descend htake =>
    obtain ⟨-, pre, post, rfl, rfl⟩ := take?_eq_some htake
    simp only [Walk.all, owners, List.map_cons, List.append_assoc, List.cons_append]
    exact List.perm_middle.append_left pre

theorem all_perm_of_turns {w w' : Walk} (h : Relation.ReflTransGen Turn w w') :
    w'.all.Perm w.all := by
  induction h with
  | refl => exact List.Perm.refl _
  | tail _ hturn ih => exact hturn.perm.trans ih

/-- Everything that the candidates lead to around others is finished. -/
def Exhausted (structs avoided finished cs : List StructDecl) : Prop :=
  ∀ c ∈ cs, ∀ x, LeadsAround structs avoided c x → x ∈ finished

/-- The frames below a struct led to it, each as soon as what it asked for before was
exhausted. -/
def Reached (structs finished : List StructDecl) : StructDecl → List OpenStruct → Prop
  | s, [] => ∃ pre post, structs = pre ++ s :: post ∧ Exhausted structs [] finished pre
  | s, o :: outer =>
    (∃ field settled, o.owner.demands = settled ++ .reference field s.name :: o.pending ∧
      Exhausted structs (owners (o :: outer)) finished (asked structs settled)) ∧
    Reached structs finished o.owner outer

/-- What holds of every walk that a run comes to. -/
structure Walk.Sound (structs : List StructDecl) (w : Walk) : Prop where
  /-- Every struct is left, open or finished. -/
  partition : w.all.Perm structs
  /-- What is left stands in its order. -/
  sublist : w.remaining.Sublist structs
  /-- A finished struct refers to nothing that is left. -/
  closed : ∀ a ∈ w.finished, ∀ b ∈ w.remaining, ¬ Refers structs a b
  /-- What the latest open struct has settled is exhausted, and it was reached that way. -/
  settled : ∀ o outer, w.opened = o :: outer →
    (∃ settled, o.owner.demands = settled ++ o.pending ∧
      Exhausted structs (owners w.opened) w.finished (asked structs settled)) ∧
    Reached structs w.finished o.owner outer
  /-- The open structs up to each of them are the first chain to it. -/
  chains : ∀ o outer, o :: outer <:+ w.opened →
    FirstChain structs o.owner (owners (o :: outer))
  /-- A finished struct stands behind what it refers to, but for what is on the first chain
  to it. -/
  ordered : ∀ later a earlier, w.finished = later ++ a :: earlier →
    ∃ below, FirstChain structs a (a :: below) ∧
      ∀ b, Refers structs a b → (b ∈ earlier ↔ b ∉ a :: below)

/-! ### Exhaustion -/

namespace Exhausted

variable {structs avoided finished cs cs' : List StructDecl}

theorem nil : Exhausted structs avoided finished [] := by
  intro c hc
  simp at hc

theorem mono {finished' : List StructDecl} (hsub : finished ⊆ finished')
    (h : Exhausted structs avoided finished cs) : Exhausted structs avoided finished' cs :=
  fun c hc x hx => hsub (h c hc x hx)

theorem append (h : Exhausted structs avoided finished cs)
    (h' : Exhausted structs avoided finished cs') :
    Exhausted structs avoided finished (cs ++ cs') := by
  intro c hc
  rcases List.mem_append.mp hc with hc | hc
  · exact h c hc
  · exact h' c hc

/-- Finished structs that lead only to finished ones, unless into what is avoided, are
exhausted. -/
theorem of_closed (hclosed : ∀ a ∈ finished, ∀ b, Refers structs a b → b ∉ avoided →
    b ∈ finished) : Exhausted structs avoided finished finished := by
  intro c hc x hx
  induction hx with
  | here => exact hc
  | step _ hr hrest ih => exact ih (hclosed _ hc _ hr hrest.start_not_mem)

end Exhausted

theorem Reached.mono {structs finished finished' : List StructDecl} (hsub : finished ⊆ finished') :
    ∀ {frames : List OpenStruct} {s : StructDecl},
      Reached structs finished s frames → Reached structs finished' s frames
  | [], _, ⟨pre, post, heq, hex⟩ => ⟨pre, post, heq, hex.mono hsub⟩
  | _ :: _, _, ⟨⟨field, settled, heq, hex⟩, h⟩ =>
    ⟨⟨field, settled, heq, hex.mono hsub⟩, h.mono hsub⟩

/-! ### Looking structs up by name -/

section Names

variable {structs : List StructDecl} (hnames : (structs.map StructDecl.name).Nodup)
include hnames

theorem eq_of_name_eq {a b : StructDecl} (ha : a ∈ structs) (hb : b ∈ structs)
    (h : a.name = b.name) : a = b :=
  List.inj_on_of_nodup_map hnames ha hb h

theorem find?_name {s : StructDecl} (hs : s ∈ structs) :
    structs.find? (fun u => u.name = s.name) = some s := by
  obtain ⟨u, hu⟩ : ∃ u, structs.find? (fun u => u.name = s.name) = some u :=
    Option.isSome_iff_exists.mp (List.find?_isSome.mpr ⟨s, hs, by simp⟩)
  have hname : u.name = s.name := by simpa using List.find?_some hu
  rw [hu, eq_of_name_eq hnames (List.mem_of_find?_eq_some hu) hs hname]

theorem mem_asked_of_refers {a b : StructDecl} (h : Refers structs a b) :
    b ∈ asked structs a.demands := by
  obtain ⟨-, hb, href⟩ := h
  obtain ⟨field, hfield⟩ := StructDecl.refersTo_iff.mp href
  exact List.mem_filterMap.mpr ⟨_, hfield, find?_name hnames hb⟩

end Names

theorem asked_append (structs : List StructDecl) (ds ds' : List Demand) :
    asked structs (ds ++ ds') = asked structs ds ++ asked structs ds' :=
  List.filterMap_append

theorem asked_reference_cons {structs : List StructDecl} {field target : String}
    {ds : List Demand} {s : StructDecl}
    (h : structs.find? (fun u => u.name = target) = some s) :
    asked structs (.reference field target :: ds) = s :: asked structs ds := by
  simp only [asked, List.filterMap_cons, h]

/-- **The frames that led to a struct are a beginning of the first chain** to whatever it leads
to around them, as long as that is not finished. -/
theorem Reached.firstChain {structs finished : List StructDecl}
    (hnames : (structs.map StructDecl.name).Nodup) {t : StructDecl} (ht : t ∉ finished) :
    ∀ {frames : List OpenStruct} {s : StructDecl}, Reached structs finished s frames →
      s :: owners frames ⊆ structs → (s :: owners frames).Nodup →
      LeadsAround structs (owners frames) s t → FirstChain structs t (s :: owners frames)
  | [], s, ⟨pre, post, heq, hex⟩, _, _, hleads =>
    ⟨⟨pre, post, heq, hleads, fun c hc hct => ht (hex c hc t hct)⟩, trivial⟩
  | o :: outer, s, ⟨⟨field, settled, hdemands, hex⟩, hreached⟩, hsub, hnodup, hleads => by
    have hs : s ∈ structs := hsub List.mem_cons_self
    have howner : o.owner ∈ structs := hsub (List.mem_cons_of_mem _ List.mem_cons_self)
    have hnodup' : (o.owner :: owners outer).Nodup := (List.nodup_cons.mp hnodup).2
    have hrefers : Refers structs o.owner s :=
      ⟨howner, hs, StructDecl.refersTo_iff.mpr ⟨field, by simp [hdemands]⟩⟩
    have hcandidates : candidates structs (owners (o :: outer)) =
        asked structs settled ++ s :: asked structs o.pending := by
      show asked structs o.owner.demands = _
      rw [hdemands, asked_append, asked_reference_cons (find?_name hnames hs)]
    have hbelow : LeadsAround structs (owners outer) o.owner t :=
      .step (List.nodup_cons.mp hnodup').1 hrefers
        (hleads.mono (List.subset_cons_self o.owner (owners outer)))
    refine ⟨⟨_, _, hcandidates, hleads, fun c hc hct => ht (hex c hc t hct)⟩, ?_⟩
    exact hreached.firstChain hnames ht (fun x hx => hsub (List.mem_cons_of_mem _ hx)) hnodup'
      hbelow

/-! ## 3.  Every turn keeps a walk sound -/

namespace Walk.Sound

variable {structs : List StructDecl} {w : Walk}

theorem nodup (hnames : (structs.map StructDecl.name).Nodup) (h : w.Sound structs) :
    (w.remaining ++ owners w.opened ++ w.finished).Nodup :=
  h.partition.nodup_iff.mpr hnames.of_map

theorem mem_finished (h : w.Sound structs) {x : StructDecl} (hx : x ∈ structs)
    (hremaining : x ∉ w.remaining) (hopened : x ∉ owners w.opened) : x ∈ w.finished := by
  have := h.partition.mem_iff.mpr hx
  simp only [Walk.all, List.mem_append] at this
  tauto

theorem mem_structs_of_opened (h : w.Sound structs) {x : StructDecl} (hx : x ∈ owners w.opened) :
    x ∈ structs :=
  h.partition.subset (by simp [Walk.all, hx])

/-- Around what is open, finished structs lead only to finished ones. -/
theorem exhausted (h : w.Sound structs) :
    Exhausted structs (owners w.opened) w.finished w.finished :=
  .of_closed fun a ha b hr hb => h.mem_finished hr.2.1 (fun hrem => h.closed a ha b hrem hr) hb

/-- The chains to the open structs do not depend on what the latest still asks for. -/
theorem chains_of_pending (h : w.Sound structs) {owner : StructDecl}
    {pending pending' : List Demand} {outer : List OpenStruct}
    (hopened : w.opened = ⟨owner, pending⟩ :: outer) :
    ∀ o outer', o :: outer' <:+ ⟨owner, pending'⟩ :: outer →
      FirstChain structs o.owner (owners (o :: outer')) := by
  intro o outer' hsuf
  rcases List.suffix_cons_iff.mp hsuf with heq | hsuf
  · obtain ⟨rfl, rfl⟩ := List.cons.inj heq
    exact h.chains ⟨owner, pending⟩ outer' (by rw [hopened])
  · exact h.chains o outer' (hopened ▸ hsuf.trans (List.suffix_cons _ _))

theorem start (structs : List StructDecl) : Walk.Sound structs ⟨structs, [], [], []⟩ where
  partition := by simp [Walk.all, owners]
  sublist := List.Sublist.refl _
  closed := by simp
  settled := by simp
  chains := by simp
  ordered := by simp

/-- Entering a struct when nothing is open.  Those before it by name are finished, or else one
of them would have been taken. -/
theorem enter (hnames : (structs.map StructDecl.name).Nodup) {s : StructDecl}
    {rest finished : List StructDecl} {notes notes' : List Entry}
    (h : Walk.Sound structs ⟨s :: rest, [], finished, notes⟩) :
    Walk.Sound structs ⟨rest, [⟨s, s.demands⟩], finished, notes'⟩ := by
  have hnodup := h.nodup hnames
  simp only [owners, List.map_nil, List.append_nil] at hnodup
  have hs : s ∈ structs := h.sublist.subset List.mem_cons_self
  have hnotFinished : s ∉ finished := fun hf =>
    (List.nodup_append.mp hnodup).2.2 s List.mem_cons_self s hf rfl
  obtain ⟨pre, post, hstructs, hpre⟩ : ∃ pre post, structs = pre ++ s :: post ∧
      ∀ c ∈ pre, c ∉ s :: rest := by
    obtain ⟨front, back, rfl, hfront, hback⟩ := List.cons_sublist_iff.mp h.sublist
    obtain ⟨pre, mid, rfl⟩ := List.append_of_mem hfront
    refine ⟨pre, mid ++ back, by simp, fun c hc hrest => ?_⟩
    have hdisjoint := (List.nodup_append.mp hnames.of_map).2.2
    rcases List.mem_cons.mp hrest with rfl | hrest
    · have := (List.nodup_append.mp (List.nodup_append.mp hnames.of_map).1).2.2
      exact this c hc c List.mem_cons_self rfl
    · exact hdisjoint c (by simp [hc]) c (hback.subset hrest) rfl
  have hreached : Reached structs finished s [] := by
    refine ⟨pre, post, hstructs, fun c hc => ?_⟩
    exact h.exhausted c (h.mem_finished (by simp [hstructs, hc]) (hpre c hc) (by simp [owners]))
  refine ⟨?_, (List.sublist_cons_self s rest).trans h.sublist, ?_, ?_, ?_, h.ordered⟩
  · have hturn : Turn ⟨s :: rest, [], finished, notes⟩ _ := .enter
    exact hturn.perm.trans h.partition
  · exact fun a ha b hb => h.closed a ha b (List.mem_cons_of_mem s hb)
  · intro o outer heq
    obtain ⟨rfl, rfl⟩ := List.cons.inj heq
    exact ⟨⟨[], rfl, .nil⟩, hreached⟩
  · intro o outer hsuf
    rcases List.suffix_cons_iff.mp hsuf with heq | hsuf
    · obtain ⟨rfl, rfl⟩ := List.cons.inj heq
      exact hreached.firstChain hnames hnotFinished (by simpa [owners] using hs) (by simp [owners])
        (.here (by simp [owners]))
    · simp at hsuf

/-- Finishing a struct.  Whatever it refers to was entered before, so around the structs that
stay open it leads only to finished ones, and the demand that led to it is settled. -/
theorem finish (hnames : (structs.map StructDecl.name).Nodup) {owner : StructDecl}
    {remaining finished : List StructDecl} {outer : List OpenStruct} {notes : List Entry}
    (h : Walk.Sound structs ⟨remaining, ⟨owner, []⟩ :: outer, finished, notes⟩) :
    Walk.Sound structs ⟨remaining, outer, owner :: finished, notes⟩ := by
  have hnodup := h.nodup hnames
  obtain ⟨⟨settled, hdemands, hsettled⟩, hreached⟩ := h.settled _ _ rfl
  rw [List.append_nil] at hdemands
  have hentered : ∀ b, Refers structs owner b → b ∉ owner :: owners outer → b ∈ finished :=
    fun b hr hb => hsettled b (hdemands ▸ mem_asked_of_refers hnames hr) b (.here hb)
  have hclosed : ∀ a ∈ owner :: finished, ∀ b, Refers structs a b → b ∉ owners outer →
      b ∈ owner :: finished := by
    intro a ha b hr hb
    by_cases hbo : b = owner
    · exact hbo ▸ List.mem_cons_self
    · have hopened : b ∉ owner :: owners outer := by simp [hbo, hb]
      refine List.mem_cons_of_mem _ ?_
      rcases List.mem_cons.mp ha with rfl | ha
      · exact hentered b hr hopened
      · exact h.mem_finished hr.2.1 (fun hrem => h.closed a ha b hrem hr) hopened
  have hfinished : ∀ b ∈ finished, b ∉ owner :: owners outer := fun b hb hopened =>
    (List.nodup_append.mp hnodup).2.2 b (List.mem_append_right _ hopened) b hb rfl
  refine ⟨?_, h.sublist, ?_, ?_, ?_, ?_⟩
  · have hturn : Turn ⟨remaining, ⟨owner, []⟩ :: outer, finished, notes⟩ _ := .finish
    exact hturn.perm.trans h.partition
  · intro a ha b hb hr
    rcases List.mem_cons.mp ha with rfl | ha
    · have hrem : b ∉ a :: owners outer := fun hopened =>
        (List.nodup_append.mp (List.nodup_append.mp hnodup).1).2.2 b hb b hopened rfl
      exact (List.nodup_append.mp hnodup).2.2 b (List.mem_append_left _ hb) b
        (hentered b hr hrem) rfl
    · exact h.closed a ha b hb hr
  · rintro o outer' rfl
    obtain ⟨⟨field, before, hdemands', hbefore⟩, hreached'⟩ := hreached
    have howner : owner ∈ structs := h.mem_structs_of_opened List.mem_cons_self
    refine ⟨⟨before ++ [.reference field owner.name], by simp [hdemands'], ?_⟩,
      hreached'.mono (List.subset_cons_self owner finished)⟩
    rw [asked_append, asked_reference_cons (find?_name hnames howner)]
    refine (hbefore.mono (List.subset_cons_self owner finished)).append fun c hc => ?_
    obtain rfl : c = owner := by simpa [asked] using hc
    exact Exhausted.of_closed hclosed c List.mem_cons_self
  · exact fun o outer' hsuf => h.chains o outer' (hsuf.trans (List.suffix_cons _ _))
  · rintro (_ | ⟨a', later⟩) a earlier heq
    · obtain ⟨rfl, rfl⟩ := List.cons.inj heq
      exact ⟨owners outer, h.chains _ _ (List.suffix_refl _),
        fun b hr => ⟨hfinished b, hentered b hr⟩⟩
    · exact h.ordered later a earlier (List.cons.inj heq).2

/-- Passing a demand over.  Its target is no struct of the header, or open, or finished; only
the last can be led to around the open ones, and then it is exhausted. -/
theorem pass {owner : StructDecl} {field target : String} {pending : List Demand}
    {remaining finished : List StructDecl} {outer : List OpenStruct} {notes : List Entry}
    (htake : take? target remaining = none)
    (h : Walk.Sound structs
      ⟨remaining, ⟨owner, .reference field target :: pending⟩ :: outer, finished, notes⟩) :
    Walk.Sound structs ⟨remaining, ⟨owner, pending⟩ :: outer, finished, notes⟩ := by
  refine ⟨h.partition, h.sublist, h.closed, ?_, h.chains_of_pending rfl, h.ordered⟩
  intro o outer' heq
  obtain ⟨rfl, rfl⟩ := List.cons.inj heq
  obtain ⟨⟨settled, hdemands, hsettled⟩, hreached⟩ := h.settled _ _ rfl
  refine ⟨⟨settled ++ [.reference field target], by simpa using hdemands, ?_⟩, hreached⟩
  rw [asked_append]
  refine hsettled.append fun c hc x hx => ?_
  have hfind : structs.find? (fun u => u.name = target) = some c := by simpa [asked] using hc
  have hname : c.name = target := by simpa using List.find?_some hfind
  have hfinished : c ∈ finished := h.mem_finished (List.mem_of_find?_eq_some hfind)
    (fun hrem => take?_eq_none htake c hrem hname) hx.start_not_mem
  exact h.exhausted c hfinished x hx

/-- Entering a struct that is asked for.  The frames below have just led to it. -/
theorem descend (hnames : (structs.map StructDecl.name).Nodup) {owner s : StructDecl}
    {field target : String} {pending : List Demand} {remaining rest finished : List StructDecl}
    {outer : List OpenStruct} {notes notes' : List Entry}
    (htake : take? target remaining = some (s, rest))
    (h : Walk.Sound structs
      ⟨remaining, ⟨owner, .reference field target :: pending⟩ :: outer, finished, notes⟩) :
    Walk.Sound structs
      ⟨rest, ⟨s, s.demands⟩ :: ⟨owner, pending⟩ :: outer, finished, notes'⟩ := by
  have hturn : Turn ⟨remaining, ⟨owner, .reference field target :: pending⟩ :: outer, finished,
    notes⟩ _ := .descend htake
  have hpartition : (rest ++ (s :: owner :: owners outer) ++ finished).Perm structs :=
    hturn.perm.trans h.partition
  obtain ⟨rfl, pre, post, rfl, rfl⟩ := take?_eq_some htake
  obtain ⟨⟨settled, hdemands, hsettled⟩, hreached⟩ := h.settled _ _ rfl
  have hreached' : Reached structs finished s (⟨owner, pending⟩ :: outer) :=
    ⟨⟨field, settled, hdemands, hsettled⟩, hreached⟩
  have hnodup := hpartition.nodup_iff.mpr hnames.of_map
  have hfresh : s ∉ finished := fun hf =>
    (List.nodup_append.mp hnodup).2.2 s (by simp) s hf rfl
  have hopened : (s :: owner :: owners outer).Nodup :=
    (List.nodup_append.mp (List.nodup_append.mp hnodup).1).2.1
  refine ⟨hpartition, ?_, ?_, ?_, ?_, h.ordered⟩
  · exact ((List.sublist_cons_self s post).append_left pre).trans h.sublist
  · intro a ha b hb
    refine h.closed a ha b ?_
    rcases List.mem_append.mp hb with hb | hb <;> simp [hb]
  · intro o outer' heq
    obtain ⟨rfl, rfl⟩ := List.cons.inj heq
    exact ⟨⟨[], rfl, .nil⟩, hreached'⟩
  · intro o outer' hsuf
    rcases List.suffix_cons_iff.mp hsuf with heq | hsuf
    · obtain ⟨rfl, rfl⟩ := List.cons.inj heq
      exact hreached'.firstChain hnames hfresh
        (fun x hx => hpartition.subset (List.mem_append_left _ (List.mem_append_right _ hx)))
        hopened (.here (List.nodup_cons.mp hopened).1)
    · exact h.chains_of_pending rfl o outer' hsuf

/-- **One turn keeps a walk sound.** -/
theorem turn (hnames : (structs.map StructDecl.name).Nodup) {w' : Walk}
    (h : w.Sound structs) (hturn : Turn w w') : w'.Sound structs := by
  cases hturn with
  | enter => exact h.enter hnames
  | finish => exact h.finish hnames
  | pass htake => exact h.pass htake
  | descend htake => exact h.descend hnames htake

/-- **A whole run keeps a walk sound.** -/
theorem turns (hnames : (structs.map StructDecl.name).Nodup) {w' : Walk}
    (h : w.Sound structs) (hturns : Relation.ReflTransGen Turn w w') : w'.Sound structs := by
  induction hturns with
  | refl => exact h
  | tail _ hturn ih => exact ih.turn hnames hturn

end Walk.Sound

end StructOrder

end ComHeaders
