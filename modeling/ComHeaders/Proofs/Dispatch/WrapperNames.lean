import ComHeaders.Proofs.Dispatch.Slots
import ComHeaders.Proofs.Tables
import ComHeaders.Sections
import Mathlib.Data.List.Nodup
import Mathlib.Data.List.Perm.Subperm

/-!
# The names of wrappers

All wrappers of a header are functions of one C file, and C knows no overloading: two wrappers of
one name are a redefinition, and the header does not compile.  This file says how far that is
excluded.

## 1.  New names

A member whose name is taken gets a number behind its name.  The numbered name can be that of
another method, so the number has to be searched for.  The search ends because there are more
numbers to try than names that are taken (`exists_free`), and it ends at a new name
(`freshName_not_mem`).

## 2.  One interface

`memberNames` are the names of the members of a table.  The wrappers of an interface bear them
behind the name of the interface (`renderFrom_wrapperNames`), and none is repeated
(`memberNames_nodup`).

## 3.  Two interfaces

The name of an interface and that of a member are put together with an underscore, and both may
have underscores of their own.  So wrappers of different interfaces can have the same name, but
only if the name of one interface continues that of the other (`continues_of_append_eq`).

## 4.  All interfaces of a header

`methods_wrapperNames` is the result.
-/

namespace ComHeaders

namespace Wrapper

variable {n : Naming} {style : WrapperStyle} {s s' : Session}

/-! ## 1.  New names -/

theorem toString_nat_injective : Function.Injective fun (k : Nat) => toString k := by
  intro k l hkl
  have hdigits : Nat.toDigits 10 k = Nat.toDigits 10 l := by
    simpa only [Nat.toString_eq_ofList_toDigits, String.ofList_inj] using hkl
  rw [← Nat.ofDigitChars_ten_toDigits (n := k), hdigits, Nat.ofDigitChars_ten_toDigits]

/-- **There is always a free number.**  The numbers up to one more than there are names give
different names, so not all of these can be taken. -/
theorem exists_free (taken : List String) (name : String) :
    ∃ k ∈ List.range (taken.length + 1), name ++ toString (k + 1) ∉ taken := by
  by_contra hall
  have htaken : ∀ k ∈ List.range (taken.length + 1), name ++ toString (k + 1) ∈ taken := by
    intro k hk
    by_contra hfree
    exact hall ⟨k, hk, hfree⟩
  have hdistinct : ((List.range (taken.length + 1)).map fun (k : Nat) =>
      name ++ toString (k + 1)).Nodup := by
    refine List.nodup_range.map fun k l hkl => ?_
    have hnumber : toString (k + 1) = toString (l + 1) := (String.append_right_inj name).1 hkl
    exact Nat.succ_injective (toString_nat_injective hnumber)
  have hsubset : ((List.range (taken.length + 1)).map fun (k : Nat) =>
      name ++ toString (k + 1)) ⊆ taken := by
    intro candidate hcandidate
    obtain ⟨k, hk, rfl⟩ := List.mem_map.1 hcandidate
    exact htaken k hk
  have hlength := (hdistinct.subperm hsubset).length_le
  rw [List.length_map, List.length_range] at hlength
  omega

/-- A fresh name is not taken. -/
theorem freshName_not_mem (taken : List String) (name : String) :
    freshName taken name ∉ taken := by
  rw [freshName]
  split
  · obtain ⟨k, hk, hfree⟩ := exists_free taken name
    split
    · rename_i l hl
      have hnew := List.find?_some hl
      simpa using hnew
    · rename_i hnone
      have hall := List.find?_eq_none.1 hnone k hk
      rw [Bool.not_eq_true', Bool.not_eq_false, List.contains_iff_mem] at hall
      exact absurd hall hfree
  · rename_i hnew
    simpa using hnew

/-! ## 2.  One interface -/

/-- The names of the members of a table, when some names are taken. -/
def memberNames (taken : List String) : List (String × MethodDecl) → List String
  | [] => []
  | (_, m) :: rest =>
    freshName taken m.name :: memberNames (freshName taken m.name :: taken) rest

theorem not_mem_of_mem_memberNames {taken : List String} {es : List (String × MethodDecl)}
    {member : String} (h : member ∈ memberNames taken es) : member ∉ taken := by
  induction es generalizing taken with
  | nil => cases h
  | cons e es ih =>
    rcases List.mem_cons.1 h with rfl | hrest
    · exact freshName_not_mem taken e.2.name
    · exact fun htaken => ih hrest (List.mem_cons_of_mem _ htaken)

/-- **No name is given to two members.** -/
theorem memberNames_nodup (taken : List String) (es : List (String × MethodDecl)) :
    (memberNames taken es).Nodup := by
  induction es generalizing taken with
  | nil => exact List.nodup_nil
  | cons e es ih =>
    rw [memberNames, List.nodup_cons]
    -- The first name is among those that are taken when the others are given.
    have hfirst : freshName taken e.2.name ∉
        memberNames (freshName taken e.2.name :: taken) es := by
      intro hagain
      exact not_mem_of_mem_memberNames hagain List.mem_cons_self
    exact ⟨hfirst, ih _⟩

/-- The wrappers of a table bear the names of its members behind that of the receiver. -/
theorem renderFrom_wrapperNames {receiver : String} {slot : Nat} {taken : List String}
    {es : List (String × MethodDecl)} {ws : List Wrapper}
    (h : (renderFrom n style receiver slot taken es).perform s = (.ok ws, s')) :
    ws.map (·.wrapperName) = (memberNames taken es).map fun member =>
      receiver ++ "_" ++ member := by
  induction es generalizing slot taken s ws with
  | nil =>
    obtain ⟨rfl, -⟩ : [] = ws ∧ s = s' := by simpa [renderFrom] using h
    rfl
  | cons e es ih =>
    obtain ⟨j, hj⟩ := renderFrom_cons n receiver slot taken e s
    obtain ⟨lines, u, more, -, hmore, rfl⟩ := cons_ok.1 ((hj style es).symm.trans h)
    rw [memberNames, List.map_cons, List.map_cons, ih hmore]

/-- The wrappers of an interface bear its name in front of names of which none is repeated. -/
theorem ofInterface_wrapperNames {i : InterfaceDecl} {ws : List Wrapper}
    (h : (ofInterface n style i).perform s = (.ok ws, s')) :
    ∃ members : List String, members.Nodup ∧
      ws.map (·.wrapperName) = members.map fun member => i.name ++ "_" ++ member := by
  obtain ⟨is, t, u, -, hrender, -⟩ := ofInterface_ok.1 h
  exact ⟨memberNames [] (table is), memberNames_nodup [] (table is),
    renderFrom_wrapperNames hrender⟩

/-- So each of them bears the name of the interface in front of some name. -/
theorem exists_member {ws : List Wrapper} {receiver : String}
    (h : ∃ members : List String, members.Nodup ∧
      ws.map (·.wrapperName) = members.map fun member => receiver ++ "_" ++ member)
    {w : Wrapper} (hw : w ∈ ws) : ∃ member, w.wrapperName = receiver ++ "_" ++ member := by
  obtain ⟨members, -, heq⟩ := h
  have hmem : w.wrapperName ∈ members.map fun member => receiver ++ "_" ++ member :=
    heq ▸ List.mem_map_of_mem hw
  obtain ⟨member, -, hmember⟩ := List.mem_map.1 hmem
  exact ⟨member, hmember.symm⟩

/-! ## 3.  Two interfaces -/

/-- One name begins with another one and an underscore behind it. -/
def Continues (longer shorter : String) : Prop :=
  (shorter ++ "_").toList <+: longer.toList

/-- **Where the names of wrappers meet.**  The shorter of two receivers ends inside the longer one,
and the underscore that follows it is there as well. -/
theorem continues_of_append_eq {r r' member member' : String}
    (h : r ++ "_" ++ member = r' ++ "_" ++ member') (hlt : r.length < r'.length) :
    Continues r' r := by
  have hchars : (r ++ "_").toList ++ member.toList =
      r'.toList ++ ("_".toList ++ member'.toList) := by
    have := congrArg String.toList h
    simpa only [String.toList_append, List.append_assoc] using this
  have hshorter : (r ++ "_").toList <+: r'.toList ++ ("_".toList ++ member'.toList) :=
    ⟨member.toList, hchars⟩
  refine List.prefix_of_prefix_length_le hshorter (List.prefix_append _ _) ?_
  rw [String.length_toList, String.length_toList, String.length_append]
  show r.length + 1 ≤ r'.length
  omega

/-- Receivers of different names share the name of a wrapper only if one continues the other. -/
theorem continues_or_of_append_eq {r r' member member' : String}
    (h : r ++ "_" ++ member = r' ++ "_" ++ member') (hne : r ≠ r') :
    Continues r' r ∨ Continues r r' := by
  rcases Nat.lt_trichotomy r.length r'.length with hlt | hlength | hlt
  · exact .inl (continues_of_append_eq h hlt)
  · -- Receivers of one length that stand in front of one text are the same.
    have hchars := congrArg String.toList h
    simp only [String.toList_append, List.append_assoc] at hchars
    have hsame := (List.append_inj hchars (by simpa only [String.length_toList] using hlength)).1
    exact absurd (String.toList_inj.1 hsame) hne
  · exact .inr (continues_of_append_eq h.symm hlt)

end Wrapper

/-! ## 4.  All interfaces of a header -/

namespace Pass

variable {α β γ : Type} {s s' : Session}

/-- What is made of each result of a sequence can be made in the end. -/
theorem perform_mapM_map_ok {f : α → Pass β} {g : β → γ} {l : List α} {cs : List γ} :
    (l.mapM fun a => do return g (← f a)).perform s = (.ok cs, s') ↔
      ∃ bs, (l.mapM f).perform s = (.ok bs, s') ∧ cs = bs.map g := by
  induction l generalizing s cs with
  | nil =>
    rw [List.mapM_nil, List.mapM_nil]
    simp only [perform_pure, Prod.mk.injEq, Except.ok.injEq]
    constructor
    · rintro ⟨rfl, rfl⟩
      exact ⟨[], ⟨rfl, rfl⟩, rfl⟩
    · rintro ⟨bs, ⟨rfl, rfl⟩, rfl⟩
      exact ⟨rfl, rfl⟩
  | cons a l ih =>
    rw [List.mapM_cons, List.mapM_cons]
    constructor
    · intro h
      obtain ⟨c, t, hc, h₁⟩ := perform_bind_ok.1 h
      obtain ⟨b, t', hb, h₂⟩ := perform_bind_ok.1 hc
      obtain ⟨cs', u, hcs', h₃⟩ := perform_bind_ok.1 h₁
      simp only [perform_pure, Prod.mk.injEq, Except.ok.injEq] at h₂ h₃
      obtain ⟨rfl, rfl⟩ := h₂
      obtain ⟨rfl, rfl⟩ := h₃
      obtain ⟨bs, hbs, rfl⟩ := ih.1 hcs'
      exact ⟨b :: bs, perform_bind_ok.2 ⟨b, t', hb, perform_bind_ok.2 ⟨bs, u, hbs, rfl⟩⟩, rfl⟩
    · rintro ⟨bs, h, rfl⟩
      obtain ⟨b, t, hb, h₁⟩ := perform_bind_ok.1 h
      obtain ⟨bs', u, hbs', h₂⟩ := perform_bind_ok.1 h₁
      simp only [perform_pure, Prod.mk.injEq, Except.ok.injEq] at h₂
      obtain ⟨rfl, rfl⟩ := h₂
      exact perform_bind_ok.2 ⟨g b, t, perform_bind_ok.2 ⟨b, t, hb, rfl⟩,
        perform_bind_ok.2 ⟨bs'.map g, u, ih.2 ⟨bs', hbs', rfl⟩, rfl⟩⟩

theorem forall₂_of_perform_mapM {f : α → Pass β} {l : List α} {bs : List β}
    (h : (l.mapM f).perform s = (.ok bs, s')) :
    List.Forall₂ (fun a b => ∃ t t', (f a).perform t = (.ok b, t')) l bs :=
  (forall₂_of_mapM (I := fun _ => True) (fun _ _ _ _ _ _ hb => ⟨⟨_, _, hb⟩, trivial⟩) trivial h).1

end Pass

namespace Section

variable {n : Naming} {settings : Settings} {ds : Declarations} {s s' : Session}

/-- The section of wrappers is that of all interfaces in the order of their names. -/
theorem methods_ok {lines : List String} :
    (methods n settings ds).perform s = (.ok lines, s') ↔
      ∃ wss, (ds.interfaces.sorted.values.mapM
          (Wrapper.ofInterface n (wrapperStyle settings))).perform s = (.ok wss, s') ∧
        lines = ["", "// methods"] ++
          (wss.map fun ws => "" :: ws.flatMap fun w => w.lines).flatten := by
  rw [Table.values, List.mapM_map]
  constructor
  · intro h
    obtain ⟨groups, t, hgroups, h₁⟩ := Pass.perform_bind_ok.1 h
    obtain ⟨wss, hwss, rfl⟩ := Pass.perform_mapM_map_ok.1 hgroups
    simp only [Pass.perform_pure, Prod.mk.injEq, Except.ok.injEq] at h₁
    obtain ⟨rfl, rfl⟩ := h₁
    exact ⟨wss, hwss, rfl⟩
  · rintro ⟨wss, hwss, rfl⟩
    exact Pass.perform_bind_ok.2 ⟨_, s', Pass.perform_mapM_map_ok.2 ⟨wss, hwss, rfl⟩, rfl⟩

/-- **The names of the wrappers of a header.**  Suppose that the section of wrappers is written, for
interfaces that are kept under their names.  Its lines are those of the wrappers of each interface,
in the order of the interfaces' names.

No two wrappers of one interface have the same name.  Two wrappers of different interfaces have the
same name only if the name of one of the interfaces begins with that of the other and an
underscore. -/
theorem methods_wrapperNames {lines : List String}
    (hkeyed : ds.interfaces.KeyedBy InterfaceDecl.name)
    (h : (methods n settings ds).perform s = (.ok lines, s')) :
    ∃ emitted : List (InterfaceDecl × List Wrapper),
      emitted.map (·.1) = ds.interfaces.sorted.values ∧
      (ds.interfaces.sorted.values.mapM
        (Wrapper.ofInterface n (wrapperStyle settings))).perform s =
          (.ok (emitted.map (·.2)), s') ∧
      lines = ["", "// methods"] ++ emitted.flatMap (fun e => "" :: e.2.flatMap (·.lines)) ∧
      (∀ e ∈ emitted, (e.2.map (·.wrapperName)).Nodup) ∧
      emitted.Pairwise fun e e' => ∀ w ∈ e.2, ∀ w' ∈ e'.2, w.wrapperName = w'.wrapperName →
        Wrapper.Continues e'.1.name e.1.name ∨ Wrapper.Continues e.1.name e'.1.name := by
  obtain ⟨wss, hwss, rfl⟩ := methods_ok.1 h
  have heach := Pass.forall₂_of_perform_mapM hwss
  have hlength := heach.length_eq
  have hinterfaces : (ds.interfaces.sorted.values.zip wss).map (·.1) =
      ds.interfaces.sorted.values := List.map_fst_zip hlength.le
  have hwrappers : (ds.interfaces.sorted.values.zip wss).map (·.2) = wss :=
    List.map_snd_zip hlength.ge
  have hnames : ∀ e ∈ ds.interfaces.sorted.values.zip wss, ∃ members : List String,
      members.Nodup ∧ e.2.map (·.wrapperName) = members.map fun member =>
        e.1.name ++ "_" ++ member := by
    intro e he
    obtain ⟨t, t', hmade⟩ := (List.forall₂_iff_zip.1 heach).2 he
    exact Wrapper.ofInterface_wrapperNames hmade
  have hdistinct : (ds.interfaces.sorted.values.zip wss).Pairwise fun e e' =>
      e.1.name ≠ e'.1.name := by
    have hnodup := hkeyed.nodup_sorted
    rw [← hinterfaces, List.map_map, List.nodup_iff_pairwise_ne, List.pairwise_map] at hnodup
    exact hnodup
  refine ⟨ds.interfaces.sorted.values.zip wss, hinterfaces, ?_, ?_, ?_, ?_⟩
  · rw [hwrappers]
    exact hwss
  · have hlines : wss.flatMap (fun ws => "" :: ws.flatMap fun w => w.lines) =
        (ds.interfaces.sorted.values.zip wss).flatMap fun e =>
          "" :: e.2.flatMap fun w => w.lines := by
      conv_lhs => rw [← hwrappers, List.flatMap_map]
    rw [← List.flatMap_def, hlines]
  · intro e he
    obtain ⟨members, hmembers, heq⟩ := hnames e he
    rw [heq]
    exact hmembers.map fun member member' h => (String.append_right_inj _).1 h
  · refine hdistinct.imp_of_mem fun {e e'} he he' hne w hw w' hw' hsame => ?_
    obtain ⟨member, hmember⟩ := Wrapper.exists_member (hnames e he) hw
    obtain ⟨member', hmember'⟩ := Wrapper.exists_member (hnames e' he') hw'
    rw [hmember, hmember'] at hsame
    exact Wrapper.continues_or_of_append_eq hsame hne

/-- An interface whose member has an underscore in its name, and one whose own name has it. -/
def roundShapes : Declarations where
  namespaceName := "Shapes"
  interfaces := [
    ("IShape", {
      name := "IShape"
      fullName := "Shapes.IShape"
      methods := ["Draw", "Draw1", "Draw", "Round_Draw"].map fun m => ⟨m, .void, [], none⟩
      base := none
      guid := none }),
    ("IShape_Round", {
      name := "IShape_Round"
      fullName := "Shapes.IShape_Round"
      methods := [⟨"Draw", .void, [], none⟩]
      base := none
      guid := none })]

theorem roundShapes_emitted :
    (((roundShapes.interfaces.sorted.values.mapM (Wrapper.ofInterface ⟨.ofList [], []⟩
        (wrapperStyle {}))).perform {}).1.toOption.map fun wss => wss.map fun ws =>
          ws.map fun w => w.wrapperName) =
      some [["IShape_Draw", "IShape_Draw1", "IShape_Draw2", "IShape_Round_Draw"],
        ["IShape_Round_Draw"]] := by
  have hsorted : roundShapes.interfaces.sorted = roundShapes.interfaces :=
    List.mergeSort_of_pairwise (by decide)
  rw [hsorted]
  decide +kernel

/-- Within each of the two interfaces all names are different, although the first number that was
tried for a member was taken.  Between them a name is repeated, since one interface continues the
other. -/
theorem roundShapes_wrapperNames :
    roundShapes.interfaces.KeyedBy InterfaceDecl.name ∧
      ∃ lines s', (methods ⟨.ofList [], []⟩ {} roundShapes).perform {} = (.ok lines, s') ∧
        ∃ emitted : List (InterfaceDecl × List Wrapper),
          (emitted.map fun e => e.2.map fun w => w.wrapperName) =
            [["IShape_Draw", "IShape_Draw1", "IShape_Draw2", "IShape_Round_Draw"],
              ["IShape_Round_Draw"]] ∧
          (∀ e ∈ emitted, (e.2.map (·.wrapperName)).Nodup) ∧
          emitted.Pairwise fun e e' => ∀ w ∈ e.2, ∀ w' ∈ e'.2, w.wrapperName = w'.wrapperName →
            Wrapper.Continues e'.1.name e.1.name ∨ Wrapper.Continues e.1.name e'.1.name := by
  have hkeyed : roundShapes.interfaces.KeyedBy InterfaceDecl.name := ⟨by decide, by decide⟩
  have hemitted := roundShapes_emitted
  rcases hmade : (roundShapes.interfaces.sorted.values.mapM (Wrapper.ofInterface ⟨.ofList [], []⟩
    (wrapperStyle {}))).perform {} with ⟨e | wss, s'⟩
  · rw [hmade] at hemitted
    cases hemitted
  · have hlines := methods_ok.2 ⟨wss, hmade, rfl⟩
    obtain ⟨emitted, -, hagain, -, hnodup, hpairwise⟩ := methods_wrapperNames hkeyed hlines
    rw [hagain] at hemitted
    have hnames : (emitted.map (·.2)).map (fun ws => ws.map fun w => w.wrapperName) = _ :=
      Option.some.inj hemitted
    rw [List.map_map] at hnames
    exact ⟨hkeyed, _, s', hlines, emitted, hnames, hnodup, hpairwise⟩

end Section

end ComHeaders
