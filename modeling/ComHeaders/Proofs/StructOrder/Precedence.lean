import ComHeaders.Proofs.StructOrder.Outcome
import Mathlib.Data.List.Permutation

/-!
# What stands before what

The order of the structs of a header, read off a sound walk that has come to its end.

* `precedes_iff`: of two structs of which one refers to the other, the one that is referred
  to comes first, unless it stands on the first chain of references to the other one.
* `refers_precedes`: so every reference is respected that is not part of a cycle.
* `contains_precedes_iff`: holding by value is treated no better than pointing.  A part stands
  behind its holder exactly if it is on the first chain to the holder, which takes a pointer
  that leads back.

## Aggregates declared in place

The own type of an aggregate that is declared in place is no reference, and so the struct that
has the name of that type can stand behind the holder of the aggregate, although nothing leads
back: `inlineHolder_before_namesake`.

## Parts behind their holders

That the last case occurs is `holder_before_part`: a struct `A` that points back to the struct
`B` by which it is held is entered first, by its name, and so it is finished last.
-/

namespace ComHeaders

namespace StructOrder

section

variable {structs : Table StructDecl} {l : List StructDecl}
  (hkeys : structs.KeyedBy StructDecl.name) (h : (order structs).1 = .ok l)
include hkeys h

theorem exists_sound_of_order : ∃ w : Walk, w.Sound structs.sorted.values ∧
    w.remaining = [] ∧ w.opened = [] ∧ l = w.finished.reverse := by
  obtain ⟨w, hturns, hremaining, hopened, hl⟩ := exists_turns_of_run h
  exact ⟨w, (Walk.Sound.start _).turns hkeys.nodup_sorted hturns, hremaining, hopened, hl⟩

theorem order_nodup : l.Nodup := by
  have hnames : (structs.values.map StructDecl.name).Nodup := hkeys.map_values ▸ hkeys.nodup
  exact (order_perm h).nodup_iff.mpr hnames.of_map

end

/-- In a list without repetitions, what stands before an entry is in the part before it. -/
theorem pair_sublist_iff {l l' : List StructDecl} {a b : StructDecl}
    (hnodup : (l ++ a :: l').Nodup) : [b, a].Sublist (l ++ a :: l') ↔ b ∈ l := by
  obtain ⟨-, htail, hdisjoint⟩ := List.nodup_append.mp hnodup
  constructor
  · intro hsub
    obtain ⟨front, back, heq, hfront, hback⟩ := List.sublist_append_iff.mp hsub
    rcases front with _ | ⟨c, front⟩
    · -- then the second entry would be behind itself
      rw [List.nil_append] at heq
      subst heq
      have ha : a ∈ l' := by
        rcases List.sublist_cons_iff.mp hback with hback | ⟨r, hr, hsub'⟩
        · exact hback.subset (by simp)
        · obtain ⟨rfl, rfl⟩ := List.cons.inj hr
          exact hsub'.subset (by simp)
      exact absurd ha (List.nodup_cons.mp htail).1
    · obtain ⟨rfl, -⟩ := List.cons.inj heq
      exact hfront.subset List.mem_cons_self
  · intro hb
    exact (List.singleton_sublist.mpr hb).append (List.singleton_sublist.mpr List.mem_cons_self)

section

variable {structs : Table StructDecl} {l : List StructDecl} {a b : StructDecl}
  (hkeys : structs.KeyedBy StructDecl.name) (h : (order structs).1 = .ok l)
include hkeys h

/-- **What a struct refers to stands before it, unless it is on the first chain to it.** -/
theorem precedes_iff (hrefers : Refers structs.sorted.values a b) :
    [b, a].Sublist l ↔ ¬ OnFirstChain structs.sorted.values b a := by
  have hnodup := order_nodup hkeys h
  have ha : a ∈ l := (order_perm h).mem_iff.mpr
    (structs.sorted_values_perm.mem_iff.mp hrefers.1)
  obtain ⟨w, hw, -, -, rfl⟩ := exists_sound_of_order hkeys h
  obtain ⟨later, earlier, hfinished⟩ := List.append_of_mem (List.mem_reverse.mp ha)
  obtain ⟨below, hchain, hbefore⟩ := hw.ordered later a earlier hfinished
  have hsplit : w.finished.reverse = earlier.reverse ++ a :: later.reverse := by
    simp [hfinished]
  rw [hsplit] at hnodup ⊢
  rw [pair_sublist_iff hnodup, List.mem_reverse, hbefore b hrefers]
  constructor
  · rintro hb ⟨below', hchain', hb'⟩
    rw [hchain.unique hchain'] at hb
    exact hb hb'
  · exact fun hb hon => hb ⟨below, hchain, hon⟩

end

/-! ## References outside cycles -/

/-- **Every reference that is not part of a cycle is respected.**  What a struct refers to
stands before it, or leads back to it. -/
theorem refers_precedes {structs : Table StructDecl} {l : List StructDecl}
    (hkeys : structs.KeyedBy StructDecl.name) (h : (order structs).1 = .ok l)
    {a b : StructDecl} (hrefers : Refers structs.values a b) (hne : a ≠ b) :
    [b, a].Sublist l ∨ Relation.TransGen (Refers structs.values) b a := by
  have hperm := structs.sorted_values_perm
  by_cases hon : OnFirstChain structs.sorted.values b a
  · obtain ⟨below, hchain, hmem⟩ := hon
    have hleads : Relation.ReflTransGen (Refers structs.values) b a :=
      Relation.ReflTransGen.mono (fun _ _ hr => hr.perm hperm) b a (hchain.leads hmem)
    rcases Relation.reflTransGen_iff_eq_or_transGen.mp hleads with heq | htrans
    · exact absurd heq hne
    · exact Or.inr htrans
  · exact Or.inl ((precedes_iff hkeys h (hrefers.perm hperm.symm)).mpr hon)

/-- A part that points back to its holder. -/
def backPointer : StructDecl :=
  ⟨⟨"A", "N.A", false⟩, [.plain "holder" (.pointer (.named (.str "N") (.str "B") .null true)) []]⟩

/-- A struct that refers to nothing. -/
def leaf : StructDecl := ⟨⟨"C", "N.C", false⟩, []⟩

/-- A holder of the part, which points to the leaf inside a union. -/
def leafHolder : StructDecl :=
  ⟨⟨"B", "N.B", false⟩, [
    .plain "part" (.named (.str "N") (.str "A") .null true) [],
    .aggregate "Anonymous" (.named (.str "N") (.str "U") (.str "N.B") true) ⟨"U", "N.B/U", true⟩
      [.plain "leaf" (.pointer (.named (.str "N") (.str "C") .null true)) []]]⟩

/-- The three by their names.  The first two are on a cycle. -/
def leafTable : Table StructDecl := [("A", backPointer), ("B", leafHolder), ("C", leaf)]

/-- The holder refers to the leaf from outside the cycle it is on itself. -/
theorem leaf_precedes_leafHolder :
    leafTable.KeyedBy StructDecl.name ∧
      (order leafTable).1 = .ok [leaf, leafHolder, backPointer] ∧
      Refers leafTable.values leafHolder leaf ∧ leafHolder ≠ leaf ∧
      ([leaf, leafHolder].Sublist [leaf, leafHolder, backPointer] ∨
        Relation.TransGen (Refers leafTable.values) leaf leafHolder) := by
  have hkeys : leafTable.KeyedBy StructDecl.name :=
    ⟨by decide, by simp [leafTable, backPointer, leafHolder, leaf, StructDecl.name]⟩
  have horder : (order leafTable).1 = .ok [leaf, leafHolder, backPointer] := by cbv
  have hrefers : Refers leafTable.values leafHolder leaf := by
    refine ⟨by simp [leafTable, Table.values], by simp [leafTable, Table.values],
      "leaf", _, [], .inside (List.mem_cons_of_mem _ List.mem_cons_self)
        (.among List.mem_cons_self), .str "N", .null, true, rfl⟩
  have hne : leafHolder ≠ leaf := fun heq => absurd (congrArg StructDecl.name heq) (by decide)
  exact ⟨hkeys, horder, hrefers, hne, refers_precedes hkeys horder hrefers hne⟩

/-! ## Aggregates declared in place -/

/-- A struct with an aggregate declared in place whose type has the name of another struct. -/
def inlineHolder : StructDecl :=
  ⟨⟨"A", "N.A", false⟩, [
    .aggregate "u" (.named (.str "") (.str "B") (.str "N.A") true) ⟨"B", "N.A/B", false⟩
      [.plain "x" (.primitive (.str "Int32")) []]]⟩

/-- The struct of that name. -/
def namesake : StructDecl := ⟨⟨"B", "N.B", false⟩, []⟩

/-- The two by their names. -/
def namesakeTable : Table StructDecl := [("A", inlineHolder), ("B", namesake)]

/-- **The type of an aggregate declared in place is not respected.**  The holder leads to the
struct by the type of its member, nothing leads back, and still the holder stands first. -/
theorem inlineHolder_before_namesake :
    namesakeTable.KeyedBy StructDecl.name ∧
      (order namesakeTable).1 = .ok [inlineHolder, namesake] ∧
      Leads namesakeTable.values inlineHolder namesake ∧ inlineHolder ≠ namesake ∧
      ¬ ([namesake, inlineHolder].Sublist [inlineHolder, namesake] ∨
        Relation.TransGen (Leads namesakeTable.values) namesake inlineHolder) := by
  have hkeys : namesakeTable.KeyedBy StructDecl.name :=
    ⟨by decide, by simp [namesakeTable, inlineHolder, namesake, StructDecl.name]⟩
  have horder : (order namesakeTable).1 = .ok [inlineHolder, namesake] := by cbv
  have hleads : Leads namesakeTable.values inlineHolder namesake :=
    ⟨by simp [namesakeTable, Table.values], by simp [namesakeTable, Table.values],
      _, _, .among List.mem_cons_self, rfl, .str "", .str "N.A", true, rfl⟩
  have hne : inlineHolder ≠ namesake := fun heq =>
    absurd (congrArg StructDecl.name heq) (by decide)
  refine ⟨hkeys, horder, hleads, hne, ?_⟩
  rintro (hsub | hback)
  · exact absurd (hsub.map StructDecl.name) (by decide)
  · -- a struct without members leads nowhere
    obtain ⟨s, ⟨-, -, field, type, hw, -⟩, -⟩ := Relation.TransGen.head'_iff.mp hback
    exact FieldDecl.not_within_nil field hw

/-! ## Parts held by value -/

/-- **When a part stands before its holder.**  A part that is held by value stands before its
holder exactly if it is not on the first chain of references to the holder. -/
theorem contains_precedes_iff {structs : Table StructDecl} {l : List StructDecl}
    (hkeys : structs.KeyedBy StructDecl.name) (h : (order structs).1 = .ok l)
    {a b : StructDecl} (hcontains : Contains structs.values a b) :
    [b, a].Sublist l ↔ ¬ OnFirstChain structs.sorted.values b a :=
  precedes_iff hkeys h (hcontains.refers.perm structs.sorted_values_perm.symm)

/-- A holder of the part that refers to nothing else. -/
def backHolder : StructDecl :=
  ⟨⟨"B", "N.B", false⟩, [.plain "part" (.named (.str "N") (.str "A") .null true) []]⟩

/-- The two by their names. -/
def backTable : Table StructDecl := [("A", backPointer), ("B", backHolder)]

theorem backTable_keyedBy : backTable.KeyedBy StructDecl.name where
  nodup := by decide
  key_eq := by simp [backTable, backPointer, backHolder, StructDecl.name]

theorem order_backTable : (order backTable).1 = .ok [backHolder, backPointer] := by cbv

theorem contains_backTable_iff {a b : StructDecl} :
    Contains backTable.values a b ↔ a = backHolder ∧ b = backPointer := by
  have hname : backHolder.name ≠ "A" := by decide
  constructor
  · rintro ⟨ha, hb, field, ns, declaring, isValue, groups, hw⟩
    have ha' : a = backPointer ∨ a = backHolder := by simpa [backTable, Table.values] using ha
    have hb' : b = backPointer ∨ b = backHolder := by simpa [backTable, Table.values] using hb
    rcases ha' with rfl | rfl
    · simp [backPointer, FieldDecl.within_cons] at hw
    · have hb'' : b.name = "A" := by
        simp only [backHolder, FieldDecl.within_cons, FieldDecl.plain.injEq] at hw
        simp_all
      rcases hb' with rfl | rfl
      · exact ⟨rfl, rfl⟩
      · exact absurd hb'' hname
  · rintro ⟨rfl, rfl⟩
    exact ⟨by simp [backTable, Table.values], by simp [backTable, Table.values],
      "part", .str "N", .null, true, [], .among List.mem_cons_self⟩

/-- **A part can stand behind its holder.**  Nothing holds itself here, at whatever depth, but
the part leads back to its holder by a pointer, is entered first and finished last. -/
theorem holder_before_part :
    backTable.KeyedBy StructDecl.name ∧
      (∀ s, ¬ Relation.TransGen (Contains backTable.values) s s) ∧
      Contains backTable.values backHolder backPointer ∧
      (order backTable).1 = .ok [backHolder, backPointer] ∧
      ¬ [backPointer, backHolder].Sublist [backHolder, backPointer] := by
  have hnames : backHolder.name ≠ backPointer.name := by decide
  refine ⟨backTable_keyedBy, fun s hs => ?_, contains_backTable_iff.mpr ⟨rfl, rfl⟩,
    order_backTable, fun hsub => ?_⟩
  · have key : ∀ {a b : StructDecl}, Relation.TransGen (Contains backTable.values) a b →
        a = backHolder ∧ b = backPointer := by
      intro a b hab
      induction hab with
      | single h => exact contains_backTable_iff.mp h
      | tail _ h ih => exact ⟨ih.1, (contains_backTable_iff.mp h).2⟩
    obtain ⟨rfl, heq⟩ := key hs
    exact hnames (congrArg StructDecl.name heq)
  · exact absurd (hsub.map StructDecl.name) (by decide)

/-- The part is on the first chain to its holder: it is where the chain begins. -/
theorem backPointer_onFirstChain :
    backTable.KeyedBy StructDecl.name ∧ (order backTable).1 = .ok [backHolder, backPointer] ∧
      Contains backTable.values backHolder backPointer ∧
      OnFirstChain backTable.sorted.values backPointer backHolder := by
  have hcontains := contains_backTable_iff.mpr (And.intro rfl rfl)
  refine ⟨backTable_keyedBy, order_backTable, hcontains, ?_⟩
  by_contra hon
  have hsub := (contains_precedes_iff backTable_keyedBy order_backTable hcontains).mpr hon
  exact absurd (hsub.map StructDecl.name) (by decide)

end StructOrder

end ComHeaders
