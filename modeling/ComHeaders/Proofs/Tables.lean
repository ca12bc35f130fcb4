import ComHeaders.Table
import Mathlib.Data.List.Nodup
import Mathlib.Data.List.Sort

/-!
# Tables as maps

A table is the list of its entries, so two tables can hold the same and still be different
lists.  This file is about what does not depend on the order of the entries.

## 1.  Keys and values

The keys of a table are those that can be looked up, and its values are those that were set.
Setting a key that is there only replaces its value, so such settings commute
(`set_comm_of_mem`), and setting the value that is there does nothing (`set_eq_self_iff`).

## 2.  Tables without repeated keys

`Table.KeyedBy name t` says that the keys of `t` are the names of its values, each once; that
is how declarations are kept.

## 3.  Tables that hold the same

`Table.Alike t t'` compares look-ups in tables without repeated keys.  Such tables are
permutations of each other (`Alike.perm`), so they are the same list once they are sorted
(`Alike.sorted_eq`).  Setting the same key keeps tables alike, and so does setting two keys in one
or the other order (`Alike.set_comm`).
-/

namespace ComHeaders

namespace Table

variable {α : Type}

/-! ## 1.  Keys and values -/

/-- A key of a table is one that can be looked up. -/
theorem isSome_lookup_iff {t : Table α} {k : String} :
    (t.lookup k).isSome = true ↔ k ∈ t.keys := by
  rw [← not_iff_not, Bool.not_eq_true, Option.isSome_eq_false_iff, Option.isNone_iff_eq_none,
    List.lookup_eq_none_iff, keys, List.mem_map]
  constructor
  · rintro h ⟨e, he, rfl⟩
    simpa using h e he
  · intro h e he
    exact bne_iff_ne.2 fun heq => h ⟨e, he, heq.symm⟩

/-- An entry of a table in which a key was set is the new one or was there before. -/
theorem mem_set {key : String} {v : α} {entry : String × α} {t : Table α}
    (h : entry ∈ t.set key v) : entry = (key, v) ∨ entry ∈ t := by
  induction t with
  | nil => exact .inl (List.mem_singleton.1 h)
  | cons e t ih =>
    rw [set] at h
    split at h
    · exact (List.mem_cons.1 h).imp_right (List.mem_cons_of_mem _)
    · rcases List.mem_cons.1 h with rfl | h
      · exact .inr List.mem_cons_self
      · exact (ih h).imp_right (List.mem_cons_of_mem _)

theorem mem_values_set {key : String} {v w : α} {t : Table α}
    (h : w ∈ (t.set key v).values) : w = v ∨ w ∈ t.values := by
  obtain ⟨entry, hentry, rfl⟩ := List.mem_map.1 h
  rcases mem_set hentry with rfl | ht
  · exact .inl rfl
  · exact .inr (List.mem_map.2 ⟨entry, ht, rfl⟩)

/-- A value of a table in which some keys were set is one of the new ones or was there before. -/
theorem mem_values_foldl_set {β : Type} {name : β → String} {value : β → α} {l : List β}
    {w : α} {t : Table α} (h : w ∈ (l.foldl (fun t b => t.set (name b) (value b)) t).values) :
    (∃ b ∈ l, w = value b) ∨ w ∈ t.values := by
  induction l generalizing t with
  | nil => exact .inr h
  | cons b l ih =>
    rcases ih h with ⟨c, hc, rfl⟩ | hset
    · exact .inl ⟨c, List.mem_cons_of_mem _ hc, rfl⟩
    · rcases mem_values_set hset with rfl | ht
      · exact .inl ⟨b, List.mem_cons_self, rfl⟩
      · exact .inr ht

/-- What is looked up in a table is one of its values. -/
theorem mem_values_of_lookup {t : Table α} {k : String} {v : α}
    (h : t.lookup k = some v) : v ∈ t.values := by
  induction t with
  | nil => cases h
  | cons e t ih =>
    obtain ⟨n, w⟩ := e
    rw [List.lookup_cons] at h
    split at h
    · obtain rfl := Option.some.inj h
      exact List.mem_cons_self
    · exact List.mem_cons_of_mem _ (ih h)

/-- Setting a key to what it is looked up as changes nothing. -/
theorem set_eq_self_iff {key : String} {v : α} {t : Table α} :
    t.set key v = t ↔ t.lookup key = some v := by
  constructor
  · intro h
    rw [← h, lookup_set, if_pos rfl]
  · intro h
    induction t with
    | nil => cases h
    | cons e t ih =>
      obtain ⟨n, w⟩ := e
      rw [List.lookup_cons] at h
      rw [set]
      split at h
      · rename_i heq
        obtain rfl := eq_of_beq heq
        obtain rfl := Option.some.inj h
        rw [if_pos rfl]
      · rename_i hne
        rw [if_neg fun heq => beq_eq_false_iff_ne.1 hne heq.symm, ih h]

theorem set_set {key : String} {v w : α} {t : Table α} :
    (t.set key v).set key w = t.set key w := by
  induction t with
  | nil => simp [set]
  | cons e t ih =>
    by_cases h : e.1 = key
    · simp [set, h]
    · simp [set, h, ih]

theorem set_set_of_eq_self {key key' : String} {v w : α} {t : Table α} (h : t.set key' w = t)
    (hne : key ≠ key') : (t.set key v).set key' w = t.set key v := by
  rw [set_eq_self_iff, lookup_set, if_neg (Ne.symm hne)]
  exact set_eq_self_iff.1 h

/-- A key that is there can be set before or after another one. -/
theorem set_comm_of_mem {key key' : String} {v w : α} {t : Table α} (hmem : key ∈ t.keys)
    (hne : key ≠ key') : (t.set key v).set key' w = (t.set key' w).set key v := by
  induction t with
  | nil => cases hmem
  | cons e t ih =>
    rw [keys, List.map_cons, List.mem_cons] at hmem
    by_cases h : e.1 = key
    · subst h
      simp [set, hne]
    · have ht : key ∈ keys t := hmem.resolve_left (Ne.symm h)
      by_cases h' : e.1 = key'
      · simp [set, h', Ne.symm hne]
      · simp [set, h, h', ih ht]

theorem sorted_perm (t : Table α) : t.sorted.Perm t :=
  List.mergeSort_perm _ _

theorem sorted_values_perm (t : Table α) : t.sorted.values.Perm t.values :=
  t.sorted_perm.map _

theorem forall_values_of_sorted {t : Table α} {P : α → Prop}
    (h : ∀ e ∈ t.sorted, P e.2) : ∀ a ∈ t.values, P a := by
  intro a ha
  obtain ⟨e, he, rfl⟩ := List.mem_map.1 ha
  exact h e (t.sorted_perm.mem_iff.2 he)

theorem mem_values_of_sorted {t : Table α} {e : String × α} (he : e ∈ t.sorted) :
    e.2 ∈ t.values :=
  List.mem_map_of_mem (t.sorted_perm.mem_iff.1 he)

/-! ## 2.  Tables without repeated keys -/

/-- The keys are the names of the values, each once. -/
structure KeyedBy (name : α → String) (t : Table α) : Prop where
  nodup : t.keys.Nodup
  key_eq : ∀ e ∈ t, e.1 = name e.2

theorem KeyedBy.map_values {name : α → String} {t : Table α} (h : t.KeyedBy name) :
    t.values.map name = t.keys := by
  rw [values, keys, List.map_map]
  exact List.map_congr_left fun e he => (h.key_eq e he).symm

theorem KeyedBy.nodup_sorted {name : α → String} {t : Table α} (h : t.KeyedBy name) :
    (t.sorted.values.map name).Nodup := by
  have hperm : (t.sorted.values.map name).Perm (t.values.map name) :=
    t.sorted_values_perm.map name
  rw [hperm.nodup_iff, h.map_values]
  exact h.nodup

/-! ## 3.  Tables that hold the same -/

/-- Setting a key leaves the keys distinct. -/
theorem nodup_keys_set {key : String} {v : α} {t : Table α} (h : t.keys.Nodup) :
    (t.set key v).keys.Nodup := by
  induction t with
  | nil => exact List.nodup_singleton key
  | cons e t ih =>
    rw [keys, List.map_cons, List.nodup_cons] at h
    rw [set]
    split
    · rename_i heq
      rw [keys, List.map_cons, List.nodup_cons, ← heq]
      exact h
    · rename_i hne
      rw [keys, List.map_cons, List.nodup_cons]
      refine ⟨fun hmem => ?_, ih h.2⟩
      rcases mem_keys_set.1 hmem with heq | hmem
      · exact hne heq
      · exact h.1 hmem

/-- Where no key is repeated, the entries can be looked up. -/
theorem mem_iff_lookup {t : Table α} (h : t.keys.Nodup) {k : String} {v : α} :
    (k, v) ∈ t ↔ t.lookup k = some v := by
  induction t with
  | nil => simp
  | cons e t ih =>
    obtain ⟨n, w⟩ := e
    rw [keys, List.map_cons, List.nodup_cons] at h
    rw [List.mem_cons, ih h.2, List.lookup_cons, Prod.mk.injEq]
    by_cases hk : k = n
    · subst hk
      have hnone : t.lookup k ≠ some v := fun hv =>
        h.1 (List.mem_map.2 ⟨(k, v), (ih h.2).2 hv, rfl⟩)
      simp [hnone, eq_comm]
    · simp [hk, beq_eq_false_iff_ne.2 hk]

/-- Tables without repeated keys that have the same entries. -/
structure Alike (t t' : Table α) : Prop where
  nodup : t.keys.Nodup
  nodup' : t'.keys.Nodup
  lookup : ∀ k, t.lookup k = t'.lookup k

namespace Alike

variable {t t' t'' : Table α}

theorem refl (h : t.keys.Nodup) : Alike t t :=
  ⟨h, h, fun _ => rfl⟩

theorem trans (h : Alike t t') (h' : Alike t' t'') : Alike t t'' :=
  ⟨h.nodup, h'.nodup', fun k => (h.lookup k).trans (h'.lookup k)⟩

theorem perm (h : Alike t t') : t.Perm t' := by
  refine (List.perm_ext_iff_of_nodup (.of_map _ h.nodup) (.of_map _ h.nodup')).2 ?_
  rintro ⟨k, v⟩
  rw [mem_iff_lookup h.nodup, mem_iff_lookup h.nodup', h.lookup]

theorem keys_perm (h : Alike t t') : t.keys.Perm t'.keys :=
  h.perm.map _

/-- **Sorted tables that are alike are equal.** -/
theorem sorted_eq (h : Alike t t') : t.sorted = t'.sorted := by
  have hsorted (t : Table α) : t.sorted.Pairwise fun a b => (decide (a.1 ≤ b.1)) = true :=
    List.pairwise_mergeSort
      (fun a b c hab hbc => by
        simp only [decide_eq_true_eq] at hab hbc ⊢
        exact String.le_trans hab hbc)
      (fun a b => by simpa using String.le_total a.1 b.1) t
  have hperm : t.sorted.Perm t'.sorted :=
    (t.sorted_perm.trans h.perm).trans t'.sorted_perm.symm
  refine List.Perm.eq_of_pairwise ?_ (hsorted t) (hsorted t') hperm
  intro a b ha hb hab hba
  have hkey : a.1 = b.1 := String.le_antisymm (by simpa using hab) (by simpa using hba)
  exact List.inj_on_of_nodup_map h.nodup (t.sorted_perm.mem_iff.1 ha)
    (h.perm.mem_iff.2 (t'.sorted_perm.mem_iff.1 hb)) hkey

theorem set (h : Alike t t') (key : String) (v : α) : Alike (t.set key v) (t'.set key v) :=
  ⟨nodup_keys_set h.nodup, nodup_keys_set h.nodup', fun k => by
    rw [lookup_set, lookup_set, h.lookup]⟩

theorem set_comm (h : t.keys.Nodup) {key key' : String} (hne : key ≠ key') (v w : α) :
    Alike ((t.set key v).set key' w) ((t.set key' w).set key v) := by
  refine ⟨nodup_keys_set (nodup_keys_set h), nodup_keys_set (nodup_keys_set h), fun k => ?_⟩
  rw [lookup_set, lookup_set, lookup_set, lookup_set]
  by_cases hk : k = key
  · subst hk
    rw [if_neg hne, if_pos rfl, if_pos rfl]
  · rw [if_neg hk, if_neg hk]

end Alike

end Table

end ComHeaders
