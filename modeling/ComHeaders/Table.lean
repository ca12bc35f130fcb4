/-!
# Tables

A table maps texts to values and remembers the order in which its keys were first set.
Setting a key again replaces the value and leaves the key where it is.  The order shows
in everything that goes through a table, so it is part of the type: a table is the list
of its entries.
-/

namespace ComHeaders

/-- The entries of a table in the order of their keys' first setting. -/
abbrev Table (α : Type) := List (String × α)

namespace Table

variable {α : Type}

/-- Sets a key: in its old place if it is there, else at the end. -/
def set (key : String) (v : α) : Table α → Table α
  | [] => [(key, v)]
  | e :: rest => if e.1 = key then (key, v) :: rest else e :: set key v rest

/-- The keys in order. -/
def keys (t : Table α) : List String := t.map (·.1)

/-- The values in order. -/
def values (t : Table α) : List α := t.map (·.2)

/-- The entries in the order of their keys. -/
def sorted (t : Table α) : Table α := t.mergeSort fun a b => a.1 ≤ b.1

theorem mem_keys_set {key k : String} {v : α} {t : Table α} :
    k ∈ keys (set key v t) ↔ k = key ∨ k ∈ keys t := by
  induction t with
  | nil => simp [set, keys]
  | cons e rest ih =>
    by_cases h : e.1 = key
    · simp [set, keys, h]
    · simp only [keys, set, h, if_false, List.map_cons, List.mem_cons] at ih ⊢
      grind

theorem lookup_set {key k : String} {v : α} {t : Table α} :
    (set key v t).lookup k = if k = key then some v else t.lookup k := by
  have cons (n : String) (w : α) (r : Table α) :
      List.lookup k ((n, w) :: r) = if k = n then some w else r.lookup k := by
    by_cases h : k = n
    · simp [h]
    · simp [List.lookup_cons, beq_eq_false_iff_ne.2 h, h]
  induction t with
  | nil => rw [set, cons]
  | cons e rest ih => obtain ⟨n, w⟩ := e; grind [set]

end Table

end ComHeaders
