import ComHeaders.Table

/-!
# Tallies

A generator counts the passes it starts and, per kind, the entities of the headers it has
made.
-/

namespace ComHeaders

/-- What a generator has counted. -/
structure Tally where
  /-- The passes that were started. -/
  namespaceCount : Nat := 0
  /-- The entities counted, by kind. -/
  entities : Table Int := []
  deriving DecidableEq, Repr

namespace Tally

def startNamespace (t : Tally) : Tally := { t with namespaceCount := t.namespaceCount + 1 }

/-- The entities counted of a kind. -/
def countOf (t : Tally) (kind : String) : Int := (t.entities.lookup kind).getD 0

/-- Counts entities of a kind. -/
def add (t : Tally) (kind : String) (count : Int) : Tally :=
  { t with entities := t.entities.set kind (t.countOf kind + count) }

theorem countOf_add {t : Tally} {k kind : String} {n : Int} :
    (t.add kind n).countOf k = if k = kind then t.countOf k + n else t.countOf k := by
  simp only [countOf, add, Table.lookup_set]
  split <;> simp_all

/-- All entities counted. -/
def total (t : Tally) : Int := t.entities.foldr (fun e n => e.2 + n) 0

/-- The counts by kind, in the order of the kinds. -/
def breakdown (t : Tally) : String :=
  ", ".intercalate (t.entities.sorted.map fun (kind, n) => s!"{n} {kind}")

end Tally

end ComHeaders
