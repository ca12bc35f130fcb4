import ComHeaders.Declaration.Basic
import ComHeaders.Journal

/-!
# Passes

One header is made in one pass.  During the pass two tables grow: the names that were
found for references, and the interfaces that were described.  Both only spare work that
would give the same result again, and they make the journal say each thing once.

A failure ends what was asked for, but not the pass: the tables and the journal stay as
they are, and something else can be asked.
-/

namespace ComHeaders

/-- What a pass remembers. -/
structure Session where
  /-- The names found for references, latest first. -/
  names : List (TypeRef × Value) := []
  /-- The interfaces described, by full name. -/
  interfaces : Table InterfaceDecl := []
  journal : Journal := #[]

/-- A computation within a pass. -/
abbrev Pass := ExceptT Failure (StateM Session)

namespace Pass

instance : Keeps Pass where
  note e := modify fun s => { s with journal := s.journal.push e }

/-- A result that does not depend on the pass. -/
def ofExcept {α : Type} (x : Except Failure α) : Pass α := ExceptT.mk (pure x)

/-- A computation that only keeps a journal, within a pass. -/
def ofLogged {α : Type} (x : Logged α) : Pass α := ExceptT.mk fun s =>
  let (r, j) := x.run.run s.journal
  (r, { s with journal := j })

/-- The result of a computation and the session behind it. -/
def perform {α : Type} (x : Pass α) (s : Session) : Except Failure α × Session := x.run.run s

end Pass

end ComHeaders
