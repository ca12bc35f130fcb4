import ComHeaders.Failure

/-!
# The journal of a run

A run keeps a journal.  Its entries name the part of the program that speaks, a level,
and a message.  A message may mention what only the surroundings know: a duration, the
memory in use, the wording of a fault.  Such places stay open in
the entry, and `Entry.message` fills them from the readings at hand.  So the journal of a
run is a value that depends on its input alone.

The journal survives a failure: what was noted before stays noted.
-/

namespace ComHeaders

/-- How important an entry is. -/
inductive Level where
  | debug
  | info
  | warning
  | error
  | critical
  deriving DecidableEq, Repr

namespace Level

def name : Level → String
  | debug => "DEBUG"
  | info => "INFO"
  | warning => "WARNING"
  | error => "ERROR"
  | critical => "CRITICAL"

def rank : Level → Nat
  | debug => 0
  | info => 1
  | warning => 2
  | error => 3
  | critical => 4

/-- Whether an entry of the second level is shown where the first is asked for. -/
def admits (least l : Level) : Bool := least.rank ≤ l.rank

end Level

/-- The parts of the program that speak in the journal. -/
inductive Speaker where
  | main
  | generator
  | loader
  | repository
  | naming
  | classifier
  | structOrder
  | dispatch
  | emitter
  | sink
  /-- A speaker outside this library. -/
  | other (name : String)
  deriving DecidableEq, Repr

namespace Speaker

/-- The name under which a speaker appears in a log file. -/
def name : Speaker → String
  | main => "winmd_c_headers.main"
  | generator => "winmd_c_headers.application.generators.header_generator"
  | loader => "winmd_c_headers.infrastructure.metadata.metadata_loader"
  | repository => "winmd_c_headers.domain.repositories.metadata_repository"
  | naming => "winmd_c_headers.domain.services.parsing.type_name_resolver"
  | classifier => "winmd_c_headers.domain.services.parsing.type_classifier"
  | structOrder => "winmd_c_headers.domain.services.generation.struct_dependency_resolver"
  | dispatch => "winmd_c_headers.domain.services.generation.interface_method_emitter"
  | emitter => "winmd_c_headers.domain.services.generation.declaration_emitter"
  | sink => "winmd_c_headers.infrastructure.logging.logger_setup"
  | other n => n

end Speaker

/-- A piece of a message. -/
inductive Piece where
  | text (s : String)
  /-- The seconds something took. -/
  | seconds
  /-- The megabytes in use. -/
  | megabytes
  /-- The message of a failure, behind a blank; nothing if it has none. -/
  | cause (f : Failure)
  deriving Repr

/-- What the surroundings say when a message is worded; where nothing was measured, zeros. -/
structure Readings where
  seconds : String := "0.000"
  megabytes : String := "0.0"
  /-- The wording of the faults that have no fixed one. -/
  wording : Fault → String := Fault.wording

namespace Readings

/-- The message of a failure, in the wording of the surroundings where it has none. -/
def explain (r : Readings) (f : Failure) : String :=
  match f.text?, f with
  | some t, _ => t
  | none, .fault g => r.wording g
  | none, _ => ""

end Readings

namespace Piece

def render (r : Readings) : Piece → String
  | text s => s
  | seconds => r.seconds
  | megabytes => r.megabytes
  | cause f =>
    let t := r.explain f
    if t.isEmpty && f.text?.isNone then "" else " " ++ t

end Piece

/-- An entry of the journal. -/
structure Entry where
  speaker : Speaker
  level : Level
  pieces : List Piece
  deriving Repr

namespace Entry

/-- An entry whose message is known in advance. -/
def plain (speaker : Speaker) (level : Level) (message : String) : Entry :=
  ⟨speaker, level, [.text message]⟩

def message (r : Readings) (e : Entry) : String := String.join (e.pieces.map (Piece.render r))

/-- The line of an entry in a log file, behind the time. -/
def logLine (time : String) (r : Readings) (e : Entry) : String :=
  s!"{time} - {e.speaker.name} - {e.level.name} - {e.message r}\n"

end Entry

/-- A journal, latest entry last. -/
abbrev Journal := Array Entry

/-- Computations that keep a journal. -/
class Keeps (m : Type → Type) where
  note : Entry → m Unit

export Keeps (note)

/-- A computation that may fail and keeps a journal, which a failure does not undo. -/
abbrev Logged := ExceptT Failure (StateM Journal)

instance : Keeps Logged where
  note e := modify fun j => j.push e

namespace Logged

/-- The result and the journal of a computation. -/
def perform {α : Type} (x : Logged α) : Except Failure α × Journal := x.run.run #[]

end Logged

/-- Notes when an operation starts, and when it fails. -/
def watched {m : Type → Type} {α : Type} [Monad m] [Keeps m] [MonadExceptOf Failure m]
    (speaker : Speaker) (operation : String) (x : m α) : m α := do
  note (.plain speaker .debug s!"Starting {operation}")
  tryCatch x fun f => do
    note ⟨speaker, .error, [.text s!"Failed {operation} after ", .seconds, .text "s:", .cause f]⟩
    throw f

/-- Notes when an operation starts and how it ends. -/
def timed {m : Type → Type} {α : Type} [Monad m] [Keeps m] [MonadExceptOf Failure m]
    (speaker : Speaker) (operation : String) (x : m α) : m α := do
  let a ← watched speaker operation x
  note ⟨speaker, .debug, [.text s!"Completed {operation} in ", .seconds, .text "s"]⟩
  return a

end ComHeaders
