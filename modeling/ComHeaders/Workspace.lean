import ComHeaders.Files.Tree
import ComHeaders.Pass
import ComHeaders.Tally

/-!
# Workspaces

A run works in a workspace: the files it reads and writes, the console it shows lines on,
the log file it may keep, and what it has counted.  An entry of the journal goes to the
console if the console is open for its level, and to the log file if there is one.  Its line is
put behind whatever that file holds.

A failure ends what was asked for and leaves the workspace as it has become.
-/

namespace ComHeaders

/-- A line on the console. -/
inductive ConsoleLine where
  | entry (e : Entry)
  /-- A line of the result itself. -/
  | text (s : String)

namespace ConsoleLine

def render (r : Readings) : ConsoleLine → String
  | entry e => s!"{e.level.name}: {e.message r}"
  | text s => s

end ConsoleLine

/-- Where the journal goes. -/
structure LogSink where
  /-- The least level that the console shows, once it is open. -/
  console : Option Level := none
  /-- The log file, once there is one.  It takes entries of every level. -/
  logFile : Option Path := none
  /-- Whether the journal has its final places. -/
  isReady : Bool := false
  deriving DecidableEq, Repr

namespace LogSink

/-- The number of places the journal goes to. -/
def placeCount (s : LogSink) : Nat := s.console.toList.length + s.logFile.toList.length

/-- Whether the console shows an entry. -/
def shows (s : LogSink) (e : Entry) : Bool := s.console.any fun least => least.admits e.level

end LogSink

/-- What a run works in. -/
structure Workspace where
  files : FileTree
  sink : LogSink := {}
  /-- The lines on the console, latest last. -/
  shown : Array ConsoleLine := #[]
  tally : Tally := {}
  /-- The line of an entry in the log file. -/
  lineOf : Entry → String := Entry.logLine "" {}

namespace Workspace

/-- Where the log file is, if there is one.  It is looked for from the root. -/
def logPlace? (w : Workspace) : Option Location := do
  let p ← w.sink.logFile
  (w.files.locate (p.absolute w.files.here)).toOption

/-- Takes an entry of the journal. -/
def accept (w : Workspace) (e : Entry) : Workspace :=
  { w with
    shown := if w.sink.shows e then w.shown.push (.entry e) else w.shown
    files := match w.logPlace? with
      | some place => w.files.append place (w.lineOf e).toUTF8
      | none => w.files }

end Workspace

/-- A computation in a workspace. -/
abbrev Work := ExceptT Failure (StateM Workspace)

instance : Keeps Work where
  note e := modify fun w => w.accept e

namespace Work

/-- The result of a computation and the workspace behind it. -/
def perform {α : Type} (x : Work α) (w : Workspace) : Except Failure α × Workspace := x.run.run w

/-- A result that does not depend on the workspace. -/
def ofExcept {α : Type} (x : Except Failure α) : Work α := ExceptT.mk (pure x)

/-- A computation that only keeps a journal.  The workspace takes its entries. -/
def ofLogged {α : Type} (x : Logged α) : Work α := ExceptT.mk fun w =>
  let (result, journal) := x.perform
  (result, journal.foldl Workspace.accept w)

/-- A whole pass.  The workspace takes the entries of its journal. -/
def ofPass {α : Type} (x : Pass α) : Work α := ExceptT.mk fun w =>
  let (result, session) := x.perform {}
  (result, session.journal.foldl Workspace.accept w)

/-- Shows a line on the console, if the console can show it. -/
def say (displays : String → Bool) (line : String) : Work Unit := do
  if !displays line then throw (.fault .unencodable)
  modify fun w => { w with shown := w.shown.push (.text line) }

/-- Changes what was counted. -/
def count (f : Tally → Tally) : Work Unit := modify fun w => { w with tally := f w.tally }

/-! ## Files -/

/-- What the file at a path holds. -/
def read (p : Path) : Work Contents := do ofExcept (faulty ((← get).files.read p))

/-- Writes a text to the file at a path. -/
def writeText (p : Path) (text : String) : Work Unit := do
  let files ← ofExcept (faulty ((← get).files.write p text.toUTF8))
  modify fun w => { w with files := files }

/-- Makes a directory and those above it. -/
def makeDirectories (p : Path) : Work Unit := do
  let (result, files) := (← get).files.makeDirectories p
  modify fun w => { w with files := files }
  ofExcept (faulty result)

/-! ## Where the journal goes -/

/-- The log file of a run that starts at a time, in a directory. -/
def logPath (directory : Path) (stamp : String) : Path :=
  directory.join ⟨.here, [s!"winmd_c_headers_{stamp}.log"]⟩

/-- Opens a log file, and makes it unless there is one. -/
def startLog (p : Path) : Work Unit := do
  let files := (← get).files
  let files ← ofExcept (faulty (files.openEnd (p.absolute files.here)))
  modify fun w => { w with files := files, sink.logFile := some p }

/-- Opens the console and, in a directory, a log file.  The console shows everything that
matters to a reader, or everything at all.  A journal that has its places keeps them. -/
def startLogging (directory : Option Path) (isVerbose : Bool) (stamp : String) : Work Unit := do
  if (← get).sink.isReady then return
  let console := if isVerbose then Level.debug else Level.info
  modify fun w => { w with sink := ⟨some console, none, false⟩ }
  if let some d := directory then
    makeDirectories d
    let p := logPath d stamp
    startLog p
  modify fun w => { w with sink.isReady := true }
  if let some d := directory then
    note (.plain .sink .info s!"Logging initialized. Log file: {(logPath d stamp).text}")
  note (.plain .sink .debug ("Verbose mode: " ++ if isVerbose then "True" else "False"))

/-- Closes the console and the log file. -/
def stopLogging : Work Unit := modify fun w => { w with sink := {} }

end Work

end ComHeaders
