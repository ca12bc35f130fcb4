import ComHeaders.Metadata.Loading
import ComHeaders.Progress
import ComHeaders.Sections
import ComHeaders.Settings

/-!
# The generator

A generator holds what the passes over namespaces read: a repository and settings.  One
pass makes one header.  Passes share nothing but these two, and what was counted.

Headers are written only when every pass has made its header, so a pass that fails leaves
the files as they were.
-/

namespace ComHeaders

/-- What the passes read. -/
structure Generator where
  repository : Repository
  settings : Settings

namespace Generator

/-! ## Sessions with a generator -/

/-- A generator for a repository, or for the dump at a path if there is none. -/
def start (path : Option Path) (repository : Option Repository) (settings : Settings) :
    Work Generator := do
  match repository, path with
  | some r, _ =>
    Progress.memory
    return ⟨r, settings⟩
  | none, some p =>
    let r ← Repository.load p
    note (.plain .generator .info s!"Metadata loaded from {p.text}")
    Progress.memory
    return ⟨r, settings⟩
  | none, none => throw (.fault .noMetadata)

/-- Ends a session.  One that was broken off has no summary. -/
def finish (succeeded : Bool) : Work Unit := do
  if succeeded then Progress.summary
  Progress.memory

/-- A session over the dump at a path. -/
def session {α : Type} (path : Path) (settings : Settings) (body : Generator → Work α) :
    Work α := do
  let g ← start (some path) none settings
  let a ← tryCatch (body g) fun f => do
    finish false
    throw f
  finish true
  return a

/-! ## Headers -/

/-- The namespaces of the metadata, in order. -/
def namespaces (g : Generator) : Except Failure (List Value) := faulty g.repository.namespaces

/-- The declarations of a header and its text. -/
def pass (g : Generator) (p : Profile) : Pass (Declarations × String) := do
  let declarations ← Declarations.classify g.repository p
  let text ← headerText ⟨g.repository, p.taggedEnums⟩ g.settings p declarations
  return (declarations, text)

/-- The kinds of entities a header declares, with their numbers. -/
def kindCounts (d : Declarations) : List (String × Nat) := [
  ("constants", d.constants.length),
  ("typedefs", d.delegates.length),
  ("enums", d.enums.length),
  ("structs", d.structs.length),
  ("interfaces", d.interfaces.length),
  ("functions", d.functions.length)]

/-- The tally with the entities of one more header. -/
def tallied (d : Declarations) (t : Tally) : Tally :=
  (kindCounts d).foldl (fun t (kind, n) => t.add kind n) t

/-- The text of the header for a profile. -/
def header (g : Generator) (p : Profile) : Work String :=
  timed .generator "HeaderGenerator.generate_profile" do
    note (.plain .generator .info s!"Generating header for: {p.namespaceName}")
    let (declarations, text) ← Work.ofPass (g.pass p)
    Work.count (tallied declarations)
    note (.plain .generator .info (s!"Header generated for {p.namespaceName}: " ++
      s!"{declarations.count} entities, {text.length} bytes"))
    return text

/-- The text of the header for a namespace with a built-in profile. -/
def headerOf (g : Generator) (namespaceName : String) : Work String := do
  g.header (← Work.ofExcept (faulty (Profile.ofNamespace namespaceName)))

/-! ## Writing -/

/-- The headers for some profiles, each with the path it goes to. -/
def rendered (g : Generator) (directory : Path) : List Profile → Work (List (Path × String))
  | [] => return []
  | p :: rest => do
    let text ← Progress.passOver p.namespaceName (g.header p)
    return (directory.join (.ofString p.outputFile), text) :: (← rendered g directory rest)

/-- Writes headers to their paths. -/
def writeAll : List (Path × String) → Work Unit
  | [] => return ()
  | (path, text) :: rest => do
    Work.writeText path text
    note (.plain .generator .info s!"[SUCCESS] Generated: {path.text}")
    writeAll rest

/-- Makes the headers for some profiles and then writes them into a directory. -/
def writeHeaders (g : Generator) (profiles : List Profile) (directory : Path) :
    Work (List Path) := do
  let headers ← g.rendered directory profiles
  writeAll headers
  return headers.map (·.1)

end Generator

end ComHeaders
