import ComHeaders.Configuration
import ComHeaders.Generator

/-!
# The command

The command reads its configuration, and then lists the namespaces of the metadata or makes
headers for some of them.  The journal has no place to go until the configuration stands, so
what is wrong with the command line or the configuration ends the run without a word in it.
-/

namespace ComHeaders

/-- How the command ends. -/
inductive Ending where
  /-- With an explanation of the command line. -/
  | help
  /-- With a command line that is wrong. -/
  | badUsage
  | badConfiguration (f : Failure)
  /-- With what was asked for. -/
  | success
  /-- With an entry of the journal that says what went wrong. -/
  | failed
  deriving Repr

namespace Ending

/-- The exit status. -/
def status : Ending → Nat
  | help | success => 0
  | badConfiguration _ | failed => 1
  | badUsage => 2

/-- What is said beside the journal by a run that has some warnings about its configuration. -/
def complaints (r : Readings) (warnings : List String) : Ending → List String
  | help | badUsage => []
  | badConfiguration f => warnings ++ [s!"Configuration error: {r.explain f}"]
  | success | failed => warnings

end Ending

namespace Command

/-- The configuration of a run, and the settings for its headers. -/
def configure (host : Host) (a : Arguments) (env : Environment) (files : FileTree) :
    Except Fault (Configuration × Settings) := do
  let env ← env.withFile host.environmentFiles files (Configuration.environmentFile files.here)
  let c := (Configuration.ofEnvironment env).withArguments a
  c.validate files
  return (c, .ofEnvironment host.room env)

/-- Lists the namespaces of the metadata. -/
def listNamespaces (host : Host) (c : Configuration) (settings : Settings) : Work Ending :=
  tryCatch (do
    Generator.session c.metadataFile settings fun g => do
      (← Work.ofExcept g.namespaces).forM fun n => Work.say host.displays n.text
    return .success) fun f => do
      if !f.isGeneration then throw f
      note ⟨.main, .error, [.text "Could not read metadata:", .cause f]⟩
      return .failed

/-- Says which headers were written. -/
def report (written : List Path) : Work Unit := do
  Progress.banner .main "GENERATION SUMMARY"
  note (.plain .main .info s!"Headers written: {written.length}")
  written.forM fun p => note (.plain .main .info s!"  - {p.text}")

/-- Notes why no headers were written. -/
def noteFailure (f : Failure) : Work Unit :=
  if f.isGeneration then note ⟨.main, .error, [.text s!"[FAILED] {f.kind}:", .cause f]⟩
  else note ⟨.main, .error, [.text "Fatal error during generation:", .cause f]⟩

/-- Makes the headers for some profiles. -/
def generate (c : Configuration) (settings : Settings) (profiles : List Profile) :
    Work Ending := do
  let directory ← Work.ofExcept (faulty c.headerDirectory)
  Work.makeDirectories directory
  note (.plain .main .info s!"Generating {profiles.length} header(s)")
  let written ← tryCatch
    (some <$> Generator.session c.metadataFile settings fun g =>
      g.writeHeaders profiles directory)
    fun f => do
      noteFailure f
      return none
  match written with
  | none => return .failed
  | some paths =>
    report paths
    return .success

/-- Does what the arguments ask for. -/
def follow (host : Host) (a : Arguments) (c : Configuration) (settings : Settings) :
    Work Ending := do
  note (.plain .main .debug s!"Metadata file: {c.metadataFile.text}")
  note (.plain .main .debug s!"Output directory: {c.outputText}")
  if a.listsNamespaces then listNamespaces host c settings
  else match Profile.select ((a.namespaces.getD []).map (·.getD "[]")) with
    | .ok profiles => generate c settings profiles
    | .error f =>
      note (.plain .main .error (f.text?.getD ""))
      return .failed

/-- Runs the command with the words of a command line.  The stamp names the log file. -/
def run (host : Host) (env : Environment) (stamp : String) (words : List String) : Work Ending :=
  watched .main "main" do
    match Arguments.ofStrings host.keepsDashes words with
    | .error .help => return .help
    | .error .usage => return .badUsage
    | .ok a => match configure host a env (← get).files with
      | .error f => return .badConfiguration (.fault f)
      | .ok (c, settings) =>
        Work.startLogging (some c.logDirectory) c.isVerbose stamp
        follow host a c settings

end Command

end ComHeaders
