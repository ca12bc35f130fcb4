import ComHeaders.CommandLine.Arguments
import ComHeaders.Host

/-!
# Configuration

A run is configured by its arguments, by the environment, and by defaults, in this order of
precedence.  An environment file in the working directory can add to the environment.
-/

namespace ComHeaders

/-- What a run works with. -/
structure Configuration where
  metadataFile : Path
  /-- The directory for the headers; none if it was asked for without being named. -/
  outputDirectory : Option Path
  isVerbose : Bool
  logDirectory : Path
  deriving DecidableEq, Repr

/-- The environment with the variables of the file at a path, if something is there. -/
def Environment.withFile (reader : EnvironmentReader) (env : Environment) (files : FileTree)
    (p : Path) : Except Fault Environment := do
  match ← files.probe p with
  | some _ => reader.load env files p
  | none => return env

namespace Configuration

/-- Where the environment file of a directory is. -/
def environmentFile (here : Location) : Path := ⟨.root, here ++ [".env"]⟩

/-- The configuration an environment gives. -/
def ofEnvironment (env : Environment) : Configuration where
  metadataFile :=
    .ofString ((env.lookup "METADATA_FILE_PATH").getD "resources/Windows.Win32.winmd.json.gz")
  outputDirectory := some (.ofString ((env.lookup "OUTPUT_DIR").getD "output"))
  isVerbose := isSwitchedOn ["true", "1", "yes"] ((env.lookup "VERBOSE").getD "false")
  logDirectory := .ofString "logs"

/-- The configuration with what the arguments ask for.  They can ask for more to be said, but
not for less. -/
def withArguments (c : Configuration) (a : Arguments) : Configuration :=
  { c with
    metadataFile := a.metadataFile.getD c.metadataFile
    outputDirectory := a.output.getD c.outputDirectory
    isVerbose := a.isVerbose || c.isVerbose }

/-- Checks that the metadata file is there. -/
def validate (c : Configuration) (files : FileTree) : Except Fault Unit := do
  match ← files.probe c.metadataFile with
  | none => throw (.metadataNotFound c.metadataFile.text)
  | some .directory => throw (.notAFile c.metadataFile.text)
  | some (.file _) => return ()

/-- The directory for the headers where one is needed. -/
def headerDirectory (c : Configuration) : Except Fault Path :=
  match c.outputDirectory with
  | some p => .ok p
  | none => .error .notAnObject

/-- The text by which the journal calls the directory for the headers. -/
def outputText (c : Configuration) : String := (c.outputDirectory.map Path.text).getD "[]"

end Configuration

end ComHeaders
