import ComHeaders.CommandLine.Command
import Std.Time.Format

/-!
# The program

The command is a function of a workspace.  The program takes a picture of the files the
command can come across, runs the command on it, and then makes the disk look like the files
the command left.
-/

namespace ComHeaders

namespace Program

/-- The text of a location. -/
def textOf (l : Location) : String := "/" ++ "/".intercalate l

/-- What is found on the disk at a location. -/
def probe (l : Location) : IO (Option Node) := do
  match ← (IO.FS.readBinFile (textOf l)).toBaseIO with
  | .ok data => return some (.file data)
  | .error (.inappropriateType ..) => return some .directory
  | .error (.noFileOrDirectory ..) | .error (.invalidArgument ..) => return none
  | .error e => throw e

/-- Adds what is found on the way along some names. -/
def pictureAlong (t : FileTree) (l : Location) : List String → IO FileTree
  | [] => return t
  | name :: rest => do
    let next := FileTree.down l name
    if next.isEmpty then pictureAlong t next rest
    else match ← probe next with
      | some n => pictureAlong (t.set next n) next rest
      | none => return t

/-- Adds what is found along a path. -/
def picture (t : FileTree) (p : Path) : IO FileTree :=
  pictureAlong t (match p.anchor with | .here => t.here | _ => []) p.parts

/-- The variables of an environment from its listing, in which each one ends with a null
character. -/
def environmentOf (listing : String) : Environment :=
  (listing.splitOn "\x00").filterMap fun entry => match entry.splitOn "=" with
    | name :: first :: rest => some (name, "=".intercalate (first :: rest))
    | _ => none

/-- The variables of the environment: all of them where the system lists them, since an
environment file can refer to any, and otherwise those that mean something to the command. -/
def readEnvironment : IO Environment := do
  match ← (IO.FS.readFile "/proc/self/environ").toBaseIO with
  | .ok listing => return environmentOf listing
  | .error _ =>
    let names := ["METADATA_FILE_PATH", "OUTPUT_DIR", "VERBOSE"] ++
      ["RETURN_TYPE_WIDTH", "METHOD_NAME_WIDTH", "INDENT_WIDTH", "GENERALIZE_AGGREGATE_RETURNS",
        "BANNER"].map ("WINMD_" ++ ·)
    names.filterMapM fun n => do return (← IO.getEnv n).map (n, ·)

/-- The paths that a command with some arguments can come across. -/
def pathsOf (a : Arguments) (env : Environment) (stamp : String) (t : FileTree) : List Path :=
  match Command.configure .common a env t with
  | .error _ => []
  | .ok (c, _) =>
    c.logDirectory :: Work.logPath c.logDirectory stamp ::
      c.outputDirectory.toList.flatMap fun directory =>
        directory :: Profile.builtIn.map fun p => directory.join (.ofString p.outputFile)

/-- The path of the metadata, which has to be known before the configuration can be checked. -/
def metadataPath (a : Arguments) (env : Environment) (t : FileTree) : Path :=
  let env := (env.withFile EnvironmentFile.reader t
    (Configuration.environmentFile t.here)).toOption.getD env
  ((Configuration.ofEnvironment env).withArguments a).metadataFile

/-- The files that a command line can come across. -/
def takePicture (env : Environment) (stamp : String) (words : List String) : IO FileTree := do
  let here := (Path.ofString (← IO.currentDir).toString).parts
  let t := FileTree.fresh here
  let t ← picture t (Configuration.environmentFile here)
  match Arguments.ofStrings Host.common.keepsDashes words with
  | .error _ => return t
  | .ok a =>
    let t ← picture t (metadataPath a env t)
    (pathsOf a env stamp t).foldlM picture t

/-- Makes the disk look like the second tree where it differs from the first. -/
def settle (before after : FileTree) : IO Unit :=
  for (place, node) in after.nodes do
    match before.node? place, node with
    | some _, .directory => pure ()
    | none, .directory => IO.FS.createDirAll (textOf place)
    | some (.file old), .file new =>
      if old.data ≠ new.data then IO.FS.writeBinFile (textOf place) new
    | _, .file new => IO.FS.writeBinFile (textOf place) new

/-- The megabytes in use. -/
def megabytes : IO String := do
  match ← (IO.FS.readFile "/proc/self/statm").toBaseIO with
  | .ok text =>
    let pages := (((text.splitOn " ")[1]?).bind String.toNat?).getD 0
    let tenths := pages * 40960 / 1048576
    return s!"{tenths / 10}.{tenths % 10}"
  | .error _ => return "0.0"

/-- Milliseconds as seconds. -/
def secondsOf (milliseconds : Nat) : String :=
  let rest := toString (milliseconds % 1000)
  s!"{milliseconds / 1000}." ++ String.ofList (List.replicate (3 - rest.length) '0') ++ rest

/-- How the command line is used. -/
def usage : String :=
  "usage: [-h] [-o OUTPUT] [-v] [--namespace NAME] [--list-namespaces] [metadata_file]"

/-- Runs the command on the disk and says how it ended. -/
def perform (words : List String) : IO UInt32 := do
  let start ← IO.monoMsNow
  let now ← Std.Time.PlainDateTime.now
  let env ← readEnvironment
  let stamp := now.format "uuuuMMdd_HHmmss"
  let files ← takePicture env stamp words
  -- The log is written while the run goes on, so nothing is known of its end.
  let early : Readings := { megabytes := ← megabytes }
  let workspace : Workspace :=
    { files, lineOf := Entry.logLine (now.format "uuuu-MM-dd HH:mm:ss") early }
  let (result, after) := (Command.run .common env stamp words).perform workspace
  let r : Readings :=
    { seconds := secondsOf ((← IO.monoMsNow) - start), megabytes := ← megabytes }
  settle files after.files
  for line in after.shown do
    IO.println (line.render r)
  match result with
  | .error f =>
    IO.eprintln s!"{f.kind}: {r.explain f}"
    return 1
  | .ok ending =>
    match ending with
    | .help => IO.println usage
    | .badUsage => IO.eprintln usage
    | _ => pure ()
    let file := Configuration.environmentFile files.here
    for line in ending.complaints r (EnvironmentFile.warningsAt files file) do
      IO.eprintln line
    return ending.status.toUInt32

end Program

end ComHeaders

/-- Generates headers as the command line asks. -/
def main (words : List String) : IO UInt32 := ComHeaders.Program.perform words
