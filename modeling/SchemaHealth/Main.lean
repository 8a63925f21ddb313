import SchemaHealth.CommandLine.Run
import SchemaHealth.Report.Timestamp
import Std.Time.DateTime.Timestamp

/-!
# The program

The command line program takes a picture of the files that an invocation may look at, runs the
invocation on it, and then writes the files that the run has changed. No report leaves the machine:
the network is out of reach.
-/

namespace SchemaHealth.Program

open CommandLine

/-- Whether a path names a folder. -/
def isFolder (path : String) : IO Bool := do
  try (← IO.FS.realPath path).isDir catch _ => return false

/-- Bytes as a text. -/
def decode (bytes : ByteArray) : Except FileError String :=
  match String.fromUTF8? bytes with
  | some text => .ok text
  | none => .error .notText

/-- The text of a file. -/
def readFile (path : String) : IO (Except FileError String) := do
  try
    return decode (← IO.FS.readBinFile path)
  catch
    | .noFileOrDirectory .. => return .error .noSuchFile
    | e => return .error (.refused (toString e))

/-- The rest of the standard input. -/
def readInput : IO (Except FileError String) := do
  return decode (← (← IO.getStdin).readBinToEnd)

/-- Adds a file or a folder to the picture. -/
def takeIn (w : Workspace) (path : String) : IO Workspace := do
  let key := Workspace.storedForm path
  if ← isFolder path then return { w with folders := key :: w.folders }
  else
    match ← readFile path with
    | .error .noSuchFile => return w
    | content => return { w with files := w.files.insert key content }

/-- The folder that a file stands in, if its path names one. -/
def parent? (path : String) : Option String :=
  match (path.toList.reverse.dropWhile (· ≠ '/')).reverse with
  | [] => none
  | cs => some (String.ofList cs)

/-- The paths that an invocation may look at. -/
def paths (i : Invocation) : List String :=
  let named := match i.command with
    | .init | .rules => []
    | .cycles schema _ => [schema]
    | .blastRadius options => [options.schema]
    | .score options =>
      options.schema :: options.output.toList ++ (options.output.bind parent?).toList
  Settings.projectFile :: Settings.jsonProjectFile :: i.settingsFile.toList ++ named

/-- Whether an invocation reads the standard input. -/
def readsInput (i : Invocation) : Bool :=
  match i.command with
  | .init | .rules => false
  | .cycles schema _ => schema = "-"
  | .blastRadius options => options.schema = "-"
  | .score options => options.schema = "-"

/-- The picture of the files that an invocation may look at. -/
def picture (i : Invocation) : IO Workspace := do
  let input ← if readsInput i then readInput else pure (.ok "")
  let folder := (← IO.currentDir).toString
  (paths i).foldlM takeIn ⟨folder, .empty, [], input⟩

/-- The present time as reports show it. -/
def now : IO String := do
  let time ← Std.Time.Timestamp.now
  return Timestamp.write (time.toNanosecondsSinceUnixEpoch.val.toNat / 1000000)

/-- No collector is reached. -/
def unreachable : Network := fun _ _ => .error (.request "the network is out of reach")

/-- An error with its causes. -/
def explain (e : CommandError) : String :=
  match e.chain.map Cause.message with
  | [] => "Error"
  | [message] => "Error: " ++ message
  | message :: causes =>
    "Error: " ++ message ++ "\n\nCaused by:" ++
      String.join (causes.map fun cause => "\n    " ++ cause)

/-- How to call the program. -/
def usage : String :=
  "Usage: schema-scorer [OPTIONS] <init|score|cycles|blast-radius|rules|help> [ARGUMENTS]"

/-- Says why no command is run. -/
def sayStop (stop : Stop) : IO Unit :=
  match stop with
  | .help => IO.println usage
  | .version => IO.print versionText
  | .misuse => IO.eprintln usage

/-- Runs an invocation. -/
def perform (i : Invocation) : IO Nat := do
  let w ← picture i
  let outcome := Outcome.of w (i.run ⟨w, unreachable, ← now⟩)
  for file in outcome.changes do
    IO.FS.writeFile file.1 file.2
  IO.print outcome.output
  for notice in outcome.notices do
    IO.eprintln notice
  match outcome.error with
  | some e => IO.eprintln (explain e)
  | none => pure ()
  return outcome.exitCode

end SchemaHealth.Program

open SchemaHealth in
/-- The program. -/
def main (arguments : List String) : IO UInt32 := do
  let reportUrl ← IO.getEnv "SCHEMA_SCORER_REPORT_URL"
  match CommandLine.Invocation.read reportUrl arguments with
  | .error stop => do
    Program.sayStop stop
    return .ofNat stop.exitCode
  | .ok i => return .ofNat (← Program.perform i)
