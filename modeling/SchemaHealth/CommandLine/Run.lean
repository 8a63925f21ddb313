import SchemaHealth.CommandLine.Action
import SchemaHealth.CommandLine.Invocation
import SchemaHealth.Json.Parser
import SchemaHealth.Render.Output
import SchemaHealth.Rule.Assessment
import SchemaHealth.Settings.File

/-!
# Running commands

Each command is an action whose steps stand in the order in which they are taken.
`Invocation.run` carries out an invocation in a workspace, and `Outcome.of` makes the outcome of the
program of how the run ends: what was printed and written up to then, and the exit code.
-/

namespace SchemaHealth.CommandLine

/-- The text that the program says about its version. -/
def versionText : String := "schema-scorer 0.3.0\n"

/-- The exit code when no command is run. -/
def Stop.exitCode : Stop → Nat
  | help | version => 0
  | misuse => 2

/-- What becomes of a run of the program. -/
structure Outcome where
  exitCode : Nat
  output : String
  notices : List String
  error : Option CommandError
  workspace : Workspace
  /-- The files that are new or changed, with their texts. -/
  changes : List (String × String)

/-- The outcome of a run that was started in a workspace. It ends with an error or by saying whether
the exit code is to be a failing one all the same. -/
def Outcome.of (before : Workspace) (ending : Ending Bool) : Outcome :=
  let session := ending.session
  let (exitCode, error) := match ending with
    | .ok isFailing _ => (if isFailing then 1 else 0, none)
    | .error e _ => (1, some e)
  ⟨exitCode, session.output, session.notices, error, session.workspace,
    session.workspace.changes before⟩

/-- What a command runs with besides its own options. -/
structure Surroundings where
  workspace : Workspace
  network : Network
  /-- The time of the run, as reports show it. -/
  timestamp : String

/-- The settings in effect: those of the file that is named, which has to load, or else those of the
project. -/
def settings (w : Workspace) (file : Option String) : Except CommandError Settings :=
  match file with
  | some path => (Settings.load w.read path).mapError (.settingsFile path)
  | none => .ok (Settings.ofProject w.read)

/-- The text of a schema; a dash stands for the standard input. -/
def readSchema (w : Workspace) (path : String) : Except CommandError String :=
  if path = "-" then w.input.mapError .unreadableInput
  else (w.read path).mapError (.unreadableSchema path)

/-- The format of the output: the one asked for, else that of the settings, else text. -/
def outputFormat (asked : Option Format) (s : Settings) : Except CommandError Format :=
  match asked, s.format with
  | some format, _ => .ok format
  | none, none => .ok .text
  | none, some name =>
    match Format.read? name with
    | some format => .ok format
    | none => .error (.unknownFormat name)

/-- Checks settings that are in effect. -/
def check (result : Except SettingsError Unit) : Except CommandError Unit :=
  result.mapError .settings

/-! ## Inspection -/

/-- Reads a schema for inspection. -/
def inspect (path : String) : Action Document := do
  let text ← readSchema (← Action.workspace) path
  (Document.parse text).mapError (CommandError.badSchema .inspection path)

/-- Lists the cycles of a schema. -/
def runCycles (s : Settings) (path : String) (format : Option Format) : Action Unit := do
  let format ← outputFormat format s
  let d ← inspect path
  Action.print (d.cycleReport.render format)

/-- The thresholds of the settings with those of the command line in their place. -/
def BlastOptions.policy (o : BlastOptions) (p : BlastPolicy) : BlastPolicy where
  maxRadius := o.maxRadius.getD p.maxRadius
  warningRadius := o.warningRadius.getD p.warningRadius
  criticalPaths := if o.criticalPaths.isEmpty then p.criticalPaths else o.criticalPaths

/-- Measures the blast radii of a schema. -/
def runBlastRadius (s : Settings) (o : BlastOptions) : Action Unit := do
  let policy := o.policy s.blast
  check policy.validate
  let format ← outputFormat o.format s
  let d ← inspect o.schema
  Action.print ((d.blastAnalysis policy).render format)

/-- The line about a rule in the list of rules. -/
def ruleLine (place : Nat) (rule : Rule) : String :=
  "  " ++ Text.padLeft 2 (toString (place + 1)) ++ ". " ++ Text.padRight 20 rule.name ++
    " weight " ++ Text.padLeft 4 (Decimal.Style.plain.write rule.weight) ++ "  " ++
    rule.description ++ "\n"

/-- Lists the rules. -/
def runRules : Action Unit :=
  Action.print ("\nRules (registration order)\n\n" ++ String.join (standardRules.mapIdx ruleLine) ++
    "\nDisable a rule with [rules.<name>] enabled = false in schema-scorer.toml")

/-! ## Starting a project -/

/-- Writes a settings file to start a project with, unless there is one. -/
def runInit : Action Unit := do
  let w ← Action.workspace
  let path := w.folder ++ "/" ++ Settings.projectFile
  if w.contains Settings.projectFile then throw (.starterFileExists path)
  Action.write Settings.projectFile Settings.starterFile (.unwritableStarterFile path)
  Action.print ("✓ Created " ++ path)
  Action.print ("\nNext steps:\n" ++
    "  schema-scorer score schema.graphql Score a schema\n" ++
    "  schema-scorer rules See rule weights")

/-! ## Scoring -/

namespace ScoreOptions

/-- Where the report is sent: the endpoint of the command line in place of the collector of the
settings, with the headers and the timeout of the command line in either case. -/
def collector? (o : ScoreOptions) (s : Settings) : Option Collector := do
  let c ← (o.reportUrl.map Collector.atEndpoint) <|> s.collector
  return { c with
    headers := o.headers.foldl (fun headers entry => headers.insert entry.1 entry.2) c.headers
    timeout := o.reportTimeout.getD c.timeout }

/-- A value of the metadata: the value of a JSON text, or the text itself. -/
def metadataValue (text : String) : Json := (Json.parse? text).getD (.string text)

/-- The metadata of the report; of several values for a key the last one counts. -/
def reportMetadata? (o : ScoreOptions) : Option (Dictionary String Json) :=
  if o.metadata.isEmpty then none
  else some (.ofList (o.metadata.map fun entry => (entry.1, metadataValue entry.2)))

/-- What the report says besides the findings. -/
def details (o : ScoreOptions) (s : Settings) (timestamp : String) : ReportDetails :=
  ⟨timestamp, o.subgraph <|> s.subgraph, o.reportMetadata?⟩

/-- Says whether the command fails for its score, which is when it does not reach the one that is
asked for. No score at all reaches none, and none is reached by no score. -/
def gate (o : ScoreOptions) (score : Float) : Action Bool := do
  match o.failUnder with
  | none => return false
  | some threshold =>
    if threshold ≤ score then return false
    Action.notify ("Failing due to --fail-under=" ++ Decimal.Style.plain.write threshold ++
      " (score " ++ Decimal.writeFixed 2 score ++ ")")
    return true

end ScoreOptions

/-- Puts the report out: into the file that is asked for, or on the standard output. -/
def putOut (output : Option String) (text : String) : Action Unit :=
  match output with
  | some path => do
    Action.write path text (.unwritableReport path)
    Action.notify ("Report written to: " ++ path)
  | none => Action.print text

/-- Checks the collector that the report is sent to, if there is one. -/
def checkCollector (collector : Option Collector) : Except CommandError Unit :=
  match collector with
  | some c => check c.validate
  | none => .ok ()

/-- Computes the assessment that `score` reports, and the format to report it in. -/
def assessSchema (network : Network) (timestamp : String) (s : Settings) (o : ScoreOptions) :
    Action (Assessment × Format) := do
  let s := o.skippedRules.foldl Settings.disable s
  let format ← outputFormat o.format s
  let collector := o.collector? s
  checkCollector collector
  check s.validate
  let text ← readSchema (← Action.workspace) o.schema
  let assessment ← (assess network s.activeRules collector (o.details s timestamp) text).mapError
    (CommandError.badSchema .scoring o.schema)
  return (assessment, format)

/-- Scores a schema. The command fails after putting the report out when the score is too low. -/
def runScore (network : Network) (timestamp : String) (s : Settings) (o : ScoreOptions) :
    Action Bool := do
  -- No step asks what has become of the delivery.
  let (assessment, format) ← assessSchema network timestamp s o
  putOut o.output (assessment.report.render format)
  o.gate assessment.report.score

/-! ## All commands -/

/-- Loads the settings in effect. -/
def loadSettings (file : Option String) : Action Settings := do
  settings (← Action.workspace) file

/-- What an invocation does. It says whether the exit code is to be a failing one. -/
def Invocation.action (i : Invocation) (network : Network) (timestamp : String) : Action Bool := do
  match i.command with
  | .init => runInit; return false
  | .rules => runRules; return false
  | .score options => runScore network timestamp (← loadSettings i.settingsFile) options
  | .cycles schema format => runCycles (← loadSettings i.settingsFile) schema format; return false
  | .blastRadius options => runBlastRadius (← loadSettings i.settingsFile) options; return false

/-- Carries out an invocation. -/
def Invocation.run (i : Invocation) (surroundings : Surroundings) : Ending Bool :=
  i.action surroundings.network surroundings.timestamp (.start surroundings.workspace)

end SchemaHealth.CommandLine
