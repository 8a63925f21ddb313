import SchemaHealth.CommandLine.Arguments
import SchemaHealth.CommandLine.Values

/-!
# Invocations

An `Invocation` says what to do: a command with its options, and the options that every command
has. The latter may stand before or after the command; where both are given, the ones after it
count.
-/

namespace SchemaHealth.CommandLine

/-- The options of `score`. -/
structure ScoreOptions where
  schema : String
  format : Option Format
  /-- The file that the report is written to. -/
  output : Option String
  subgraph : Option String
  /-- Where the report is sent. -/
  reportUrl : Option String
  headers : List (String × String)
  /-- How long sending may take, in seconds. -/
  reportTimeout : Option UInt64
  metadata : List (String × String)
  /-- The score below which the command fails. -/
  failUnder : Option Float
  skippedRules : List String

/-- The options of `blast-radius`. -/
structure BlastOptions where
  schema : String
  maxRadius : Option Nat
  warningRadius : Option Nat
  criticalPaths : List String
  format : Option Format

/-- What to do. -/
inductive Command where
  | init
  | score (options : ScoreOptions)
  | cycles (schema : String) (format : Option Format)
  | blastRadius (options : BlastOptions)
  | rules

/-- A command and the options that every command has. -/
structure Invocation where
  settingsFile : Option String
  logLevel : LogLevel
  isSilent : Bool
  command : Command

/-- How much an invocation logs. -/
def Invocation.effectiveLogLevel (i : Invocation) : LogLevel :=
  if i.isSilent then .warn else i.logLevel

/-! ## The rules for arguments -/

namespace OptionRule

/-- An option that may be given once. -/
def single (name : String) (read? : String → Option α) (letter : Option Char) : OptionRule :=
  ⟨name, letter, .value false fun text => (read? text).isSome⟩

/-- An option that may be repeated. -/
def repeatable (name : String) (read? : String → Option α) : OptionRule :=
  ⟨name, none, .value true fun text => (read? text).isSome⟩

/-- The options that every command has. -/
def common : List OptionRule :=
  [single "config" path? (some 'c'), single "log-level" logLevel? none, ⟨"silent", none, .flag⟩,
    ⟨"help", some 'h', .stop .help⟩]

/-- The option for the format of the output. -/
def format : OptionRule := single "format" format? (some 'f')

end OptionRule

namespace ArgumentRules

/-- The words that start a command. -/
def commandNames : List String := ["init", "score", "cycles", "blast-radius", "rules", "help"]

/-- The arguments before the command. -/
def top : ArgumentRules where
  options := ⟨"version", some 'V', .stop .version⟩ :: OptionRule.common
  operand := none
  commands := commandNames

/-- The arguments of a command that looks at no schema. -/
def bare : ArgumentRules := ⟨OptionRule.common, none, []⟩

/-- The arguments of a command that looks at a schema, with its own options. -/
def onSchema (options : List OptionRule) : ArgumentRules :=
  ⟨options ++ OptionRule.format :: OptionRule.common, some fun text => (path? text).isSome, []⟩

/-- The arguments of `score`. -/
def score : ArgumentRules :=
  onSchema [.single "output" path? (some 'o'), .single "subgraph" some none,
    .single "report-url" some none, .repeatable "header" keyValue?,
    .single "report-timeout" word? none, .repeatable "metadata" keyValue?,
    .single "fail-under" double? none, .repeatable "skip-rule" some]

/-- The arguments of `cycles`. -/
def cycles : ArgumentRules := onSchema []

/-- The arguments of `blast-radius`. -/
def blastRadius : ArgumentRules :=
  onSchema [.single "max" threshold? none, .single "warning" threshold? none,
    .repeatable "critical-path" some]

end ArgumentRules

/-! ## Reading invocations -/

namespace Arguments

/-- The operand, which has to be there. -/
def schema (a : Arguments) : Except Stop String :=
  match a.operand with
  | some path => .ok path
  | none => .error .misuse

/-- The value of an option, read. -/
def get? (a : Arguments) (name : String) (read? : String → Option α) : Option α :=
  a.value? name >>= read?

/-- The values of an option, read. -/
def getAll (a : Arguments) (name : String) (read? : String → Option α) : List α :=
  (a.values name).filterMap read?

end Arguments

/-- The options of `score`. The endpoint may come from the environment. -/
def scoreOptions (reportUrl : Option String) (a : Arguments) : Except Stop ScoreOptions := do
  return {
    schema := ← a.schema
    format := a.get? "format" format?
    output := a.value? "output"
    subgraph := a.value? "subgraph"
    reportUrl := a.value? "report-url" <|> reportUrl
    headers := a.getAll "header" keyValue?
    reportTimeout := a.get? "report-timeout" word?
    metadata := a.getAll "metadata" keyValue?
    failUnder := a.get? "fail-under" double?
    skippedRules := a.values "skip-rule" }

/-- The options of `blast-radius`. -/
def blastOptions (a : Arguments) : Except Stop BlastOptions := do
  return {
    schema := ← a.schema
    maxRadius := a.get? "max" threshold?
    warningRadius := a.get? "warning" threshold?
    criticalPaths := a.values "critical-path"
    format := a.get? "format" format? }

/-- What `help` is asked about: nothing or one command. -/
def helpStop : List String → Stop
  | [] => .help
  | [name] => if ArgumentRules.commandNames.contains name then .help else .misuse
  | _ => .misuse

/-- A command and its arguments, by the name of the command. -/
def readCommand (reportUrl : Option String) (name : String) (rest : List String) :
    Except Stop (Command × Arguments) :=
  match name with
  | "init" => do return (.init, ← ArgumentRules.bare.readAll rest)
  | "score" => do
    let a ← ArgumentRules.score.readAll rest
    return (.score (← scoreOptions reportUrl a), a)
  | "cycles" => do
    let a ← ArgumentRules.cycles.readAll rest
    return (.cycles (← a.schema) (a.get? "format" format?), a)
  | "blast-radius" => do
    let a ← ArgumentRules.blastRadius.readAll rest
    return (.blastRadius (← blastOptions a), a)
  | "rules" => do return (.rules, ← ArgumentRules.bare.readAll rest)
  | _ => .error (helpStop rest)

/-- An invocation from the arguments of the program and the endpoint in its environment. -/
def Invocation.read (reportUrl : Option String) (arguments : List String) :
    Except Stop Invocation := do
  match ← ArgumentRules.top.read false .start arguments with
  | (_, none) => .error .misuse
  | (r, some (name, rest)) => do
    let (command, after) ← readCommand reportUrl name rest
    let before ← r.settle
    let logLevel := after.get? "log-level" logLevel? <|> before.get? "log-level" logLevel?
    return {
      settingsFile := after.value? "config" <|> before.value? "config"
      logLevel := logLevel.getD .info
      isSilent := after.has "silent" || before.has "silent"
      command }

end SchemaHealth.CommandLine
