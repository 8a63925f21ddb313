import SchemaHealth.Ordered
import SchemaHealth.Settings.Basic
import SchemaHealth.Settings.Tree

/-!
# Settings files

A settings file holds a record of records, all of whose fields may be missing but the endpoint of a
collector. `Settings.parse?` reads the text of a file, `Settings.load` reads a file and checks what
it says, and `Settings.ofProject` takes the first settings file of a project that loads.

Rules may be named in any spelling; of several entries for one rule the last in the file counts,
where an entry repeated under the very same spelling stands at its first place.
-/

namespace SchemaHealth

namespace Settings

/-- The formats of settings files. -/
inductive FileFormat where
  | toml
  | json
deriving DecidableEq, Repr

namespace FileFormat

/-- The name at the end of a path. -/
def lastName (path : List Char) : List Char :=
  ((path.reverse.dropWhile (· = '/')).takeWhile (· ≠ '/')).reverse

/-- Whether a path has the extension `json`: it ends in `.json`, with something before that. -/
def hasJsonExtension (path : String) : Bool :=
  let name := lastName path.toList
  ".json".toList.isSuffixOf name && ".json".length < name.length

/-- The format of a file: JSON by its extension, otherwise TOML. -/
def ofPath (path : String) : FileFormat := if hasJsonExtension path then json else toml

/-- The value that a text in a format holds. -/
def tree? (text : String) : FileFormat → Option Tree
  | toml => (Toml.parse? text).map fun entries => Tree.ofToml (.table entries)
  | json => (Json.Tree.parse? text).map Tree.ofJson

/-- Whether a record given as a list may have items beyond its fields. -/
def toleratesSurplus : FileFormat → Bool
  | toml => true
  | json => false

/-- The fields of a record. -/
def fields? (format : FileFormat) : List String → Tree → Option Tree.Fields :=
  Tree.fields? format.toleratesSurplus

/-- Whether a rule is switched on or off. -/
def ruleSwitch? (format : FileFormat) (tree : Tree) : Option (Option Bool) := do
  let fields ← format.fields? ["enabled"] tree
  fields.getD? "enabled" (Tree.nullable? Tree.bool?) none

/-- The entries for rules under the keys of the rules, in order. -/
def ruleEntries? (format : FileFormat) (tree : Tree) : Option (List (String × Option Bool)) := do
  let entries ← tree.entries? format.ruleSwitch?
  return (settled entries).map fun entry => (ruleKey entry.1, entry.2)

/-- The rules that are switched on or off. -/
def rules? (format : FileFormat) (tree : Tree) : Option (Dictionary String (Option Bool)) :=
  (format.ruleEntries? tree).map .ofList

/-- The thresholds of the blast radius. -/
def blastPolicy? (format : FileFormat) (tree : Tree) : Option BlastPolicy := do
  let fields ←
    format.fields? ["max_blast_radius", "warning_threshold", "critical_type_paths"] tree
  let standard := BlastPolicy.standard
  return {
    maxRadius := ← fields.getD? "max_blast_radius" Tree.nat? standard.maxRadius
    warningRadius := ← fields.getD? "warning_threshold" Tree.nat? standard.warningRadius
    criticalPaths :=
      ← fields.getD? "critical_type_paths" (Tree.list? Tree.text?) standard.criticalPaths }

/-- The number of keys that a type may have. -/
def keyLimit? (format : FileFormat) (tree : Tree) : Option Nat := do
  let fields ← format.fields? ["max_composite_keys"] tree
  fields.getD? "max_composite_keys" Tree.nat? standardKeyLimit

/-- A collector. -/
def collector? (format : FileFormat) (tree : Tree) : Option Collector := do
  let fields ← format.fields? ["endpoint", "headers", "timeout_secs"] tree
  let headers ← fields.getD? "headers" (Tree.entries? Tree.text?) []
  return {
    endpoint := ← fields.get? "endpoint" Tree.text?
    headers := .ofList headers
    timeout := .ofNat (← fields.getD? "timeout_secs" Tree.nat? Collector.standardTimeout.toNat) }

/-- The format and the subgraph of reports, unless the command line says otherwise. -/
def defaults? (format : FileFormat) (tree : Tree) : Option (Option String × Option String) := do
  let fields ← format.fields? ["format", "subgraph"] tree
  return (← fields.getD? "format" (Tree.nullable? Tree.text?) none,
    ← fields.getD? "subgraph" (Tree.nullable? Tree.text?) none)

/-- The settings that a tree holds. -/
def settings? (format : FileFormat) (tree : Tree) : Option Settings := do
  let fields ←
    format.fields? ["rules", "blast_radius", "composite_keys", "reporter", "defaults"] tree
  let (reportFormat, subgraph) ← fields.getD? "defaults" format.defaults? (none, none)
  return {
    rules := ← fields.getD? "rules" format.rules? .empty
    blast := ← fields.getD? "blast_radius" format.blastPolicy? .standard
    keyLimit := ← fields.getD? "composite_keys" format.keyLimit? standardKeyLimit
    collector := ← fields.getD? "reporter" (Tree.nullable? format.collector?) none
    format := reportFormat
    subgraph }

end FileFormat

/-- The settings in the text of a file. -/
def parse? (format : FileFormat) (text : String) : Option Settings := do
  format.settings? (← format.tree? text)

/-- The settings in a file, which have to be valid. Files are given by what reading them gives. -/
def load (read : String → Except FileError String) (path : String) :
    Except SettingsError Settings := do
  let text ← (read path).mapError (.unreadable path)
  match parse? (.ofPath path) text with
  | none => .error (.malformed path)
  | some settings => do
    settings.validate
    return settings

/-- The name of a project's settings file. -/
def projectFile : String := "schema-scorer.toml"

/-- The name of the settings file that is looked for next. -/
def jsonProjectFile : String := ".schema-scorer.json"

/-- The settings of a project: those of the first of its files that loads. -/
def ofProject (read : String → Except FileError String) : Settings :=
  match load read projectFile with
  | .ok settings => settings
  | .error _ =>
    match load read jsonProjectFile with
    | .ok settings => settings
    | .error _ => standard

/-- The lines of `starterFile`. -/
def starterLines : List String := [
  "# schema-scorer configuration",
  "",
  "# Switch individual rules off by name.",
  "# [rules.plural-collections]",
  "# enabled = false",
  "",
  "[blast_radius]",
  "max_blast_radius = 5",
  "warning_threshold = 3",
  "# Field prefixes escalated at the warning threshold",
  "critical_type_paths = []",
  "",
  "[composite_keys]",
  "max_composite_keys = 2",
  "",
  "# Forward every report to a collector.",
  "# [reporter]",
  "# endpoint = \"https://schema-health.example.com/reports\"",
  "# timeout_secs = 10",
  "# headers = \x7b Authorization = \"Bearer <token>\" \x7d",
  "",
  "[defaults]",
  "format = \"text\"",
  "# subgraph = \"accounts\""]

/-- The settings file to start a project with. -/
def starterFile : String := String.join (starterLines.map (· ++ "\n"))

end Settings

end SchemaHealth
