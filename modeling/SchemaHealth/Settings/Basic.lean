import SchemaHealth.BlastRadius.Policy
import SchemaHealth.Json.Value
import SchemaHealth.Render.Format
import SchemaHealth.Rule.Battery
import SchemaHealth.Settings.Collector
import SchemaHealth.Settings.RuleName

/-!
# Settings

`Settings` say which rules run, the thresholds of the analyses, where reports are sent, and how they
are written unless the command line says otherwise. A rule runs unless it is switched off under its
key.
-/

namespace SchemaHealth

/-- The settings of a project. -/
structure Settings where
  /-- The rules that are switched on or off, or mentioned without saying which. -/
  rules : Dictionary String (Option Bool)
  blast : BlastPolicy
  /-- How many keys a type may have. -/
  keyLimit : Nat
  collector : Option Collector
  format : Option String
  subgraph : Option String
deriving DecidableEq

namespace Settings

/-- How many keys a type may have when nothing else is said. -/
def standardKeyLimit : Nat := 2

/-- The settings of a project that says nothing. -/
def standard : Settings := ⟨.empty, .standard, standardKeyLimit, none, none, none⟩

/-- Whether the rule with a name runs. -/
def isEnabled (s : Settings) (rule : String) : Bool :=
  ((s.rules.get? (ruleKey rule)).bind id).getD true

/-- The settings with a rule switched off, whatever they said about it in any spelling. -/
def disable (s : Settings) (rule : String) : Settings :=
  let key := ruleKey rule
  { s with rules := (s.rules.filterKeys fun other => ruleKey other ≠ key).insert key (some false) }

theorem isEnabled_disable (s : Settings) (rule : String) :
    (s.disable rule).isEnabled rule = false := by
  rw [isEnabled, disable, Dictionary.get?_insert, if_pos rfl]
  rfl

/-- The keys of the rules that are switched off, in increasing order. -/
def disabled (s : Settings) : List String :=
  (Dictionary.ofList ((s.rules.toList.filter fun entry => entry.2 = some false).map fun entry =>
    (ruleKey entry.1, ()))).keys

/-- The rules that run, in order, with their settings. -/
def activeRules (s : Settings) : List Rule :=
  (battery s.keyLimit s.blast).filter fun rule => s.isEnabled rule.name

/-- A format that settings name has to exist. -/
def validateFormat (format : Option String) : Except SettingsError Unit :=
  match format with
  | some name => if (Format.read? name).isSome then .ok () else .error (.unknownFormat name)
  | none => .ok ()

/-- The first thing wrong with the settings: thresholds, then collector, then format. -/
def validate (s : Settings) : Except SettingsError Unit := do
  s.blast.validate
  match s.collector with
  | some collector => collector.validate
  | none => pure ()
  validateFormat s.format

end Settings

/-- All rules with the settings of a project that says nothing. -/
def standardRules : List Rule := battery Settings.standardKeyLimit .standard

/-! ## As JSON -/

/-- The thresholds as JSON. -/
def BlastPolicy.toJson (p : BlastPolicy) : Json :=
  .object [("max_blast_radius", .nat p.maxRadius), ("warning_threshold", .nat p.warningRadius),
    ("critical_type_paths", .list .string p.criticalPaths)]

/-- A collector as JSON. -/
def Collector.toJson (c : Collector) : Json :=
  .object [("endpoint", .string c.endpoint), ("headers", .dictionary .string c.headers),
    ("timeout_secs", .nat c.timeout.toNat)]

/-- The settings as JSON. -/
def Settings.toJson (s : Settings) : Json :=
  .object [
    ("rules", .dictionary (fun enabled => .object [("enabled", .option .bool enabled)]) s.rules),
    ("blast_radius", s.blast.toJson),
    ("composite_keys", .object [("max_composite_keys", .nat s.keyLimit)]),
    ("reporter", .option Collector.toJson s.collector),
    ("defaults", .object [("format", .option .string s.format),
      ("subgraph", .option .string s.subgraph)])]

end SchemaHealth
