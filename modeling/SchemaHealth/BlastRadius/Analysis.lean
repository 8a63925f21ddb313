import SchemaHealth.BlastRadius.Policy
import SchemaHealth.Decimal.Double
import SchemaHealth.Graph.Reach
import SchemaHealth.Graph.RequiredReads
import SchemaHealth.Json.Value

/-!
# Blast radii

`BlastAnalysis.ofGraph` measures every node of a graph of required reads, lists the fields that a
policy objects to and sums up. Fields come in the order of the graph throughout.
-/

namespace SchemaHealth

/-- What a null in one field does. -/
structure BlastResult where
  field : String
  /-- The fields that cannot be read, the field itself first. -/
  affected : List String
  severity : Severity
  onCriticalPath : Bool
deriving DecidableEq, Repr

/-- The number of fields that cannot be read. -/
def BlastResult.radius (r : BlastResult) : Nat := r.affected.length

/-- A field that a policy objects to. -/
structure BlastViolation where
  field : String
  radius : Nat
  severity : Severity
  message : String
deriving DecidableEq, Repr

/-- The number of fields in each tier. -/
structure SeverityCounts where
  critical : Nat
  warning : Nat
  info : Nat
deriving DecidableEq, Repr

/-- The tiers of some findings, counted. -/
def SeverityCounts.of (tiers : List Severity) : SeverityCounts :=
  ⟨tiers.count .critical, tiers.count .warning, tiers.count .info⟩

/-- Statistics of all fields of a graph. -/
structure BlastSummary where
  totalFields : Nat
  violationTiers : SeverityCounts
  fieldTiers : SeverityCounts
  averageRadius : Float
  maxRadius : Nat
  criticalPathsAffected : Nat

/-- All about the blast radii in a graph. -/
structure BlastAnalysis where
  violations : List BlastViolation
  results : List BlastResult
  summary : BlastSummary

namespace BlastAnalysis

/-- The measure of one field. -/
def measure (g : Graph) (policy : BlastPolicy) (field : String) : BlastResult :=
  let affected := g.reach field
  ⟨field, affected, policy.severity affected.length, policy.isCriticalPath field⟩

/-- The objection to a field: a critical field always, a warning on a critical path. -/
def objection? (policy : BlastPolicy) (r : BlastResult) : Option BlastViolation :=
  if policy.maxRadius ≤ r.radius then
    some ⟨r.field, r.radius, .critical,
      "Field " ++ r.field ++ " has a null blast radius of " ++ toString r.radius ++
        ", exceeding maximum of " ++ toString policy.maxRadius⟩
  else if policy.warningRadius ≤ r.radius ∧ r.onCriticalPath then
    some ⟨r.field, r.radius, .warning,
      "Critical path field " ++ r.field ++ " has a concerning null blast radius of " ++
        toString r.radius⟩
  else none

/-- The average of some radii, zero if there are none. -/
def average (radii : List Nat) : Float :=
  if radii.isEmpty then 0
  else Decimal.ofNat (radii.foldl (· + ·) 0) / Decimal.ofNat radii.length

/-- The statistics of some results and the objections to them. -/
def summarize (results : List BlastResult) (violations : List BlastViolation) : BlastSummary where
  totalFields := results.length
  violationTiers := .of (violations.map (·.severity))
  fieldTiers := .of (results.map (·.severity))
  averageRadius := average (results.map (·.radius))
  maxRadius := (results.map (·.radius)).foldl max 0
  criticalPathsAffected := violations.countP fun v =>
    results.any fun r => r.field = v.field ∧ r.onCriticalPath

/-- The analysis of a graph under a policy. -/
def ofGraph (g : Graph) (policy : BlastPolicy) : BlastAnalysis :=
  let results := g.nodes.map (measure g policy)
  let violations := results.filterMap (objection? policy)
  ⟨violations, results, summarize results violations⟩

end BlastAnalysis

/-- The analysis of the required reads of a schema. -/
def Document.blastAnalysis (d : Document) (policy : BlastPolicy) : BlastAnalysis :=
  .ofGraph d.requiredReads policy

/-! ## As JSON -/

/-- A result as JSON, without its field. -/
def BlastResult.toJson (r : BlastResult) : Json :=
  .object [("blastRadius", .nat r.radius), ("affectedFields", .list .string r.affected),
    ("severity", .string r.severity.text), ("isCriticalPath", .bool r.onCriticalPath)]

/-- An objection as JSON. -/
def BlastViolation.toJson (v : BlastViolation) : Json :=
  .object [("fieldPath", .string v.field), ("blastRadius", .nat v.radius),
    ("severity", .string v.severity.text), ("message", .string v.message)]

/-- The counts as JSON. -/
def SeverityCounts.toJson (c : SeverityCounts) : Json :=
  .object [("critical", .nat c.critical), ("warning", .nat c.warning), ("info", .nat c.info)]

/-- The statistics as JSON. -/
def BlastSummary.toJson (s : BlastSummary) : Json :=
  .object [("totalFields", .nat s.totalFields),
    ("violationsBySeverity", s.violationTiers.toJson),
    ("fieldsBySeverity", s.fieldTiers.toJson), ("averageBlastRadius", .real s.averageRadius),
    ("maxBlastRadius", .nat s.maxRadius),
    ("criticalPathsAffected", .nat s.criticalPathsAffected)]

/-- The analysis as JSON, with the fields in the order of the graph. -/
def BlastAnalysis.toJson (a : BlastAnalysis) : Json :=
  .object [("violations", .list BlastViolation.toJson a.violations),
    ("analysis", .object (a.results.map fun r => (r.field, r.toJson))),
    ("summary", a.summary.toJson)]

end SchemaHealth
