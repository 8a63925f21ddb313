import SchemaHealth.Json.Record
import SchemaHealth.Report.Basic

/-!
# Reports as JSON

`Report.toJson` writes a report with its members in a fixed order and leaves out what is absent.
`Report.ofJson?` reads one. Findings are an array when they are itemised and a number otherwise; a
score that is not finite is written `null`, which is no score when it is read.
-/

namespace SchemaHealth

namespace Location

/-- A location as JSON. -/
def toJson (l : Location) : Json :=
  .object (Json.optionalMember "line" .word l.line ++ Json.optionalMember "column" .word l.column ++
    Json.optionalMember "field" .string l.field ++ Json.optionalMember "type" .string l.type ++
    Json.optionalMember "coordinate" .string l.coordinate)

/-- The names of the fields in order. -/
def fieldNames : List String := ["line", "column", "field", "type", "coordinate"]

/-- A location read from JSON. -/
def ofJson? (value : Json) : Option Location := do
  let fields ← value.record? fieldNames
  return {
    line := ← Json.optional? fields "line" Json.word?
    column := ← Json.optional? fields "column" Json.word?
    field := ← Json.optional? fields "field" Json.string?
    type := ← Json.optional? fields "type" Json.string?
    coordinate := ← Json.optional? fields "coordinate" Json.string? }

end Location

namespace Violation

/-- A violation as JSON. -/
def toJson (v : Violation) : Json :=
  .object [("message", .string v.message), ("location", v.location.toJson)]

/-- A violation read from JSON. -/
def ofJson? (value : Json) : Option Violation := do
  let fields ← value.record? ["message", "location"]
  return {
    message := ← Json.required? fields "message" Json.string?
    location := ← Json.required? fields "location" Location.ofJson? }

end Violation

namespace Findings

/-- Findings as JSON. -/
def toJson : Findings → Json
  | items violations => .list Violation.toJson violations
  | count n => .word n

/-- Findings read from JSON. -/
def ofJson? (value : Json) : Option Findings :=
  match value with
  | .array violations => (violations.mapM Violation.ofJson?).map items
  | _ => value.word?.map count

end Findings

namespace RuleResult

/-- A result as JSON. -/
def toJson (r : RuleResult) : Json :=
  .object ([("rule", .string r.rule), ("violations", r.findings.toJson),
    ("message", .string r.message)] ++ Json.optionalMember "error" .string r.error)

/-- A result read from JSON. -/
def ofJson? (value : Json) : Option RuleResult := do
  let fields ← value.record? ["rule", "violations", "message", "error"]
  return {
    rule := ← Json.required? fields "rule" Json.string?
    findings := ← Json.required? fields "violations" Findings.ofJson?
    message := ← Json.required? fields "message" Json.string?
    error := ← Json.optional? fields "error" Json.string? }

end RuleResult

namespace Report

/-- A report as JSON. -/
def toJson (r : Report) : Json :=
  .object ([("timestamp", .string r.timestamp)] ++
    Json.optionalMember "subgraphName" .string r.subgraph ++
    [("score", .real r.score), ("totalFields", .word r.totalFields),
      ("totalWeightedViolations", .real r.weightedViolations),
      ("ruleResults", .list RuleResult.toJson r.results)] ++
    Json.optionalMember "metadata" (.dictionary id) r.metadata)

/-- The names of the fields in order. -/
def fieldNames : List String :=
  ["timestamp", "subgraphName", "score", "totalFields", "totalWeightedViolations", "ruleResults",
    "metadata"]

/-- A report read from JSON. -/
def ofJson? (value : Json) : Option Report := do
  let fields ← value.record? fieldNames
  return {
    timestamp := ← Json.required? fields "timestamp" Json.string?
    subgraph := ← Json.optional? fields "subgraphName" Json.string?
    score := ← Json.required? fields "score" Json.double?
    totalFields := ← Json.required? fields "totalFields" Json.word?
    weightedViolations := ← Json.required? fields "totalWeightedViolations" Json.double?
    results := ← Json.required? fields "ruleResults" (Json.list? RuleResult.ofJson?)
    metadata := ← Json.optional? fields "metadata" Json.dictionary? }

end Report

end SchemaHealth
