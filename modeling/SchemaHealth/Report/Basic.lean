import SchemaHealth.Json.Value
import SchemaHealth.Report.Location

/-!
# Reports

A report holds the score of a schema and what every rule found. Findings are itemised or, in
reports of other origin, a bare count; counts are 64-bit words, and their total wraps around.
-/

namespace SchemaHealth

/-- One finding of a rule. -/
structure Violation where
  message : String
  location : Location
deriving DecidableEq, Repr

/-- The findings of a rule: one by one, or their number alone. -/
inductive Findings where
  | items (violations : List Violation)
  | count (n : UInt64)
deriving DecidableEq, Repr

namespace Findings

/-- The number of findings. -/
def size : Findings → UInt64
  | items violations => .ofNat violations.length
  | count n => n

/-- The findings that are itemised. -/
def toList : Findings → List Violation
  | items violations => violations
  | count _ => []

end Findings

/-- What became of a rule. -/
structure RuleResult where
  rule : String
  findings : Findings
  message : String
  /-- Why the rule failed, if it did; a failed rule does not count. -/
  error : Option String
deriving DecidableEq, Repr

namespace RuleResult

/-- The result of a rule that ran. -/
def ofViolations (rule : String) (violations : List Violation) (message : String) : RuleResult :=
  ⟨rule, .items violations, message, none⟩

/-- The result of a rule that failed. -/
def failed (rule error : String) : RuleResult :=
  ⟨rule, .count 0, "Rule failed: " ++ error, some error⟩

/-- Whether the rule failed. -/
def isFailure (r : RuleResult) : Bool := r.error.isSome

end RuleResult

/-- The health of a schema. -/
structure Report where
  /-- When the schema was scored. -/
  timestamp : String
  subgraph : Option String
  score : Float
  totalFields : UInt64
  weightedViolations : Float
  results : List RuleResult
  metadata : Option (Dictionary String Json)

namespace Report

/-- The school grade of the score. A score that is no number gets the lowest. -/
def grade (r : Report) : String :=
  if r.score ≥ 90 then "A"
  else if r.score ≥ 80 then "B"
  else if r.score ≥ 70 then "C"
  else if r.score ≥ 60 then "D"
  else "F"

/-- The number of findings of all rules together. -/
def totalViolations (r : Report) : UInt64 :=
  r.results.foldl (fun total result => total + result.findings.size) 0

/-- The result of a rule, by name. -/
def rule? (r : Report) (name : String) : Option RuleResult :=
  r.results.find? fun result => result.rule = name

end Report

end SchemaHealth
