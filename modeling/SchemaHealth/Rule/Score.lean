import SchemaHealth.Rule.Basic

/-!
# Scores

Every rule costs its weight times its violations to the power 1.5, so that many violations of one
rule cost more than the same number spread over several. The score is 100 less the cost per field,
in percent; it may be negative, and a schema without fields has no score. Rules that failed cost
nothing.
-/

namespace SchemaHealth

/-- What a number of violations of a rule with a weight costs. -/
def cost (weight : Float) (violations : UInt64) : Float :=
  if violations = 0 then 0 else weight * (Decimal.ofNat violations.toNat).pow 1.5

/-- The score of a schema with a number of fields and a total cost. -/
def scoreOf (totalFields : UInt64) (totalCost : Float) : Float :=
  100 * (1 - totalCost / Decimal.ofNat totalFields.toNat)

/-- What a report says besides the findings. -/
structure ReportDetails where
  timestamp : String
  subgraph : Option String
  metadata : Option (Dictionary String Json)

/-- The cost of the rules that did not fail, summed in order. -/
def totalCost (outcomes : List (Rule × RuleResult)) : Float :=
  outcomes.foldl
    (fun total outcome =>
      if outcome.2.isFailure then total
      else total + cost outcome.1.weight outcome.2.findings.size)
    0

/-- The report on a schema by some rules. -/
def Document.report (d : Document) (rules : List Rule) (details : ReportDetails) : Report :=
  let outcomes := rules.map fun rule => (rule, rule.run d)
  let total := totalCost outcomes
  { timestamp := details.timestamp
    subgraph := details.subgraph
    score := scoreOf (.ofNat d.totalFields) total
    totalFields := .ofNat d.totalFields
    weightedViolations := total
    results := outcomes.map (·.2)
    metadata := details.metadata }

end SchemaHealth
