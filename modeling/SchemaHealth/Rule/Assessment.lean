import SchemaHealth.Rule.Score
import SchemaHealth.Schema.Grammar
import SchemaHealth.Settings.Collector

/-!
# Assessments

To assess a schema is to read its text, to score it, and to hand the report to a collector if there
is one. Only a text that is no schema stops an assessment; what becomes of the delivery does not
touch the report.
-/

namespace SchemaHealth

/-- What comes of sending a report to a collector: the status that the collector answers with. -/
abbrev Network := Collector → Report → Except DeliveryError UInt64

/-- A delivery that was tried. -/
structure Delivery where
  endpoint : String
  result : Except DeliveryError UInt64

/-- A report and its delivery, if it was to be delivered. -/
structure Assessment where
  report : Report
  delivery : Option Delivery

/-- The delivery of a report to a collector. -/
def Collector.deliver (c : Collector) (network : Network) (report : Report) : Delivery :=
  ⟨c.endpoint, network c report⟩

/-- The assessment of a schema text by some rules. -/
def assess (network : Network) (rules : List Rule) (collector : Option Collector)
    (details : ReportDetails) (text : String) : Except Schema.Fault Assessment := do
  let report := (← Document.parse text).report rules details
  return ⟨report, collector.map fun c => c.deliver network report⟩

end SchemaHealth
