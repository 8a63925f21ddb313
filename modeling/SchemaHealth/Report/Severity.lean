/-!
# Severities

The three tiers of a finding, from `info` to `critical`.
-/

namespace SchemaHealth

/-- How serious a finding is. -/
inductive Severity where
  | info
  | warning
  | critical
deriving DecidableEq, Repr

namespace Severity

/-- The name of a tier. -/
def text : Severity → String
  | info => "info"
  | warning => "warning"
  | critical => "critical"

/-- The place of a tier among the tiers, the least serious first. -/
def rank : Severity → Nat
  | info => 0
  | warning => 1
  | critical => 2

/-- The tier with a name. -/
def read? (name : String) : Option Severity :=
  [info, warning, critical].find? fun s => s.text = name

end Severity

end SchemaHealth
