import SchemaHealth.Report.Severity
import SchemaHealth.Settings.Error

/-!
# Which blast radii are too large

The blast radius of a field is the number of fields that cannot be read when it is null, the field
itself included. A policy says from which radius on a field is critical, and from which it is a
warning; a warning only counts on a critical path.
-/

namespace SchemaHealth

/-- The thresholds for blast radii. -/
structure BlastPolicy where
  /-- From this radius on a field is critical. -/
  maxRadius : Nat
  /-- From this radius on a field is a warning. -/
  warningRadius : Nat
  /-- The fields that start with one of these texts lie on a critical path. -/
  criticalPaths : List String
deriving DecidableEq, Repr

namespace BlastPolicy

/-- The thresholds used when nothing else is said. -/
def standard : BlastPolicy := ⟨5, 3, []⟩

/-- The tier of a radius. -/
def severity (p : BlastPolicy) (radius : Nat) : Severity :=
  if p.maxRadius ≤ radius then .critical
  else if p.warningRadius ≤ radius then .warning
  else .info

/-- Whether a field lies on a critical path. -/
def isCriticalPath (p : BlastPolicy) (field : String) : Bool :=
  p.criticalPaths.any fun path => path.toList.isPrefixOf field.toList

/-- Thresholds are positive and in order. -/
def validate (p : BlastPolicy) : Except SettingsError Unit :=
  if p.maxRadius = 0 ∨ p.warningRadius = 0 then .error .zeroThreshold
  else if p.maxRadius < p.warningRadius then .error (.warningAboveMax p.warningRadius p.maxRadius)
  else .ok ()

end BlastPolicy

end SchemaHealth
