import SchemaHealth.BlastRadius.Analysis
import SchemaHealth.Cycle.Report
import SchemaHealth.Decimal.Printed
import SchemaHealth.Render.Paint

/-!
# Analyses for the terminal

`CycleReport.text` shows the cycles of a schema, `BlastAnalysis.text` its blast radii.
-/

namespace SchemaHealth

open Render (painted)

namespace CycleReport

/-- The line about the cycle at a place in the list. -/
def cycleLine (place : Nat) (c : Cycle) : String :=
  "  " ++ painted [.dim] (Text.padLeft 3 (toString (place + 1))) ++
    "  len " ++ Text.padRight 3 (toString c.length) ++ " " ++ c.display ++ "\n"

/-- How many cycles there are of each length. -/
def lengthsText (byLength : Dictionary Nat Nat) : String :=
  if byLength.isEmpty then ""
  else
    "\n" ++ painted [.bold] "BY LENGTH" ++ "  " ++
      Text.joined " | " (byLength.toList.map fun entry =>
        toString entry.1 ++ ": " ++ toString entry.2) ++ "\n"

/-- The groups of types that reach each other. -/
def groupsText (groups : List (List String)) : String :=
  if groups.isEmpty then ""
  else
    "\n" ++ painted [.bold] "TANGLED TYPE GROUPS" ++ "\n" ++
      String.join (groups.map fun group => "  " ++ Text.joined ", " group ++ "\n")

/-- The longest and the shortest cycle. -/
def extremesText (s : CycleSummary) : String :=
  match s.longest, s.shortest with
  | some longest, some shortest =>
    "\n" ++ painted [.dim] ("Longest: " ++ longest.display ++ "  Shortest: " ++
      shortest.display) ++ "\n"
  | _, _ => ""

/-- A cycle report for the terminal. -/
def text (r : CycleReport) : String :=
  "\n" ++ painted [.bold] "Type Cycles" ++ " (" ++ toString r.cycles.length ++ " found)\n" ++
    Render.ruler ++ String.join (r.cycles.mapIdx cycleLine) ++ lengthsText r.summary.byLength ++
    groupsText r.groups ++ extremesText r.summary ++ "\n"

end CycleReport

namespace BlastAnalysis

/-- The line about a violation. -/
def violationLine (v : BlastViolation) : String :=
  "  " ++ painted [Render.severityPaint v.severity] (Text.padRight 8 v.severity.text) ++ " " ++
    Text.padLeft 4 (toString v.radius) ++ "  " ++ v.message ++ "\n"

/-- How many of the widest fields are shown. -/
def widestShown : Nat := 10

/-- The fields that reach others, those with the largest radius first, equals in the order of the
graph. -/
def widest (results : List BlastResult) : List BlastResult :=
  (results.filter fun r => 1 < r.radius).mergeSort fun a b => b.radius ≤ a.radius

/-- The widest fields. -/
def widestText (results : List BlastResult) : String :=
  match widest results with
  | [] => ""
  | fields =>
    "\n" ++ painted [.bold] "WIDEST FIELDS" ++ "\n" ++
      String.join ((fields.take widestShown).map fun r =>
        "  " ++ Text.padLeft 4 (toString r.radius) ++ "  " ++ r.field ++ "\n")

/-- An analysis for the terminal. -/
def text (a : BlastAnalysis) : String :=
  "\n" ++ painted [.bold] "Null Blast Radius" ++ "\n" ++ Render.ruler ++
    "Fields: " ++ toString a.summary.totalFields ++
    "  Average radius: " ++ Decimal.writeFixed 2 a.summary.averageRadius ++
    "  Max radius: " ++ toString a.summary.maxRadius ++
    "  Critical paths affected: " ++ toString a.summary.criticalPathsAffected ++ "\n\n" ++
    painted [.bold] "VIOLATIONS" ++ " (" ++ toString a.violations.length ++ " total)\n" ++
    String.join (a.violations.map violationLine) ++ widestText a.results ++ "\n"

end BlastAnalysis

end SchemaHealth
