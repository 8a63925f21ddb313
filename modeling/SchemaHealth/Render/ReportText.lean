import SchemaHealth.Decimal.Printed
import SchemaHealth.Render.Paint
import SchemaHealth.Report.Basic

/-!
# Reports for the terminal

`Report.lines` lays a report out as a list of `ReportLine`s: a heading, the figures, and for every
rule a line of its own, followed by the first of its violations and a note on how many are left
out. `Report.text` writes the lines out. A line here is a unit of the layout; the texts of a report
may hold line breaks of their own.
-/

namespace SchemaHealth

open Render (painted)

/-- A unit of the layout of a report. -/
inductive ReportLine where
  | heading (subgraph : Option String)
  | figures (score : Float) (grade : String) (fields : UInt64) (weighted : Float)
  | rules (total : UInt64)
  | rule (name : String) (count : UInt64) (message : String) (isFailure : Bool)
  | violation (place message : String)
  | leftOut (n : Nat)
  | blank
deriving Repr

namespace ReportLine

/-- The score with the paint of its range. -/
def scoreText (score : Float) : String :=
  if !score.isFinite then painted [.grey] "n/a"
  else
    let paint : Render.Paint :=
      if score ≥ 80 then .green else if score ≥ 60 then .yellow else .red
    painted [paint] (Decimal.writeFixed 1 score ++ "/100")

/-- The paint of a grade. -/
def gradePaint (grade : String) : Render.Paint :=
  if grade = "A" then .green
  else if grade = "B" then .lightGreen
  else if grade = "C" then .yellow
  else if grade = "D" then .lightRed
  else .red

/-- The mark in front of a rule: whether it failed, was kept or was broken. -/
def mark (count : UInt64) (isFailure : Bool) : String :=
  if isFailure then painted [.magenta] "!"
  else if count = 0 then painted [.green] "✓"
  else painted [.red] "✗"

/-- A count as text. -/
def countText (n : UInt64) : String := toString n.toNat

/-- A line as text, with the line break after it. -/
def text : ReportLine → String
  | heading subgraph =>
    "\n" ++ painted [.bold] "Schema Health" ++
      (match subgraph with
        | some name => " " ++ painted [.dim] ("(" ++ name ++ ")")
        | none => "") ++ "\n" ++ Render.ruler
  | figures score grade fields weighted =>
    "Score: " ++ painted [.bold] (scoreText score) ++
      "  Grade: " ++ painted [gradePaint grade, .bold] grade ++
      "  Fields: " ++ countText fields ++
      "  Weighted violations: " ++ Decimal.writeFixed 2 weighted ++ "\n\n"
  | rules total => painted [.bold] "RULES" ++ " (" ++ countText total ++ " violations)\n"
  | rule name count message isFailure =>
    "  " ++ mark count isFailure ++ " " ++ Text.padRight 20 name ++ " " ++
      Text.padLeft 4 (countText count) ++ "  " ++ painted [.dim] message ++ "\n"
  | violation place message =>
    "      " ++ painted [.dim] (Text.padRight 32 place) ++ " " ++ message ++ "\n"
  | leftOut n =>
    "      " ++ painted [.dim] ("...and " ++ toString n ++ " more (use --format json)") ++ "\n"
  | blank => "\n"

end ReportLine

/-- Where a violation is, in words. -/
def Location.place (l : Location) : String :=
  match l.coordinate, l.line with
  | some coordinate, some line => coordinate ++ " (line " ++ toString line.toNat ++ ")"
  | some coordinate, none => coordinate
  | none, _ => ""

namespace RuleResult

/-- How many violations of a rule are shown. -/
def shown : Nat := 5

/-- The lines about the violations of a rule. -/
def violationLines (violations : List Violation) : List ReportLine :=
  (violations.take shown).map (fun v => .violation v.location.place v.message) ++
    if shown < violations.length then [.leftOut (violations.length - shown)] else []

/-- The lines about a rule. -/
def lines (r : RuleResult) : List ReportLine :=
  .rule r.rule r.findings.size r.message r.isFailure :: violationLines r.findings.toList

end RuleResult

namespace Report

/-- The layout of a report. -/
def lines (r : Report) : List ReportLine :=
  [.heading r.subgraph, .figures r.score r.grade r.totalFields r.weightedViolations,
    .rules r.totalViolations] ++ r.results.flatMap RuleResult.lines ++ [.blank]

/-- A report for the terminal. -/
def text (r : Report) : String := String.join (r.lines.map ReportLine.text)

end Report

end SchemaHealth
