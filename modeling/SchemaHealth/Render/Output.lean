import SchemaHealth.Json.Printer
import SchemaHealth.Render.AnalysisText
import SchemaHealth.Render.Format
import SchemaHealth.Render.ReportText
import SchemaHealth.Report.Encoding

/-!
# Output in a chosen format

Reports and analyses are written for the terminal or as indented JSON.
-/

namespace SchemaHealth

/-- A report in a format. -/
def Report.render (r : Report) : Format → String
  | .text => r.text
  | .json => r.toJson.pretty

/-- A cycle report in a format. -/
def CycleReport.render (r : CycleReport) : Format → String
  | .text => r.text
  | .json => r.toJson.pretty

/-- An analysis of blast radii in a format. -/
def BlastAnalysis.render (a : BlastAnalysis) : Format → String
  | .text => a.text
  | .json => a.toJson.pretty

end SchemaHealth
