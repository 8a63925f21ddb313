import SchemaHealth.Report.Severity
import SchemaHealth.Text.Layout

/-!
# Colours of the terminal

Texts for a terminal are painted: control sequences switch a colour or a weight on in front of the
text, and one sequence after it switches everything off again.
-/

namespace SchemaHealth.Render

/-- A colour or a weight of letters. -/
inductive Paint where
  | bold
  | dim
  | red
  | green
  | yellow
  | magenta
  | grey
  | lightRed
  | lightGreen
deriving DecidableEq, Repr

/-- The number of a paint in control sequences. -/
def Paint.code : Paint → Nat
  | bold => 1
  | dim => 2
  | red => 31
  | green => 32
  | yellow => 33
  | magenta => 35
  | grey => 90
  | lightRed => 91
  | lightGreen => 92

/-- The control sequence with a number. -/
def controlSequence (code : Nat) : String := "\x1b[" ++ toString code ++ "m"

/-- A text in some paints. -/
def painted (paints : List Paint) (text : String) : String :=
  String.join (paints.map fun paint => controlSequence paint.code) ++ text ++ controlSequence 0

/-- The paint of a tier. -/
def severityPaint : Severity → Paint
  | .critical => .red
  | .warning => .yellow
  | .info => .grey

/-- A line across the page. -/
def ruler : String := painted [.dim] (Text.repeated 38 '─') ++ "\n"

end SchemaHealth.Render
