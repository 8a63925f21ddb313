import SchemaHealth.Settings.Error
import SchemaHealth.Text.Case

/-!
# Output formats

Reports are written as text or as JSON. A format may be named in any case, and text by two further
names.
-/

namespace SchemaHealth

/-- A format that reports are written in. -/
inductive Format where
  | text
  | json
deriving DecidableEq, Repr

namespace Format

/-- The name of a format. -/
def name : Format → String
  | text => "text"
  | json => "json"

/-- The format with a name. -/
def read? (name : String) : Option Format :=
  let word := String.ofList (Text.lowercase name.toList)
  if word = "text" ∨ word = "txt" ∨ word = "terminal" then some text
  else if word = "json" then some json
  else none

end Format

end SchemaHealth
