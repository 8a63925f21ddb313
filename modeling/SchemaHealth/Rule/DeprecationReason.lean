import SchemaHealth.Text.Case
import SchemaHealth.Text.Digit
import SchemaHealth.Text.Phrase

/-!
# Reasons for a deprecation

A good reason gives a date, written `DD-MM-YYYY` with any decimal digits, and says what to migrate
to.
-/

namespace SchemaHealth

/-- The shape of a date: true for a digit, false for a dash. -/
def dateShape : List Bool :=
  [true, true, false, true, true, false, true, true, true, true]

/-- Whether a text starts with a shape. -/
def startsWithShape : List Bool → List Char → Bool
  | [], _ => true
  | _ :: _, [] => false
  | digit :: shape, c :: cs =>
    (if digit then Text.isDecimalDigit c else c = '-') && startsWithShape shape cs

/-- Whether a date stands anywhere in a text. -/
def containsDate : List Char → Bool
  | [] => false
  | c :: cs => startsWithShape dateShape (c :: cs) || containsDate cs

/-- Whether a reason gives a date and a way to migrate. -/
def isGoodReason (reason : String) : Bool :=
  containsDate reason.toList &&
    Text.occurs "please migrate to".toList (Text.lowercase reason.toList)

end SchemaHealth
