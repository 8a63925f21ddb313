import SchemaHealth.Decimal.Double
import SchemaHealth.Decimal.Numeral
import SchemaHealth.Render.Format
import SchemaHealth.Text.Blank
import SchemaHealth.Text.Case
import SchemaHealth.Text.Phrase

/-!
# Values on the command line

How the texts given to options are read. Numbers have no blanks around them and may have a plus
sign.
-/

namespace SchemaHealth.CommandLine

/-- How much is logged. -/
inductive LogLevel where
  | error
  | warn
  | info
  | debug
  | trace
deriving DecidableEq, Repr

/-- The name of a level. -/
def LogLevel.name : LogLevel → String
  | error => "error"
  | warn => "warn"
  | info => "info"
  | debug => "debug"
  | trace => "trace"

/-- The level with a name. -/
def logLevel? (text : String) : Option LogLevel :=
  [LogLevel.error, .warn, .info, .debug, .trace].find? fun level => level.name = text

/-- The format with exactly this name. -/
def format? (text : String) : Option Format := [Format.text, .json].find? fun f => f.name = text

/-- The path of a file; no path is empty. -/
def path? (text : String) : Option String := if text.isEmpty then none else some text

/-- A key and a value with an equals sign between them. White space around the key does not belong
to it, and there has to be something else in the key. -/
def keyValue? (text : String) : Option (String × String) :=
  match Text.splitAtFirst '=' text.toList with
  | (key, some value) =>
    match Text.trim key with
    | [] => none
    | key => some (String.ofList key, String.ofList value)
  | (_, none) => none

/-- A text without one plus sign at its start. -/
def withoutPlus : List Char → List Char
  | '+' :: cs => cs
  | cs => cs

/-- A whole number of 64 bits. -/
def word? (text : String) : Option UInt64 :=
  match withoutPlus text.toList with
  | [] => none
  | digits =>
    let n := Decimal.digitsValue (digits.map Decimal.digitValue)
    if digits.all Char.isDigit && n ≤ Decimal.largestWord then some (.ofNat n) else none

/-- A threshold: a whole number of 64 bits that is not zero. -/
def threshold? (text : String) : Option Nat := do
  let n ← word? text
  if n = 0 then none else some n.toNat

/-- The digits of a decimal, given before and after its point, with its exponent: at least one digit
altogether. -/
def decimal? (whole fraction : List Nat) (exponent : Int) : Option Float :=
  match whole ++ fraction with
  | [] => none
  | digits => some (Decimal.ofScientific (Decimal.digitsValue digits) (exponent - fraction.length))

/-- A double without its sign: `inf`, `infinity` and `nan` in any case, or a decimal that may lack
the digits on one side of its point, with an optional exponent. -/
def unsignedDouble? (cs : List Char) : Option Float :=
  let word := String.ofList (cs.map Char.toLower)
  if word = "inf" ∨ word = "infinity" then some (1.0 / 0.0)
  else if word = "nan" then some (0.0 / 0.0)
  else do
    let (whole, rest) := Decimal.readDigits cs
    let (fraction, rest) := match rest with
      | '.' :: rest => Decimal.readDigits rest
      | rest => ([], rest)
    match ← Decimal.readExponent? rest with
    | (none, []) => decimal? whole fraction 0
    | (some (isNegative, digits), []) =>
      let exponent : Int := Decimal.digitsValue digits
      decimal? whole fraction (if isNegative then -exponent else exponent)
    | _ => none

/-- A double. -/
def double? (text : String) : Option Float :=
  match text.toList with
  | '-' :: cs => (unsignedDouble? cs).map fun x => -x
  | cs => unsignedDouble? (withoutPlus cs)

end SchemaHealth.CommandLine
