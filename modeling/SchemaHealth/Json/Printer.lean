import SchemaHealth.Json.Value
import SchemaHealth.Decimal.Printed

/-!
# JSON texts

Two layouts of a JSON value: `compress` writes it on one line without spaces, `pretty` gives every
item and member a line of its own, indented by two spaces a level. Strings escape the quote, the
backslash and the control characters below the space, and nothing else.
-/

namespace SchemaHealth.Json

open Decimal (Number Style)

/-- The lower-case hexadecimal digit of a number below sixteen. -/
def hexDigit (n : Nat) : Char := if n < 10 then Char.ofNat (48 + n) else Char.ofNat (87 + n)

/-- A character inside a JSON string. -/
def escapeChar (c : Char) : List Char :=
  if c = '"' then ['\\', '"']
  else if c = '\\' then ['\\', '\\']
  else if 0x20 ≤ c.toNat then [c]
  else if c = '\n' then ['\\', 'n']
  else if c = '\r' then ['\\', 'r']
  else if c = '\t' then ['\\', 't']
  else if c = '\x08' then ['\\', 'b']
  else if c = '\x0c' then ['\\', 'f']
  else ['\\', 'u', '0', '0', hexDigit (c.toNat / 16), hexDigit (c.toNat % 16)]

/-- A string in quotes. -/
def quote (s : String) : String :=
  String.ofList ('"' :: s.toList.flatMap escapeChar ++ ['"'])

/-- The text of a number. -/
def writeNumber : Number → String
  | .int i => toString i
  | .real x => Style.report.write x

/-- A line break and the indentation of a level. -/
def newLine (level : Nat) : String := String.ofList ('\n' :: List.replicate (2 * level) ' ')

mutual

/-- The value on one line. -/
def compress : Json → String
  | .null => "null"
  | .bool b => if b then "true" else "false"
  | .number n => writeNumber n
  | .string s => quote s
  | .array items => "[" ++ compressItems items ++ "]"
  | .object members => "\x7b" ++ compressMembers members ++ "\x7d"

/-- Items with commas between them. -/
def compressItems : List Json → String
  | [] => ""
  | [item] => item.compress
  | item :: rest => item.compress ++ "," ++ compressItems rest

/-- Members with commas between them. -/
def compressMembers : List (String × Json) → String
  | [] => ""
  | [member] => quote member.1 ++ ":" ++ member.2.compress
  | member :: rest => quote member.1 ++ ":" ++ member.2.compress ++ "," ++ compressMembers rest

end

mutual

/-- The value with a line for every item and member; `level` is the depth it stands at. -/
def prettyAt (level : Nat) : Json → String
  | .null => "null"
  | .bool b => if b then "true" else "false"
  | .number n => writeNumber n
  | .string s => quote s
  | .array [] => "[]"
  | .array (item :: rest) =>
    "[" ++ prettyItems (level + 1) (item :: rest) ++ newLine level ++ "]"
  | .object [] => "\x7b\x7d"
  | .object (member :: rest) =>
    "\x7b" ++ prettyMembers (level + 1) (member :: rest) ++ newLine level ++ "\x7d"

/-- Items on lines of their own. -/
def prettyItems (level : Nat) : List Json → String
  | [] => ""
  | [item] => newLine level ++ item.prettyAt level
  | item :: rest => newLine level ++ item.prettyAt level ++ "," ++ prettyItems level rest

/-- Members on lines of their own. -/
def prettyMembers (level : Nat) : List (String × Json) → String
  | [] => ""
  | [member] => newLine level ++ quote member.1 ++ ": " ++ member.2.prettyAt level
  | member :: rest =>
    newLine level ++ quote member.1 ++ ": " ++ member.2.prettyAt level ++ "," ++
      prettyMembers level rest

end

/-- The value with a line for every item and member. -/
def pretty (value : Json) : String := value.prettyAt 0

end SchemaHealth.Json
