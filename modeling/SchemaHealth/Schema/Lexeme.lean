import SchemaHealth.Decimal.Numeral
import SchemaHealth.Schema.Name
import SchemaHealth.Text.Escape

/-!
# Strings and numbers in schema texts

Each reader takes one lexeme off a text and gives back the rest. A string is quoted, with escapes,
on one line, or a block between triple quotes, whose lines lose the indentation that they share.
-/

namespace SchemaHealth.Schema

open Decimal (Numeral)

/-! ## Quoted strings -/

/-- A quoted string after its opening quote. -/
def readQuoted? : List Char → Option (List Char × List Char)
  | [] => none
  | '"' :: rest => some ([], rest)
  | '\\' :: 'u' :: a :: b :: c :: d :: rest => do
    let ch ← Text.scalar? (← Text.hexValue4? a b c d)
    let (cs, rest) ← readQuoted? rest
    return (ch :: cs, rest)
  | '\\' :: e :: rest => do
    let ch ← Text.letterEscape? e
    let (cs, rest) ← readQuoted? rest
    return (ch :: cs, rest)
  | c :: rest =>
    if c = '\\' ∨ c = '\n' ∨ c = '\r' then none
    else (readQuoted? rest).map fun (cs, rest) => (c :: cs, rest)

/-! ## Block strings -/

/-- The characters of a block string after its opening quotes. A backslash before triple quotes
keeps them from ending the string; both stay in it. -/
def readBlock? : List Char → Option (List Char × List Char)
  | [] => none
  | '"' :: '"' :: '"' :: rest => some ([], rest)
  | '\\' :: '"' :: '"' :: '"' :: rest =>
    (readBlock? rest).map fun (cs, rest) => ('\\' :: '"' :: '"' :: '"' :: cs, rest)
  | c :: rest => (readBlock? rest).map fun (cs, rest) => (c :: cs, rest)

/-- A text with a character put in front of its first line. -/
def consLine (c : Char) : List (List Char) → List (List Char)
  | [] => [[c]]
  | line :: lines => (c :: line) :: lines

/-- The lines of a text; a line ends with a line feed, a carriage return, or both together. -/
def splitLines : List Char → List (List Char)
  | [] => [[]]
  | '\r' :: '\n' :: cs => [] :: splitLines cs
  | c :: cs => if c = '\n' ∨ c = '\r' then [] :: splitLines cs else consLine c (splitLines cs)

/-- Whether a character indents a line. -/
def isIndent (c : Char) : Bool := c == ' ' || c == '\t'

/-- How far a line is indented, if there is anything else on it. -/
def indentation? (line : List Char) : Option Nat :=
  if line.all isIndent then none else some (line.takeWhile isIndent).length

/-- The indentation that some lines share. -/
def sharedIndentation (lines : List (List Char)) : Nat := (lines.filterMap indentation?).min?.getD 0

/-- A line without an indentation; a shorter line stays as it is. -/
def unindent (n : Nat) (line : List Char) : List Char :=
  if n ≤ line.length then line.drop n else line

/-- The value of a block string: the shared indentation of all lines but the first is taken off
them, and the lines without content at either end are left out. -/
def blockValue (cs : List Char) : List Char :=
  match splitLines cs with
  | [] => []
  | first :: others =>
    let lines := first :: others.map (unindent (sharedIndentation others))
    let isEmpty (line : List Char) : Bool := line.all isIndent
    let kept := ((lines.dropWhile isEmpty).reverse.dropWhile isEmpty).reverse
    List.intercalate ['\n'] kept

/-- A block string with its quotes. -/
def readBlockString? : List Char → Option (String × List Char)
  | '"' :: '"' :: '"' :: rest =>
    (readBlock? rest).map fun (cs, rest) => (String.ofList (blockValue cs), rest)
  | _ => none

/-- A quoted string with its quotes. -/
def readQuotedString? : List Char → Option (String × List Char)
  | '"' :: rest => (readQuoted? rest).map fun (cs, rest) => (String.ofList cs, rest)
  | _ => none

/-- A string: a block string if the text starts with one, else a quoted string. -/
def readString? (cs : List Char) : Option (String × List Char) :=
  readBlockString? cs <|> readQuotedString? cs

/-! ## Numbers -/

/-- A number. A fraction or an exponent without digits does not belong to it, and no name may start
right after it. -/
def readNumber? (cs : List Char) : Option (Numeral × List Char) := do
  let (negative, cs) := match cs with
    | '-' :: rest => (true, rest)
    | _ => (false, cs)
  let (whole, cs) ← Decimal.readWhole? cs
  let (fraction, cs) := (Decimal.readFraction? cs).getD (none, cs)
  let (exponent, cs) := (Decimal.readExponent? cs).getD (none, cs)
  match cs with
  | c :: _ => if isNameStart c then none else some (⟨negative, whole, fraction, exponent⟩, cs)
  | [] => some (⟨negative, whole, fraction, exponent⟩, [])

end SchemaHealth.Schema
