import SchemaHealth.Json.Value
import SchemaHealth.Text.Escape

/-!
# Reading JSON texts

A text is first read as a `Json.Tree`, which keeps numerals as they are written and marks strings
that hold half of a surrogate pair; both are well-formed JSON, although not every reader of the
tree gives them a value. `Tree.value?` gives the value of a tree: its numerals have to be within
the doubles, its strings whole, and it has to be nested less than 128 levels deep. `parse?` does
both.
-/

namespace SchemaHealth.Json

open Decimal (Numeral)

/-- A JSON text as it is written. A string is absent when it holds half of a surrogate pair. -/
inductive Tree where
  | null
  | bool (value : Bool)
  | number (numeral : Numeral)
  | string (value : Option String)
  | array (items : List Tree)
  | object (members : List (Option String × Tree))
deriving Inhabited

/-- Whether a character may stand between the parts of a text. -/
def isSpace (c : Char) : Bool := c == ' ' || c == '\n' || c == '\t' || c == '\r'

/-- A text without the space it starts with. -/
def skipSpace (cs : List Char) : List Char := cs.dropWhile isSpace

/-- The code points and halves of surrogate pairs of a string, up to its closing quote, and the
rest of the text after that. -/
def readUnits? : List Char → Option (List Nat × List Char)
  | [] => none
  | '"' :: rest => some ([], rest)
  | '\\' :: 'u' :: a :: b :: c :: d :: rest => do
    let unit ← Text.hexValue4? a b c d
    let (units, rest) ← readUnits? rest
    return (unit :: units, rest)
  | '\\' :: e :: rest => do
    let c ← Text.letterEscape? e
    let (units, rest) ← readUnits? rest
    return (c.toNat :: units, rest)
  | c :: rest =>
    if c.toNat < 0x20 ∨ c = '\\' then none
    else do
      let (units, rest) ← readUnits? rest
      return (c.toNat :: units, rest)

/-- The characters of a string, where each surrogate pair makes up one character. -/
def joinUnits? : List Nat → Option (List Char)
  | [] => some []
  | high :: low :: rest =>
    if 0xD800 ≤ high ∧ high < 0xDC00 ∧ 0xDC00 ≤ low ∧ low < 0xE000 then
      (joinUnits? rest).map
        (Char.ofNat (0x10000 + (high - 0xD800) * 0x400 + (low - 0xDC00)) :: ·)
    else if 0xD800 ≤ high ∧ high < 0xE000 then none
    else (joinUnits? (low :: rest)).map (Char.ofNat high :: ·)
  | [unit] => if 0xD800 ≤ unit ∧ unit < 0xE000 then none else some [Char.ofNat unit]

/-- A string after its opening quote. -/
def readString? (cs : List Char) : Option (Option String × List Char) :=
  (readUnits? cs).map fun (units, rest) => ((joinUnits? units).map String.ofList, rest)

mutual

/-- The value that a text starts with, nested at most `depth` levels deep, and the rest. -/
def readTree? : Nat → List Char → Option (Tree × List Char)
  | 0, _ => none
  | depth + 1, cs =>
    match skipSpace cs with
    | [] => none
    | '"' :: rest => (readString? rest).map fun (s, rest) => (.string s, rest)
    | '[' :: rest =>
      match skipSpace rest with
      | ']' :: rest => some (.array [], rest)
      | rest => (readItems? depth rest).map fun (items, rest) => (.array items, rest)
    | '\x7b' :: rest =>
      match skipSpace rest with
      | '\x7d' :: rest => some (.object [], rest)
      | rest => (readMembers? depth rest).map fun (members, rest) => (.object members, rest)
    | 'n' :: rest => (['u', 'l', 'l'].isPrefixOf? rest).map (.null, ·)
    | 't' :: rest => (['r', 'u', 'e'].isPrefixOf? rest).map (.bool true, ·)
    | 'f' :: rest => (['a', 'l', 's', 'e'].isPrefixOf? rest).map (.bool false, ·)
    | rest => (Numeral.read? rest).map fun (n, rest) => (.number n, rest)

/-- Items up to the closing bracket. -/
def readItems? : Nat → List Char → Option (List Tree × List Char)
  | 0, _ => none
  | depth + 1, cs => do
    let (item, rest) ← readTree? depth cs
    match skipSpace rest with
    | ']' :: rest => return ([item], rest)
    | ',' :: rest =>
      let (items, rest) ← readItems? depth rest
      return (item :: items, rest)
    | _ => none

/-- Members up to the closing brace. -/
def readMembers? : Nat → List Char → Option (List (Option String × Tree) × List Char)
  | 0, _ => none
  | depth + 1, cs =>
    match skipSpace cs with
    | '"' :: rest => do
      let (key, rest) ← readString? rest
      match skipSpace rest with
      | ':' :: rest =>
        let (value, rest) ← readTree? depth rest
        match skipSpace rest with
        | '\x7d' :: rest => return ([(key, value)], rest)
        | ',' :: rest =>
          let (members, rest) ← readMembers? depth rest
          return ((key, value) :: members, rest)
        | _ => none
      | _ => none
    | _ => none

end

/-- A whole text as a tree. Every level and every item takes a character, so the text's length
bounds the reading. -/
def Tree.parse? (text : String) : Option Tree :=
  let cs := text.toList
  match readTree? (cs.length + 1) cs with
  | some (tree, rest) => if (skipSpace rest).isEmpty then some tree else none
  | none => none

mutual

/-- The value of a tree that is nested less than `levels` deep. -/
def Tree.value? (levels : Nat) : Tree → Option Json
  | .null => some .null
  | .bool b => some (.bool b)
  | .number n => n.value?.map .number
  | .string s => s.map .string
  | .array items => if levels ≤ 1 then none else (itemValues? (levels - 1) items).map .array
  | .object members =>
    if levels ≤ 1 then none else (memberValues? (levels - 1) members).map .object

/-- The values of all items. -/
def Tree.itemValues? (levels : Nat) : List Tree → Option (List Json)
  | [] => some []
  | item :: rest => do return (← item.value? levels) :: (← itemValues? levels rest)

/-- The values of all members. -/
def Tree.memberValues? (levels : Nat) :
    List (Option String × Tree) → Option (List (String × Json))
  | [] => some []
  | member :: rest => do
    return (← member.1, ← member.2.value? levels) :: (← memberValues? levels rest)

end

/-- The value of a JSON text in canonical form. -/
def parse? (text : String) : Option Json := do
  let tree ← Tree.parse? text
  return (← tree.value? 128).canonical

end SchemaHealth.Json
