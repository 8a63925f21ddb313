import SchemaHealth.Toml.Lexeme
import SchemaHealth.Toml.Number

/-!
# Reading TOML documents

A document is a sequence of lines: headers of tables, headers of items of arrays of tables, and keys
with values. `parse?` gives the entries of the whole document, or nothing if there is any error.
Tables come in the order of their last header, keys in the order in which they are given.
-/

namespace SchemaHealth.Toml

mutual

/-- A value, nested less than `levels` deep. The last number bounds the steps of the reading. -/
def readValue? (levels : Nat) : Nat → List Char → Option (Value × List Char)
  | 0, _ => none
  | n + 1, cs =>
    match cs with
    | [] => none
    | '[' :: rest =>
      if levels ≤ 1 then none
      else (readItems? (levels - 1) n rest).map fun (items, rest) => (.array items, rest)
    | '\x7b' :: rest =>
      if levels ≤ 1 then none
      else do
        let (pairs, rest) ← readPairs? (levels - 1) n (skipBlanks rest)
        return (.table (entryValues (← inlineEntries? pairs [])), rest)
    | c :: _ =>
      if c = '"' ∨ c = '\'' then (readString? cs).map fun (s, rest) => (.string s, rest)
      else if c = 't' then
        (['t', 'r', 'u', 'e'].isPrefixOf? cs).map fun rest => (.boolean true, rest)
      else if c = 'f' then
        (['f', 'a', 'l', 's', 'e'].isPrefixOf? cs).map fun rest => (.boolean false, rest)
      else readNumberOrMoment? cs
termination_by structural n => n

/-- The items of an array up to its closing bracket. A comma may follow the last one. -/
def readItems? (levels : Nat) : Nat → List Char → Option (List Value × List Char)
  | 0, _ => none
  | n + 1, cs =>
    match skipLines false cs with
    | ']' :: rest => some ([], rest)
    | cs => do
      let (item, rest) ← readValue? levels n cs
      match skipLines false rest with
      | ']' :: rest => return ([item], rest)
      | ',' :: rest =>
        let (items, rest) ← readItems? levels n rest
        return (item :: items, rest)
      | _ => none
termination_by structural n => n

/-- The keys and values of an inline table up to its closing brace. -/
def readPairs? (levels : Nat) :
    Nat → List Char → Option (List (List String × String × Value) × List Char)
  | 0, _ => none
  | n + 1, cs =>
    match cs with
    | '\x7d' :: rest => some ([], rest)
    | _ => readMorePairs? levels n cs
termination_by structural n => n

/-- One or more keys and values of an inline table up to its closing brace. -/
def readMorePairs? (levels : Nat) :
    Nat → List Char → Option (List (List String × String × Value) × List Char)
  | 0, _ => none
  | n + 1, cs => do
    let ((path, key), rest) ← readKey? cs
    let rest ← readMark? '=' rest
    let (value, rest) ← readValue? levels n (skipBlanks rest)
    match skipBlanks rest with
    | '\x7d' :: rest => return ([(path, key, value)], rest)
    | ',' :: rest =>
      let (pairs, rest) ← readMorePairs? levels n rest
      return ((path, key, value) :: pairs, rest)
    | _ => none
termination_by structural n => n

end

/-- A document while it is read: its entries, and the path of the table that keys belong to. -/
structure Draft where
  entries : Entries
  current : List String

namespace Draft

/-- Starts the section of a header. -/
def openSection? (draft : Draft) (change : String → Origin → Entries → Option Entries)
    (path : List String) (key : String) : Option Draft := do
  let entries ← changeAt? .longerHeader (change key) path .header draft.entries
  return ⟨entries, path ++ [key]⟩

/-- Enters a value in the current section. -/
def set? (draft : Draft) (path : List String) (key : String) (value : Value) : Option Draft := do
  let entries ← changeAt? .longerHeader (setAt? path key value) draft.current .header draft.entries
  return { draft with entries }

end Draft

/-- The header of a table, after its opening bracket. -/
def readHeader? (draft : Draft) (cs : List Char) : Option (Draft × List Char) := do
  let ((path, key), rest) ← readKey? cs
  let rest ← readLineRest? (← readMark? ']' rest)
  return (← draft.openSection? openTable? path key, rest)

/-- The header of an item of an array of tables, after its opening brackets. -/
def readItemHeader? (draft : Draft) (cs : List Char) : Option (Draft × List Char) := do
  let ((path, key), rest) ← readKey? cs
  let rest ← readLineRest? (← readMark? ']' (← readMark? ']' rest))
  return (← draft.openSection? openItem? path key, rest)

/-- A key with its value. -/
def readAssignment? (draft : Draft) (cs : List Char) : Option (Draft × List Char) := do
  let ((path, key), rest) ← readKey? cs
  let rest ← readMark? '=' rest
  let (value, rest) ← readValue? nestingLimit (2 * rest.length + 2) (skipBlanks rest)
  return (← draft.set? path key value, ← readLineRest? rest)

/-- The lines of a document, at most `n` of them. -/
def readLines? : Nat → Draft → List Char → Option Draft
  | 0, _, _ => none
  | n + 1, draft, cs =>
    match skipBlanks cs with
    | [] => some draft
    | '#' :: rest => do readLines? n draft (← readLineEnd? (rest.dropWhile isPlain))
    | '[' :: '[' :: rest => do
      let (draft, rest) ← readItemHeader? draft rest
      readLines? n draft rest
    | '[' :: rest => do
      let (draft, rest) ← readHeader? draft rest
      readLines? n draft rest
    | '\n' :: rest => readLines? n draft rest
    | '\r' :: '\n' :: rest => readLines? n draft rest
    | cs => do
      let (draft, rest) ← readAssignment? draft cs
      readLines? n draft rest

/-- The entries of a document. A byte order mark at its start is skipped. -/
def parse? (text : String) : Option (List (String × Value)) := do
  let cs := match text.toList with
    | '\uFEFF' :: rest => rest
    | cs => cs
  let draft ← readLines? (cs.length + 1) ⟨[], []⟩ cs
  return entryValues draft.entries

end SchemaHealth.Toml
