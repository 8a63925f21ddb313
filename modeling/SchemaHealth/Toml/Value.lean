import SchemaHealth.Ordered

/-!
# TOML values and the tables they stand in

A document is read line by line into nested tables. Every table remembers how it came about, since
that decides who may still add to it: a table with a header of its own is complete after its
section, a table that is only part of longer headers may get a header of its own later, and a table
made by a dotted key takes further dotted keys only.

`openTable?` starts the section of a header, `openItem?` the section of an item of an array of
tables, and `setAt?` enters the value of a possibly dotted key.
-/

namespace SchemaHealth.Toml

/-- A TOML value. A moment is a date, a time of day or both, as it is written out. -/
inductive Value where
  | string (value : String)
  | integer (value : Int)
  | float (value : Float)
  | boolean (value : Bool)
  | moment (text : String)
  | array (items : List Value)
  | table (entries : List (String × Value))
deriving Repr, Inhabited

/-- How a table came about. -/
inductive Origin where
  | header
  | longerHeader
  | dottedKey
deriving DecidableEq, Repr

/-- What stands under a key while a document is read. -/
inductive Item where
  | value (v : Value)
  | table (origin : Origin) (entries : List (String × Item))
  | tables (items : List (List (String × Item)))

/-- The entries of a table, in order. -/
abbrev Entries := List (String × Item)

/-- The item under a key. -/
def Entries.get? (entries : Entries) (key : String) : Option Item :=
  (entries.find? fun entry => entry.1 = key).map (·.2)

/-- Changes the table at the end of a path from a table of the given origin. Missing tables on the
path are made with the origin `made`. No path leads through a value; a dotted key does not lead
through a table with a header of its own; the path through an array of tables takes its last
item. -/
def changeAt? (made : Origin) (change : Origin → Entries → Option Entries) :
    List String → Origin → Entries → Option Entries
  | [], origin, entries => change origin entries
  | key :: path, _, entries =>
    match entries.get? key with
    | none => do return entries ++ [(key, .table made (← changeAt? made change path made []))]
    | some (.value _) => none
    | some (.table origin inner) =>
      if made = .dottedKey ∧ origin = .header then none
      else do
        return setEntry entries key (.table origin (← changeAt? made change path origin inner))
    | some (.tables items) =>
      match items.getLast? with
      | none => none
      | some last => do
        let last ← changeAt? made change path .header last
        return setEntry entries key (.tables (items.dropLast ++ [last]))

/-- Enters a value under a key of a table. The key has to be new, and a table takes dotted keys if
and only if it was made by them. -/
def addValue? (isDotted : Bool) (key : String) (v : Value) (origin : Origin)
    (entries : Entries) : Option Entries :=
  if isDotted != decide (origin = .dottedKey) then none
  else if (entries.get? key).isSome then none
  else some (entries ++ [(key, .value v)])

/-- Enters a value under a dotted key of a table, given as a path and a last part. -/
def setAt? (path : List String) (key : String) (v : Value) (origin : Origin)
    (entries : Entries) : Option Entries :=
  changeAt? .dottedKey (addValue? (!path.isEmpty) key v) path origin entries

/-- Starts the section of a table. The table has to be new, or so far part of longer headers only;
in either case it is the last entry then. -/
def openTable? (key : String) (_ : Origin) (entries : Entries) : Option Entries :=
  match entries.get? key with
  | none => some (entries ++ [(key, .table .header [])])
  | some (.table .longerHeader inner) =>
    some (entries.filter (fun entry => entry.1 ≠ key) ++ [(key, .table .header inner)])
  | some _ => none

/-- Starts the section of an item of an array of tables. -/
def openItem? (key : String) (_ : Origin) (entries : Entries) : Option Entries :=
  match entries.get? key with
  | none => some (entries ++ [(key, .tables [[]])])
  | some (.tables items) => some (setEntry entries key (.tables (items ++ [[]])))
  | some _ => none

/-- The entries of an inline table. -/
def inlineEntries? : List (List String × String × Value) → Entries → Option Entries
  | [], entries => some entries
  | (path, key, v) :: rest, entries => do
    inlineEntries? rest (← setAt? path key v .header entries)

mutual

/-- The value of an item. -/
def Item.toValue : Item → Value
  | .value v => v
  | .table _ entries => .table (entryValues entries)
  | .tables items => .array (tableValues items)
termination_by structural item => item

/-- The values of some entries. -/
def entryValues : List (String × Item) → List (String × Value)
  | [] => []
  | (key, item) :: rest => (key, item.toValue) :: entryValues rest
termination_by structural entries => entries

/-- The values of some tables. -/
def tableValues : List (List (String × Item)) → List Value
  | [] => []
  | entries :: rest => .table (entryValues entries) :: tableValues rest
termination_by structural items => items

end

end SchemaHealth.Toml
