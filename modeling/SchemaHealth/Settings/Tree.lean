import SchemaHealth.Json.Parser
import SchemaHealth.Toml.Parser

/-!
# The common form of settings files

Settings are written in TOML or in JSON. Both are read into a `Settings.Tree`, which keeps what
decides whether a value fits a setting: whole numbers are told apart from all other numbers, and a
text is absent when it is not made of characters. `Fields` are what a record is read from: its
fields under their names, or one after the other in the order of the record.
-/

namespace SchemaHealth.Settings

/-- A value in a settings file. -/
inductive Tree where
  | null
  | bool (value : Bool)
  | whole (value : Int)
  | fraction
  | text (value : Option String)
  | list (items : List Tree)
  | table (members : List (Option String × Tree))
  /-- A date or a time of day. -/
  | moment (written : String)
deriving Inhabited

namespace Tree

mutual

/-- A JSON value in the common form. -/
def ofJson : Json.Tree → Tree
  | .null => .null
  | .bool b => .bool b
  | .number n =>
    match n.value? with
    | some (.int value) => .whole value
    | _ => .fraction
  | .string s => .text s
  | .array items => .list (ofJsonItems items)
  | .object members => .table (ofJsonMembers members)

/-- The items of an array in the common form. -/
def ofJsonItems : List Json.Tree → List Tree
  | [] => []
  | item :: rest => ofJson item :: ofJsonItems rest

/-- The members of an object in the common form. -/
def ofJsonMembers : List (Option String × Json.Tree) → List (Option String × Tree)
  | [] => []
  | member :: rest => (member.1, ofJson member.2) :: ofJsonMembers rest

end

mutual

/-- A TOML value in the common form. -/
def ofToml : Toml.Value → Tree
  | .string s => .text (some s)
  | .integer n => .whole n
  | .float _ => .fraction
  | .boolean b => .bool b
  | .moment written => .moment written
  | .array items => .list (ofTomlItems items)
  | .table entries => .table (ofTomlEntries entries)

/-- The items of an array in the common form. -/
def ofTomlItems : List Toml.Value → List Tree
  | [] => []
  | item :: rest => ofToml item :: ofTomlItems rest

/-- The entries of a table in the common form. -/
def ofTomlEntries : List (String × Toml.Value) → List (Option String × Tree)
  | [] => []
  | entry :: rest => (some entry.1, ofToml entry.2) :: ofTomlEntries rest

end

/-! ## Simple values -/

/-- A truth value. -/
def bool? : Tree → Option Bool
  | .bool b => some b
  | _ => none

/-- A text. -/
def text? : Tree → Option String
  | .text value => value
  | _ => none

/-- A whole number of 64 bits that is not negative. -/
def nat? : Tree → Option Nat
  | .whole n => if 0 ≤ n ∧ n.toNat ≤ Decimal.largestWord then some n.toNat else none
  | _ => none

/-- A list of values. -/
def list? (decode? : Tree → Option α) : Tree → Option (List α)
  | .list items => items.mapM decode?
  | _ => none

/-- A value that may be given as null. -/
def nullable? (decode? : Tree → Option α) : Tree → Option (Option α)
  | .null => some none
  | value => (decode? value).map some

/-- The key under which a moment stands when it is taken for a table. -/
def momentKey : String := "$__toml_private_datetime"

/-- The entries of a table in order, all keys being texts. -/
def entries? (decode? : Tree → Option α) : Tree → Option (List (String × α))
  | .table members => members.mapM fun member => do
    return (← member.1, ← decode? member.2)
  | .moment written => do return [(momentKey, ← decode? (.text (some written)))]
  | _ => none

/-! ## Records -/

/-- The fields of a record. -/
abbrev Fields := List (String × Tree)

/-- Whether no name is given to two fields. -/
def Fields.areSingle (fields : Fields) (names : List String) : Bool :=
  names.all fun name => (fields.filter fun field => field.1 = name).length ≤ 1

/-- The fields of a record with the given field names. In a table every known name stands once at
most, and unknown names are left out of account. In a list the fields stand in order and the last
ones may be missing; items beyond them are refused unless `toleratesSurplus` says otherwise. A
moment has no fields. -/
def fields? (toleratesSurplus : Bool) (names : List String) (tree : Tree) : Option Fields :=
  match tree with
  | .list items =>
    if toleratesSurplus || items.length ≤ names.length then some (names.zip items) else none
  | .table _ | .moment _ => do
    let fields ← tree.entries? some
    if Fields.areSingle fields names then some fields else none
  | _ => none

/-- A field with a value that stands in for it when it is missing. -/
def Fields.getD? (fields : Fields) (name : String) (decode? : Tree → Option α) (missing : α) :
    Option α :=
  match fields.find? fun field => field.1 = name with
  | some field => decode? field.2
  | none => some missing

/-- A field that has to be there. -/
def Fields.get? (fields : Fields) (name : String) (decode? : Tree → Option α) : Option α := do
  let field ← fields.find? fun field => field.1 = name
  decode? field.2

end Tree

end SchemaHealth.Settings
