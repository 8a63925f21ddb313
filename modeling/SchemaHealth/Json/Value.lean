import SchemaHealth.Decimal.Numeral
import SchemaHealth.Dictionary

/-!
# JSON values

`Json` is a JSON value whose objects list their members in a chosen order: a report prints its
members in that order. `canonical` brings a value into the form in which equal objects are equal
lists: keys increase, and of several members with one key the last one is kept.
-/

namespace SchemaHealth

open Decimal (Number)

/-- A JSON value. -/
inductive Json where
  | null
  | bool (value : Bool)
  | number (value : Number)
  | string (value : String)
  | array (items : List Json)
  | object (members : List (String × Json))
deriving Repr, Inhabited

namespace Json

/-- A whole number. -/
def nat (n : Nat) : Json := .number (.int n)

/-- A double; a double that is not finite has no JSON number and is written `null`. -/
def real (x : Float) : Json := if x.isFinite then .number (.real x) else .null

/-- An optional value; `null` when it is absent. -/
def option (encode : α → Json) : Option α → Json
  | some a => encode a
  | none => .null

/-- A list of values. -/
def list (encode : α → Json) (items : List α) : Json := .array (items.map encode)

/-- A member that is left out when its value is absent. -/
def optionalMember (key : String) (encode : α → Json) : Option α → List (String × Json)
  | some a => [(key, encode a)]
  | none => []

/-- An object with the entries of a dictionary as members. -/
def dictionary (encode : α → Json) (d : Dictionary String α) : Json :=
  .object (d.toList.map fun entry => (entry.1, encode entry.2))

mutual

/-- The value with the members of every object in increasing key order, one for each key. -/
def canonical : Json → Json
  | .array items => .array (canonicalItems items)
  | .object members => .object (Dictionary.ofList (canonicalMembers members)).toList
  | value => value

/-- Every item in canonical form. -/
def canonicalItems : List Json → List Json
  | [] => []
  | item :: rest => item.canonical :: canonicalItems rest

/-- Every member in canonical form, in the order given. -/
def canonicalMembers : List (String × Json) → List (String × Json)
  | [] => []
  | member :: rest => (member.1, member.2.canonical) :: canonicalMembers rest

end

/-- The member of an object under a key, the last one if there are several. -/
def member? (members : List (String × Json)) (key : String) : Option Json :=
  (members.reverse.find? fun member => member.1 = key).map (·.2)

end Json

end SchemaHealth
