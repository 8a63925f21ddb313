import SchemaHealth.Json.Value
import SchemaHealth.Decimal.Double

/-!
# Records in JSON values

A record is read from an object, whose other members are ignored, or from an array that holds its
fields in order; trailing fields may be missing from the array, further items may not follow.
`record?` brings both into a list of fields. A field that may be absent may also be `null`.
-/

namespace SchemaHealth.Json

/-- The fields of a record whose field names are given in order. -/
def record? (names : List String) : Json → Option (List (String × Json))
  | .object members => some members
  | .array items => if items.length ≤ names.length then some (names.zip items) else none
  | _ => none

/-- A field that has to be there. -/
def required? (fields : List (String × Json)) (name : String) (decode? : Json → Option α) :
    Option α := do
  let value ← member? fields name
  decode? value

/-- A field that may be absent. -/
def optional? (fields : List (String × Json)) (name : String) (decode? : Json → Option α) :
    Option (Option α) :=
  match member? fields name with
  | none | some .null => some none
  | some value => (decode? value).map some

/-- A string. -/
def string? : Json → Option String
  | .string s => some s
  | _ => none

/-- A whole number of 64 bits. -/
def word? : Json → Option UInt64
  | .number (.int n) =>
      if 0 ≤ n ∧ n.toNat ≤ Decimal.largestWord then some (.ofNat n.toNat) else none
  | _ => none

/-- A double; a whole number is rounded to one. -/
def double? : Json → Option Float
  | .number (.real x) => some x
  | .number (.int n) => some (if n < 0 then -(Decimal.ofNat n.natAbs) else Decimal.ofNat n.natAbs)
  | _ => none

/-- All items of an array. -/
def list? (decode? : Json → Option α) : Json → Option (List α)
  | .array items => items.mapM decode?
  | _ => none

/-- The members of an object as a dictionary. -/
def dictionary? : Json → Option (Dictionary String Json)
  | .object members => some (.ofList members)
  | _ => none

/-- A word as JSON. -/
def word (n : UInt64) : Json := .nat n.toNat

end SchemaHealth.Json
