import SchemaHealth.Schema.Document
import SchemaHealth.Text.Phrase

/-!
# Where a finding is

A location names a type, or a field of a type, by its coordinate `Type` or `Type.field`, and may
give the place of the definition in the text. Locations read from a report may lack any part.
-/

namespace SchemaHealth

/-- The place of a finding in a schema. -/
structure Location where
  line : Option UInt64
  column : Option UInt64
  field : Option String
  type : Option String
  coordinate : Option String
deriving DecidableEq, Repr

namespace Location

/-- The location without any part. -/
def unknown : Location := ⟨none, none, none, none, none⟩

/-- The location of a field definition of a type. -/
def ofField (type field : String) (position : Position) : Location :=
  ⟨some position.line, some position.column, some field, some type, some (type ++ "." ++ field)⟩

/-- The location of a type definition. -/
def ofType (type : String) (position : Position) : Location :=
  ⟨some position.line, some position.column, none, some type, some type⟩

/-- The location that a coordinate names: the type is what stands before the first point, the field
what follows it. -/
def ofCoordinate (coordinate : String) : Location :=
  match Text.splitAtFirst '.' coordinate.toList with
  | (type, some field) =>
    ⟨none, none, some (String.ofList field), some (String.ofList type), some coordinate⟩
  | (_, none) => ⟨none, none, none, some coordinate, some coordinate⟩

end Location

end SchemaHealth
