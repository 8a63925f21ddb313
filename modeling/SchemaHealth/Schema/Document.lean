import SchemaHealth.Schema.TypeRef
import SchemaHealth.Decimal.Numeral
import SchemaHealth.Ordered

/-!
# Schema documents

What is kept of a schema: its type definitions in order, with their directives and, for object and
interface types, their field definitions. Definitions and extensions of one type stay apart.
-/

namespace SchemaHealth

/-- A place in a text; lines and columns count from one. -/
structure Position where
  line : UInt64
  column : UInt64
deriving DecidableEq, Repr

/-- The first place of a text. -/
def Position.start : Position := ⟨1, 1⟩

/-- A literal value in a directive. -/
inductive Literal where
  | null
  | number (value : Decimal.Number)
  | string (value : String)
  | boolean (value : Bool)
  | enum (name : Name)
  | list (items : List Literal)
  | object (fields : List (Name × Literal))
deriving Repr, Inhabited

/-- An object literal with the given fields; a repeated name keeps its first place and its last
value. -/
def Literal.ofFields (fields : List (Name × Literal)) : Literal := .object (settled fields)

/-- A directive as it is applied, repeated arguments included. -/
structure Directive where
  name : Name
  arguments : List (Name × Literal)
deriving Repr

/-- The first argument with a name. -/
def Directive.argument? (d : Directive) (name : String) : Option Literal :=
  (d.arguments.find? fun argument => argument.1.text = name).map (·.2)

/-- The first argument with a name, if it is a string. -/
def Directive.stringArgument? (d : Directive) (name : String) : Option String :=
  match d.argument? name with
  | some (.string value) => some value
  | _ => none

/-- The first directive with a name. -/
def findDirective? (directives : List Directive) (name : String) : Option Directive :=
  directives.find? fun d => d.name.text = name

/-- The declaration of a field. -/
structure FieldDefinition where
  name : Name
  type : TypeRef
  directives : List Directive
  position : Position
deriving Repr

/-- Whether a directive is applied to the field. -/
def FieldDefinition.has (f : FieldDefinition) (directive : String) : Bool :=
  (findDirective? f.directives directive).isSome

/-- What a type definition defines. Only object and interface types have field definitions. -/
inductive TypeBody where
  | scalar
  | object (fields : List FieldDefinition)
  | interface (fields : List FieldDefinition)
  | union
  | enum
  | inputObject
deriving Repr

/-- A definition of a type, or an extension of one. -/
structure TypeDefinition where
  name : Name
  body : TypeBody
  isExtension : Bool
  directives : List Directive
  position : Position
deriving Repr

namespace TypeDefinition

/-- The field declarations, in order. -/
def fields (t : TypeDefinition) : List FieldDefinition :=
  match t.body with
  | .object fields | .interface fields => fields
  | _ => []

/-- Whether an object type is defined or extended. -/
def isObject (t : TypeDefinition) : Bool :=
  match t.body with
  | .object _ => true
  | _ => false

/-- How often a directive is applied to the type itself. -/
def directiveCount (t : TypeDefinition) (name : String) : Nat :=
  t.directives.countP fun d => d.name.text = name

end TypeDefinition

/-- A schema: its type definitions in order. -/
structure Document where
  types : List TypeDefinition
deriving Repr

namespace Document

/-- The definitions and extensions of object types. -/
def objects (d : Document) : List TypeDefinition := d.types.filter TypeDefinition.isObject

/-- Every field declaration with the definition it stands in. -/
def fieldDefinitions (d : Document) : List (TypeDefinition × FieldDefinition) :=
  d.types.flatMap fun t => t.fields.map fun f => (t, f)

/-- The number of field declarations. -/
def totalFields (d : Document) : Nat := d.fieldDefinitions.length

theorem totalFields_eq_length (d : Document) :
    d.totalFields = (d.types.flatMap (·.fields)).length := by
  have fields : d.fieldDefinitions.map (·.2) = d.types.flatMap (·.fields) := by
    rw [fieldDefinitions, List.map_flatMap]
    refine congrArg (d.types.flatMap ·) (funext fun t => ?_)
    rw [List.map_map]
    exact List.map_id _
  rw [← fields, List.length_map, totalFields]

end Document

end SchemaHealth
