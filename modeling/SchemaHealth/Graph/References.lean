import SchemaHealth.Graph.Basic
import SchemaHealth.Schema.Document

/-!
# References between object types

The nodes of `Document.references` are the object types of a schema in order of their first
definition. A type has an edge to the base type of each of its fields, whatever the wrappers, unless
that is a built-in scalar; definitions and extensions of one type count together.
-/

namespace SchemaHealth

/-- The scalars that are leaves of every schema. -/
def builtinScalars : List String :=
  ["String", "Int", "Float", "Boolean", "ID", "Date", "DateTime", "Time", "JSON"]

/-- Whether a type is one of the scalars that are leaves. -/
def isBuiltinScalar (type : String) : Bool := type ∈ builtinScalars

/-- The base type of a declared type if it is no leaf. -/
def TypeRef.dependency? (t : TypeRef) : Option Name :=
  if isBuiltinScalar t.base.text then none else some t.base

/-- Adds the node and the edges of one definition of an object type. -/
def addReferences (g : Graph) (t : TypeDefinition) : Graph :=
  (t.fields.filterMap fun f => f.type.dependency?).foldl
    (fun g target => g.addEdge t.name.text target.text) (g.addNode t.name.text)

/-- The references between the object types of a schema. -/
def Document.references (d : Document) : Graph := d.objects.foldl addReferences .empty

end SchemaHealth
