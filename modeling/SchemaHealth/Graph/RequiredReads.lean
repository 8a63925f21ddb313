import SchemaHealth.Graph.References
import SchemaHealth.Ordered

/-!
# Reads that depend on a field

The nodes of `Document.requiredReads` are the fields of the object types of a schema, written
`Type.field`, in order of their first declaration. When a field is null, nothing behind it can be
read, so a field whose base type is an object type has an edge to every field of that type that is
promised never to be null.

Definitions and extensions of one type count together. Of several declarations of one field the last
one decides its base type, and the field is promised if any of them is non-null.

The graph is built in two passes: the first one collects what is declared and adds the nodes, the
second one adds the edges.
-/

namespace SchemaHealth

/-- A field of a type. -/
structure FieldId where
  type : Name
  field : Name
deriving DecidableEq, Repr

namespace FieldId

/-- The type and the field with a point between them. -/
def text (id : FieldId) : String := id.type.text ++ "." ++ id.field.text

theorem append_point_injective {xs ys us vs : List Char} (noPoint : '.' ∉ xs)
    (noPoint' : '.' ∉ us) (same : xs ++ '.' :: ys = us ++ '.' :: vs) : xs = us ∧ ys = vs := by
  induction xs generalizing us with
  | nil =>
    cases us with
    | nil => exact ⟨rfl, (List.cons.inj same).2⟩
    | cons u us => exact absurd (List.cons.inj same).1 fun point => noPoint' (by simp [← point])
  | cons x xs ih =>
    cases us with
    | nil => exact absurd (List.cons.inj same).1 fun point => noPoint (by simp [point])
    | cons u us =>
      obtain ⟨head, tail⟩ := List.cons.inj same
      obtain ⟨rest, rest'⟩ := ih (fun mem => noPoint (List.mem_cons_of_mem _ mem))
        (fun mem => noPoint' (List.mem_cons_of_mem _ mem)) tail
      exact ⟨by rw [head, rest], rest'⟩

/-- The text determines type and field, since no name contains a point. -/
theorem text_injective {a b : FieldId} (same : a.text = b.text) : a = b := by
  have chars : a.type.text.toList ++ '.' :: a.field.text.toList
      = b.type.text.toList ++ '.' :: b.field.text.toList := by
    simpa [text, String.toList_append] using congrArg String.toList same
  obtain ⟨types, fields⟩ := append_point_injective a.type.point_not_mem b.type.point_not_mem chars
  obtain ⟨type, field⟩ := a
  cases Name.ext (String.toList_inj.1 types)
  cases Name.ext (String.toList_inj.1 fields)
  rfl

end FieldId

/-! ## Declarations by type -/

/-- The shape of a declared field. -/
structure FieldInfo where
  base : Name
  isNonNull : Bool
  isList : Bool
  /-- The base type if it is no leaf. -/
  dependency? : Option Name
deriving DecidableEq, Repr

/-- The shape of a field of some declared type. -/
def FieldInfo.ofType (t : TypeRef) : FieldInfo := ⟨t.base, t.isNonNull, t.isList, t.dependency?⟩

/-- What is declared for an object type. -/
structure TypeFields where
  /-- The fields in order of first declaration, each with the shape last declared. -/
  infos : List (Name × FieldInfo)
  /-- The fields promised never to be null, in order of the first declaration that says so. -/
  promised : List Name
deriving Repr

namespace TypeFields

/-- Nothing declared. -/
def empty : TypeFields := ⟨[], []⟩

/-- One more declaration. -/
def declare (t : TypeFields) (f : FieldDefinition) : TypeFields :=
  let info := FieldInfo.ofType f.type
  { infos := setEntry t.infos f.name info
    promised := if info.isNonNull then insertLast t.promised f.name else t.promised }

end TypeFields

/-- What is declared for the object types, in order of first definition, with a graph of the
fields. -/
structure FieldTable where
  types : List (Name × TypeFields)
  graph : Graph

namespace FieldTable

/-- Nothing declared. -/
def empty : FieldTable := ⟨[], .empty⟩

/-- What is declared for a type. -/
def fieldsOf (table : FieldTable) (type : Name) : TypeFields :=
  (valueAt? table.types type).getD .empty

/-- A definition of a type begins. -/
def enter (table : FieldTable) (type : Name) : FieldTable :=
  { table with types := setEntry table.types type (table.fieldsOf type) }

/-- A field of a type is declared. -/
def declare (table : FieldTable) (type : Name) (f : FieldDefinition) : FieldTable where
  types := setEntry table.types type ((table.fieldsOf type).declare f)
  graph := table.graph.addNode (FieldId.text ⟨type, f.name⟩)

/-- One more definition of an object type. -/
def addDefinition (table : FieldTable) (t : TypeDefinition) : FieldTable :=
  t.fields.foldl (fun table f => table.declare t.name f) (table.enter t.name)

/-- All fields with their shapes. -/
def infos (table : FieldTable) : List (FieldId × FieldInfo) :=
  table.types.flatMap fun type => type.2.infos.map fun field => (⟨type.1, field.1⟩, field.2)

/-- The fields that cannot be read when a field of some shape is null. -/
def readsBehind (table : FieldTable) (info : FieldInfo) : List FieldId :=
  match info.dependency? with
  | none => []
  | some type =>
    match valueAt? table.types type with
    | none => []
    | some fields => fields.promised.map fun field => ⟨type, field⟩

/-- Adds the edges of a field. -/
def connect (table : FieldTable) (g : Graph) (field : FieldId × FieldInfo) : Graph :=
  (table.readsBehind field.2).foldl (fun g target => g.addEdge field.1.text target.text) g

end FieldTable

namespace Document

/-- What is declared in a schema, and a graph of its fields without edges. -/
def fieldTable (d : Document) : FieldTable := d.objects.foldl FieldTable.addDefinition .empty

/-- The reads that depend on the fields of a schema. -/
def requiredReads (d : Document) : Graph :=
  let table := d.fieldTable
  table.infos.foldl table.connect table.graph

end Document

end SchemaHealth
