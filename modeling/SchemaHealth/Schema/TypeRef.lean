import SchemaHealth.Schema.Name

/-!
# Declared types

The declared type of a field is a named type in any number of list and non-null wrappers.
`TypeRef.print` writes it, as in `[User!]!`, and `TypeRef.read?` takes one off a text; no blanks
stand inside a declared type, and at most one exclamation mark follows each part.

The grammar has no non-null wrappers (`ParsedType`): there each part tells whether it may be null.
-/

namespace SchemaHealth

/-- A declared type as the grammar has it: a name or a list, either of which may be null unless an
exclamation mark follows. -/
inductive ParsedType where
  | named (name : Name) (nullable : Bool)
  | list (item : ParsedType) (nullable : Bool)
deriving DecidableEq, Repr

namespace ParsedType

/-- Whether what was just read may be null, and the rest of the text. -/
def readMark : List Char → Bool × List Char
  | '!' :: rest => (false, rest)
  | rest => (true, rest)

/-- The type that a text starts with, and the rest of the text. -/
def read? : List Char → Option (ParsedType × List Char)
  | '[' :: cs =>
    match read? cs with
    | some (item, ']' :: rest) => some (list item (readMark rest).1, (readMark rest).2)
    | _ => none
  | cs => (Name.read? cs).map fun (name, rest) =>
    (named name (readMark rest).1, (readMark rest).2)

end ParsedType

/-- The declared type of a field, wrappers included. -/
inductive TypeRef where
  | named (name : Name)
  | list (item : TypeRef)
  | nonNull (inner : TypeRef)
deriving DecidableEq, Repr

namespace TypeRef

/-- The named type inside all wrappers. -/
def base : TypeRef → Name
  | named name => name
  | list inner | nonNull inner => inner.base

/-- Whether the outermost wrapper is non-null. -/
def isNonNull : TypeRef → Bool
  | nonNull _ => true
  | _ => false

/-- Whether the type is a list once an outermost non-null wrapper is taken off. -/
def isList : TypeRef → Bool
  | list _ | nonNull (list _) => true
  | _ => false

/-- Whether the outermost wrapper is a list. -/
def isNullableList : TypeRef → Bool
  | list _ => true
  | _ => false

/-- The named type if there is no wrapper at all. -/
def bare? : TypeRef → Option Name
  | named name => some name
  | _ => none

/-- The characters of a declared type. -/
def printChars : TypeRef → List Char
  | named name => name.text.toList
  | list item => '[' :: (item.printChars ++ [']'])
  | nonNull inner => inner.printChars ++ ['!']

/-- The text of a declared type. -/
def print (t : TypeRef) : String := String.ofList t.printChars

/-- A type that may be null or not. -/
def withNull (nullable : Bool) (inner : TypeRef) : TypeRef :=
  if nullable then inner else nonNull inner

/-- A declared type in wrappers. -/
def ofParsed : ParsedType → TypeRef
  | .named name nullable => withNull nullable (named name)
  | .list item nullable => withNull nullable (list (ofParsed item))

/-- The declared type that a text starts with, and the rest of the text. -/
def read? (cs : List Char) : Option (TypeRef × List Char) :=
  (ParsedType.read? cs).map fun (parsed, rest) => (ofParsed parsed, rest)

/-- No non-null wrapper directly inside another one. -/
def SingleMarks : TypeRef → Prop
  | named _ => True
  | list item => item.SingleMarks
  | nonNull inner => inner.isNonNull = false ∧ inner.SingleMarks

end TypeRef

end SchemaHealth
