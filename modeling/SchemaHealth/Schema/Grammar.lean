import SchemaHealth.Schema.Lexeme
import SchemaHealth.Schema.Reader

/-!
# The grammar of schema texts

One reader for each rule of the grammar. Every definition may be preceded by a description, except
for a schema definition and for extensions. No blank is needed after a keyword. Of what is read,
type definitions are kept with their directives and their field definitions; the rest is checked
and dropped.

The last section reads whole texts: `Document.parse` gives the schema, or the first thing wrong
with the text.
-/

namespace SchemaHealth.Schema

open Reader

/-! ## Lexemes -/

/-- A name. -/
def name : Reader Name := lexeme Name.read?

/-- A string, as a value or as a description. -/
def string : Reader String := lexeme readString?

/-- A declared type. -/
def typeRef : Reader TypeRef := lexeme TypeRef.read?

/-- A number; one beyond the doubles is a fault. -/
def number : Reader Literal := do
  let position ← here
  let numeral ← lexeme readNumber?
  match numeral.value? with
  | some value => return .number value
  | none =>
    note ⟨.numberOutOfRange, position⟩
    return .null

/-- `true` or `false`. -/
def boolean : Reader Bool :=
  rule ((do literal "true"; return true) <|> (do literal "false"; return false))

/-- A name that does not start with `true`, `false` or `null`. -/
def readEnumName? (cs : List Char) : Option (Name × List Char) :=
  if ["true", "false", "null"].any fun word => word.toList.isPrefixOf cs then none
  else Name.read? cs

/-- An enum value. -/
def enumName : Reader Name := lexeme readEnumName?

/-! ## Literals and directives -/

/-- A literal value that is nested less than `depth` deep. -/
def literalWithin : Nat → Reader Literal
  | 0 => fun _ => ⟨0, none⟩
  | depth + 1 =>
    rule (number <|> (.string <$> string) <|> (.boolean <$> boolean)
      <|> rule (do literal "null"; return .null)
      <|> (.enum <$> enumName)
      <|> rule (do
        literal "["
        let items ← (literalWithin depth).many
        literal "]"
        return .list items)
      <|> rule (do
        literal "\x7b"
        let fields ← (rule do
          let key ← name
          literal ":"
          let value ← literalWithin depth
          return (key, value)).many
        literal "\x7d"
        return .ofFields fields))

/-- A literal value. Every level of nesting takes a character. -/
def literalValue : Reader Literal := fun c => literalWithin (c.rest.length + 1) c

/-- An argument of a directive. -/
def argument : Reader (Name × Literal) := rule do
  let key ← name
  literal ":"
  let value ← literalValue
  return (key, value)

/-- The arguments of a directive. -/
def arguments : Reader (List (Name × Literal)) := rule do
  literal "("
  let all ← argument.many1
  literal ")"
  return all

/-- A directive. -/
def directive : Reader Directive := rule do
  literal "@"
  let key ← name
  let all ← optional arguments
  return ⟨key, all.getD []⟩

/-- One or more directives. -/
def directives : Reader (List Directive) := rule directive.many1

/-- Any number of directives. -/
def anyDirectives : Reader (List Directive) := do return (← optional directives).getD []

/-! ## Fields and arguments -/

/-- The declaration of an argument or of an input field. -/
def inputValue : Reader Unit := rule do
  discard (optional string)
  discard name
  literal ":"
  discard typeRef
  discard (optional (rule do literal "="; literalValue))
  discard anyDirectives

/-- The arguments of a field or of a directive definition. -/
def argumentDefinitions : Reader Unit := rule do
  literal "("
  discard inputValue.many1
  literal ")"

/-- The declaration of a field. -/
def fieldDefinition : Reader FieldDefinition := rule do
  let position ← here
  discard (optional string)
  let key ← name
  discard (optional argumentDefinitions)
  literal ":"
  let type ← typeRef
  let applied ← anyDirectives
  return ⟨key, type, applied, position⟩

/-- The field definitions of a type. -/
def fieldDefinitions : Reader (List FieldDefinition) := rule do
  literal "\x7b"
  let all ← fieldDefinition.many1
  literal "\x7d"
  return all

/-- The fields of an input object. -/
def inputFields : Reader Unit := rule do
  literal "\x7b"
  discard inputValue.many1
  literal "\x7d"

/-- The values of an enum. -/
def enumValues : Reader Unit := rule do
  literal "\x7b"
  discard (rule do
    discard (optional string)
    discard enumName
    discard anyDirectives).many1
  literal "\x7d"

/-- The members of a union. -/
def unionMembers : Reader Unit := rule do
  literal "="
  discard (optional (literal "|"))
  discard (separated "|" name)

/-- The interfaces that a type implements. -/
def interfaces : Reader Unit := rule do
  literal "implements"
  discard (optional (literal "&"))
  discard (separated "&" name)

/-! ## Type definitions -/

/-- The keyword of an extension. -/
def extend : Reader Unit := rule (literal "extend")

/-- The rest of a definition after its name: directives and contents, both of them optional. -/
def anyContents {α : Type} (contents : Reader α) : Reader (List Directive × Option α) := do
  let applied ← anyDirectives
  let all ← optional contents
  return (applied, all)

/-- The rest of an extension after its name: contents, or at least directives. -/
def someContents {α : Type} (contents : Reader α) : Reader (List Directive × Option α) :=
  (do
    let applied ← anyDirectives
    let all ← contents
    return (applied, some all))
  <|> (do
    let applied ← directives
    return (applied, none))

/-- A definition or an extension with a keyword. -/
def definition {α : Type} (keyword : String) (body : Option α → TypeBody)
    (defined extended : Reader (List Directive × Option α)) : Reader TypeDefinition := rule do
  let position ← here
  (do
    discard (optional string)
    literal keyword
    let key ← name
    let (applied, contents) ← defined
    return ⟨key, body contents, false, applied, position⟩)
  <|> (do
    extend
    literal keyword
    let key ← name
    let (applied, contents) ← extended
    return ⟨key, body contents, true, applied, position⟩)

/-- A scalar type. An extension has directives. -/
def scalarType : Reader TypeDefinition :=
  definition "scalar" (fun (_ : Option Unit) => .scalar)
    (do return (← anyDirectives, none))
    (do return (← directives, none))

/-- An object type. An extension may consist of interfaces alone. -/
def objectType : Reader TypeDefinition :=
  definition "type" (fun fields => .object (fields.getD []))
    (do discard (optional interfaces); anyContents fieldDefinitions)
    ((do discard (optional interfaces); someContents fieldDefinitions)
      <|> (do interfaces; return ([], none)))

/-- An interface type. -/
def interfaceType : Reader TypeDefinition :=
  definition "interface" (fun fields => .interface (fields.getD []))
    (do discard (optional interfaces); anyContents fieldDefinitions)
    (do discard (optional interfaces); someContents fieldDefinitions)

/-- A union type. -/
def unionType : Reader TypeDefinition :=
  definition "union" (fun _ => .union) (anyContents unionMembers) (someContents unionMembers)

/-- An enum type. -/
def enumType : Reader TypeDefinition :=
  definition "enum" (fun _ => .enum) (anyContents enumValues) (someContents enumValues)

/-- An input object type. -/
def inputObjectType : Reader TypeDefinition :=
  definition "input" (fun _ => .inputObject) (anyContents inputFields) (someContents inputFields)

/-- A type definition. -/
def typeDefinition : Reader TypeDefinition :=
  rule (scalarType <|> objectType <|> interfaceType <|> unionType <|> enumType
    <|> inputObjectType)

/-! ## Schema and directive definitions -/

/-- The keyword of a root. -/
def root : Reader Root :=
  rule ((do literal "query"; return .query)
    <|> (do literal "mutation"; return .mutation)
    <|> (do literal "subscription"; return .subscription))

/-- A root of a schema definition and its place. -/
def rootDefinition : Reader (Root × Position) := rule do
  let position ← here
  let key ← root
  literal ":"
  discard name
  return (key, position)

/-- The first root that comes again after it has been named. -/
def repeatedRoot? (named : List Root) : List (Root × Position) → Option (Root × Position)
  | [] => none
  | (key, position) :: rest =>
    if key ∈ named then some (key, position) else repeatedRoot? (key :: named) rest

/-- Directives and roots of a schema definition or extension at a place. Only a definition has to
name a query root. -/
def schemaRoots (position : Position) (isExtension : Bool) : Reader Unit := do
  discard anyDirectives
  literal "\x7b"
  let roots ← rootDefinition.many1
  literal "\x7d"
  match repeatedRoot? [] roots with
  | some (key, again) => note ⟨.repeatedRoot key, again⟩
  | none => pure ()
  if !isExtension && roots.all fun r => r.1 ≠ .query then note ⟨.missingQueryRoot, position⟩

/-- A schema definition. An extension may consist of directives alone. -/
def schemaDefinition : Reader Unit := rule do
  let position ← here
  (do
    literal "schema"
    schemaRoots position false)
  <|> (do
    extend
    literal "schema"
    schemaRoots position true <|> discard directives)

/-- The places that a directive may be defined for. Of two places where one starts with the other,
the longer comes first. -/
def directivePlaces : List String :=
  ["QUERY", "MUTATION", "SUBSCRIPTION", "FIELD_DEFINITION", "FIELD", "FRAGMENT_DEFINITION",
    "FRAGMENT_SPREAD", "INLINE_FRAGMENT", "VARIABLE_DEFINITION", "SCHEMA", "SCALAR", "OBJECT",
    "ARGUMENT_DEFINITION", "INTERFACE", "UNION", "ENUM_VALUE", "ENUM", "INPUT_OBJECT",
    "INPUT_FIELD_DEFINITION"]

/-- The place that a text starts with. -/
def readPlace? (cs : List Char) : Option (Unit × List Char) :=
  (directivePlaces.findSome? fun place => place.toList.isPrefixOf? cs).map ((), ·)

/-- A directive definition. -/
def directiveDefinition : Reader Unit := rule do
  discard (optional string)
  literal "directive"
  literal "@"
  discard name
  discard (optional argumentDefinitions)
  discard (optional (literal "repeatable"))
  literal "on"
  rule do
    discard (optional (literal "|"))
    discard (separated "|" (lexeme readPlace?))

/-! ## Whole texts -/

/-- A definition, if it defines a type. -/
def systemDefinition : Reader (Option TypeDefinition) :=
  rule ((do schemaDefinition; return none)
    <|> (some <$> typeDefinition)
    <|> (do directiveDefinition; return none))

/-- A whole text: definitions, of which the types are kept. -/
def document : Reader Document := do
  let all ← systemDefinition.many1
  finish
  return ⟨all.filterMap id⟩

/-- The place at an offset of a text. A line ends with a line feed, or with a carriage return right
before one. -/
def positionAt : Nat → List Char → Position → Position
  | 0, _, p | _, [], p => p
  | 1, '\r' :: '\n' :: _, p => ⟨p.line + 1, 1⟩
  | n + 2, '\r' :: '\n' :: cs, p => positionAt n cs ⟨p.line + 1, 1⟩
  | n + 1, c :: cs, p =>
    positionAt n cs (if c = '\n' then ⟨p.line + 1, 1⟩ else ⟨p.line, p.column + 1⟩)

end Schema

/-- The schema that a text describes. A text that does not follow the grammar is malformed at the
furthest place where a rule was tried in vain; otherwise the first fault in the text counts. -/
def Document.parse (text : String) : Except Schema.Fault Document :=
  let cs := text.toList
  match Schema.document (.start cs) with
  | ⟨reach, none⟩ => .error ⟨.malformed, Schema.positionAt reach cs .start⟩
  | ⟨_, some (d, cursor)⟩ =>
    match cursor.fault with
    | some fault => .error fault
    | none => .ok d

end SchemaHealth
