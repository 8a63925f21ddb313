import SchemaHealth.BlastRadius.Analysis
import SchemaHealth.Cycle.Report
import SchemaHealth.Rule.Basic
import SchemaHealth.Rule.DeprecationReason
import SchemaHealth.Rule.Inflection
import SchemaHealth.Rule.PersonalData

/-!
# The nine rules

Every rule gives its violations and a summary of them. Most look at one field at a time
(`Document.fieldViolations`); the rules on cycles and on blast radii report what the analyses find.
`battery` lists all rules in the order in which they are run.
-/

namespace SchemaHealth

/-- The text in double quotes. -/
def quoted (text : String) : String := "\"" ++ text ++ "\""

namespace Rule

/-- A rule whose check never fails. -/
def infallible (name : String) (weight : Float) (description : String)
    (find : Document → List Violation) (message : List Violation → String) : Rule :=
  ⟨name, weight, description, fun d =>
    let violations := find d
    .ok (.ofViolations name violations (message violations))⟩

/-! ## Rules on single fields -/

/-- Fields whose name hints at personal data say so. -/
def personalData : Rule :=
  infallible "PII" 10 "Detects personal-data fields not marked with @pii"
    (fun d => d.fieldViolations fun _ f =>
      if hintsAtPersonalData f.name.text && !f.has "pii" then
        some ("Field " ++ quoted f.name.text ++
          " appears to contain PII but is not marked with @pii directive")
      else none)
    (fun found => "Found " ++ toString found.length ++
      " fields that are potentially PII but are not marked with the @pii directive.")

/-- What is wrong with the deprecation of a field. -/
def deprecationComplaint? (f : FieldDefinition) : Option String :=
  match findDirective? f.directives "deprecated" with
  | none => none
  | some directive =>
    match directive.stringArgument? "reason" with
    | some reason =>
      if isGoodReason reason then none
      else some ("Field " ++ quoted f.name.text ++ " has an invalid deprecation reason")
    | none => some ("Field " ++ quoted f.name.text ++ " is deprecated without a reason")

/-- Deprecated fields give a date and a way to migrate. -/
def deprecation : Rule :=
  infallible "Deprecation" 5 "Checks @deprecated reasons for a date and a migration path"
    (fun d => d.fieldViolations fun _ f => deprecationComplaint? f)
    (fun found => foundMessage found.length "invalid deprecations" "All deprecations are valid.")

/-- Fields that are resolved elsewhere may be null. -/
def nullableExternal : Rule :=
  infallible "Nullable External" 15 "Detects @external fields declared non-null"
    (fun d => d.fieldViolations fun _ f =>
      if f.type.isNonNull && f.has "external" then
        some ("Field " ++ quoted f.name.text ++ " is external but not nullable")
      else none)
    (fun found => foundMessage found.length "external fields that are not nullable"
      "All external fields are nullable.")

/-- Fields that return a list have a plural name. -/
def pluralCollections : Rule :=
  infallible "Plural Collections" 5 "Detects list fields with singular names"
    (fun d => d.fieldViolations fun _ f =>
      if f.type.isNullableList && !isPlural f.name.text then
        some ("Field " ++ quoted f.name.text ++ " returns a list but is not plural")
      else none)
    (fun found => foundMessage found.length "collection fields that are not plural"
      "All collection fields are plural.")

/-- The names of Boolean fields do without `is`. -/
def booleanPrefix : Rule :=
  infallible "Boolean Prefix" 5 "Detects Boolean fields prefixed with 'is'"
    (fun d => d.fieldViolations fun _ f =>
      if f.type.bare?.any (fun base => base.text = "Boolean")
          && "is".toList.isPrefixOf f.name.text.toList then
        some ("Field " ++ quoted f.name.text ++
          " is a boolean and should not be prefixed with 'is'")
      else none)
    (fun found => foundMessage found.length "boolean fields incorrectly prefixed with 'is'"
      "All boolean fields are correctly named.")

/-- Whether a field returns a plain type whose name does not end in `Result`. -/
def lacksResult (f : FieldDefinition) : Bool :=
  f.type.bare?.any fun base => !"Result".toList.isSuffixOf base.text.toList

/-- Mutations return a union for the result. -/
def problemUnion : Rule :=
  infallible "Problem Union" 10 "Checks that mutations return a union type ending in 'Result'"
    (fun d => (d.objects.filter fun t => t.name.text = "Mutation").flatMap fun t =>
      (t.fields.filter lacksResult).map fun f =>
        ⟨"Mutation " ++ quoted f.name.text ++
          " does not return a union type ending in 'Result'", f.location t⟩)
    (fun found => foundMessage found.length "mutations not returning proper union types"
      "All mutations return a valid union type.")

/-! ## Rules on types and on the whole schema -/

/-- Object types have at most the given number of keys. -/
def compositeKeys (limit : Nat) : Rule :=
  infallible "Composite Keys" 5 "Detects entity types with too many @key directives"
    (fun d => (d.objects.filter fun t => limit < t.directiveCount "key").map fun t =>
      ⟨"Type " ++ quoted t.name.text ++ " has " ++ toString (t.directiveCount "key") ++
          " composite keys, which exceeds the maximum of " ++ toString limit,
        .ofType t.name.text t.position⟩)
    (fun found => "Found " ++ toString found.length ++ " types with more than " ++
      toString limit ++ " composite keys.")

/-- Object types do not refer to each other in a circle. -/
def cycleCounter : Rule :=
  infallible "Cycle Counter" 15 "Counts unique cycles in the type reference graph"
    (fun d => d.cycleReport.cycles.map fun c =>
      ⟨"Cycle of length " ++ toString c.length ++ ": " ++ c.display,
        .ofCoordinate (c.path.head?.getD "")⟩)
    (fun found => "Found " ++ toString found.length ++ " cycles in the schema.")

/-- Not too much is lost when a field is null. The check fails for a policy that is not valid. -/
def nullBlastRadius (policy : BlastPolicy) : Rule where
  name := "Null Blast Radius"
  weight := 20
  description := "Detects fields whose null result wipes out many required reads"
  check d :=
    match policy.validate with
    | .error e => .error (.error e.message)
    | .ok () =>
      let violations := (d.blastAnalysis policy).violations.map fun v =>
        (⟨v.message, .ofCoordinate v.field⟩ : Violation)
      .ok (.ofViolations "Null Blast Radius" violations
        ("Found " ++ toString violations.length ++ " fields with a null blast radius greater than "
          ++ toString policy.maxRadius ++ "."))

end Rule

/-- All rules in order, with the most keys that a type may have and the policy for blast radii. -/
def battery (keyLimit : Nat) (policy : BlastPolicy) : List Rule :=
  [.personalData, .compositeKeys keyLimit, .cycleCounter, .nullBlastRadius policy, .deprecation,
    .problemUnion, .nullableExternal, .pluralCollections, .booleanPrefix]

end SchemaHealth
