import SchemaHealth.Report.Basic

/-!
# Rules

A rule has a name, a weight and a check, which finds the places of a schema that break the rule. A
check may also fail, for instance for want of sensible settings.
-/

namespace SchemaHealth

/-- Why the check of a rule came to nothing. -/
inductive RuleFailure where
  | error (message : String)
  | panic (message : String)
deriving DecidableEq, Repr

/-- The failure in words. -/
def RuleFailure.text : RuleFailure → String
  | error message => message
  | panic message => "Panic: " ++ message

/-- A rule for schemas. -/
structure Rule where
  name : String
  weight : Float
  description : String
  check : Document → Except RuleFailure RuleResult

/-- The rule run on a schema. A failure gives a result too. -/
def Rule.run (rule : Rule) (d : Document) : RuleResult :=
  match rule.check d with
  | .ok result => result
  | .error failure => .failed rule.name failure.text

/-- The location of a field of a type. -/
def FieldDefinition.location (t : TypeDefinition) (f : FieldDefinition) : Location :=
  .ofField t.name.text f.name.text f.position

/-- How many there are of what was found, or that there is nothing to find. -/
def foundMessage (n : Nat) (what clean : String) : String :=
  if 0 < n then "Found " ++ toString n ++ " " ++ what else clean

/-- The violations of a rule that looks at one field at a time, in order. -/
def Document.fieldViolations (d : Document)
    (complaint? : TypeDefinition → FieldDefinition → Option String) : List Violation :=
  d.fieldDefinitions.filterMap fun (t, f) =>
    (complaint? t f).map fun message => ⟨message, f.location t⟩

end SchemaHealth
