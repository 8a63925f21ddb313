import SchemaHealth.Text.Phrase

/-!
# Arguments

The arguments of a command are options, at most one operand, and at most one word that starts a
command of the next level. Options may stand anywhere. The value of an option stands in the same
argument, after an equals sign or right after the letter, or is the next argument, which then does
not look like an option. After `--` all arguments are operands.

`ArgumentRules.read` goes over the arguments in order. The value of an option that stands in an
argument of its own is judged only when the next option or operand is met, or by `Reading.settle`
at the end: so a command that follows it is looked at first.
-/

namespace SchemaHealth.CommandLine

/-- Why no command is run. -/
inductive Stop where
  | help
  | version
  /-- The arguments do not follow the rules. -/
  | misuse
deriving DecidableEq, Repr

/-- What an option is for. -/
inductive OptionKind where
  | stop (reason : Stop)
  | flag
  | value (isRepeatable : Bool) (accepts : String → Bool)

/-- An option with its name and perhaps a letter. -/
structure OptionRule where
  name : String
  letter : Option Char
  kind : OptionKind

/-- What arguments a command takes. -/
structure ArgumentRules where
  options : List OptionRule
  /-- Whether a text is an operand; absent for a command without one. -/
  operand : Option (String → Bool)
  /-- The words that start a command. -/
  commands : List String

/-- The options and the operand that were given. Flags have an empty value. -/
structure Arguments where
  options : List (String × String)
  operand : Option String

namespace Arguments

/-- No arguments. -/
def empty : Arguments := ⟨[], none⟩

/-- Whether an option is given. -/
def has (a : Arguments) (name : String) : Bool := a.options.any fun given => given.1 = name

/-- The values given to an option, in order. -/
def values (a : Arguments) (name : String) : List String :=
  (a.options.filter fun given => given.1 = name).map (·.2)

/-- The value given to an option. -/
def value? (a : Arguments) (name : String) : Option String := (a.values name).head?

/-- The arguments with one more option and its value. Only some options may be repeated. -/
def enter (a : Arguments) (rule : OptionRule) (value : String) : Except Stop Arguments :=
  let entered := { a with options := a.options ++ [(rule.name, value)] }
  match rule.kind with
  | .stop reason => .error reason
  | .flag => if a.has rule.name then .error .misuse else .ok entered
  | .value isRepeatable accepts =>
    if !isRepeatable && a.has rule.name || !accepts value then .error .misuse else .ok entered

end Arguments

/-- Arguments while they are read: what is settled, and an option that takes its value from the
next argument, or has just taken it. -/
structure Reading where
  arguments : Arguments
  pending : Option (OptionRule × Option String)

namespace Reading

/-- Nothing read so far. -/
def start : Reading := ⟨.empty, none⟩

/-- Whether the next argument is the value of an option. -/
def isAwaiting (r : Reading) : Bool := r.pending.any fun option => option.2.isNone

/-- The arguments with the pending option entered. -/
def settle (r : Reading) : Except Stop Arguments :=
  match r.pending with
  | none => .ok r.arguments
  | some (_, none) => .error .misuse
  | some (rule, some value) => r.arguments.enter rule value

/-- Enters an option with its value. -/
def enter (r : Reading) (rule : OptionRule) (value : String) : Except Stop Reading := do
  return ⟨← (← r.settle).enter rule value, none⟩

/-- Starts an option whose value comes next. -/
def await (r : Reading) (rule : OptionRule) : Except Stop Reading := do
  return ⟨← r.settle, some (rule, none)⟩

/-- Gives the pending option its value. -/
def supply (r : Reading) (value : String) : Reading :=
  { r with pending := r.pending.map fun option => (option.1, some value) }

/-- Enters an operand. -/
def enterOperand (r : Reading) (rules : ArgumentRules) (text : String) : Except Stop Reading := do
  let arguments ← r.settle
  match rules.operand with
  | some accepts =>
    if arguments.operand.isNone && accepts text then
      return ⟨{ arguments with operand := some text }, none⟩
    else .error .misuse
  | none => .error .misuse

/-- Reads an option given by its name, after the two dashes. -/
def readNamed (r : Reading) (rules : ArgumentRules) (cs : List Char) : Except Stop Reading :=
  let (name, value) := Text.splitAtFirst '=' cs
  match rules.options.find? fun rule => rule.name = String.ofList name with
  | none => .error .misuse
  | some rule =>
    match rule.kind, value with
    | .value .., some value => r.enter rule (String.ofList value)
    | .value .., none => r.await rule
    | _, some _ => .error .misuse
    | _, none => r.enter rule ""

/-- Reads options given by their letters, after the dash. The first that takes a value ends them:
what follows it is the value. -/
def readLetters (r : Reading) (rules : ArgumentRules) : List Char → Except Stop Reading
  | [] => .ok r
  | c :: cs =>
    match rules.options.find? fun rule => rule.letter = some c with
    | none => .error .misuse
    | some rule =>
      match rule.kind, cs with
      | .value .., [] => r.await rule
      | .value .., '=' :: value => r.enter rule (String.ofList value)
      | .value .., value => r.enter rule (String.ofList value)
      | _, cs => do (← r.enter rule "").readLetters rules cs

end Reading

/-- Whether an argument looks like an option. -/
def looksLikeOption (argument : String) : Bool :=
  ['-'].isPrefixOf argument.toList && argument != "-"

/-- Reads arguments up to the word that starts a command, which is given back with the arguments
that follow it. -/
def ArgumentRules.read (rules : ArgumentRules) (onlyOperands : Bool) (r : Reading) :
    List String → Except Stop (Reading × Option (String × List String))
  | [] => .ok (r, none)
  | argument :: rest => do
    if onlyOperands then rules.read true (← r.enterOperand rules argument) rest
    else if r.isAwaiting then
      if looksLikeOption argument then .error .misuse
      else rules.read false (r.supply argument) rest
    else if rules.commands.contains argument then return (r, some (argument, rest))
    else if argument = "--" then rules.read true r rest
    else
      match argument.toList with
      | '-' :: '-' :: cs => rules.read false (← r.readNamed rules cs) rest
      | '-' :: c :: cs => rules.read false (← r.readLetters rules (c :: cs)) rest
      | _ => rules.read false (← r.enterOperand rules argument) rest

/-- All arguments of a command that starts no other. -/
def ArgumentRules.readAll (rules : ArgumentRules) (arguments : List String) :
    Except Stop Arguments := do
  let (r, _) ← rules.read false .start arguments
  r.settle

end SchemaHealth.CommandLine
