import SchemaHealth.CommandLine.Error
import SchemaHealth.Workspace.Basic

/-!
# What commands do

A command is an `Action`: one step after the other, each of which may look at the workspace, write a
file, print a text or fail. An action that fails keeps the session as its last step has left it, so
that whatever was written or printed before stays written and printed.
-/

namespace SchemaHealth.CommandLine

/-- A run of the program up to some step. -/
structure Session where
  workspace : Workspace
  /-- The text on the standard output. -/
  output : String
  /-- The lines on the standard error output. -/
  notices : List String

/-- A run that has only started: nothing is printed yet. -/
def Session.start (w : Workspace) : Session := ⟨w, "", []⟩

/-- Steps that may change the session and that may fail. -/
abbrev Action := EStateM CommandError Session

/-- How an action ends: with a result or an error, and the session as it is by then. -/
abbrev Ending := EStateM.Result CommandError Session

/-- The session that an action ends in. -/
def Ending.session : Ending α → Session
  | .ok _ session => session
  | .error _ session => session

/-- What only computes is a step that leaves the session as it is. -/
instance : MonadLift (Except CommandError) Action := ⟨MonadExcept.ofExcept⟩

namespace Action

/-- The workspace as it is at this step. -/
def workspace : Action Workspace := return (← get).workspace

/-- Prints a text and a line break. -/
def print (text : String) : Action Unit :=
  modify fun session => { session with output := session.output ++ text ++ "\n" }

/-- Says a line on the standard error output. -/
def notify (line : String) : Action Unit :=
  modify fun session => { session with notices := session.notices ++ [line] }

/-- Writes a file. -/
def write (path text : String) (failure : FileError → CommandError) : Action Unit := do
  let written ← ((← workspace).write path text).mapError failure
  modify fun session => { session with workspace := written }

end Action

end SchemaHealth.CommandLine
