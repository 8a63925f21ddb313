import SchemaHealth.Text.Layout

/-!
# Cycles in canonical form

A cycle is written as a closed path: the last name repeats the first. Closed paths that differ in
their starting point describe one cycle, and `canonical` picks the one that starts at the least
name. Two cycles count as the same when their keys are equal.
-/

namespace SchemaHealth

/-- The least of some names. -/
def leastName : String → List String → String
  | least, [] => least
  | least, name :: rest => leastName (if name < least then name else least) rest

/-- A closed path without the repeated name, rotated to start at the first place of its least
name. -/
def rotateToLeast : List String → List String
  | [] => []
  | name :: rest =>
    let least := leastName name rest
    (name :: rest).dropWhile (· ≠ least) ++ (name :: rest).takeWhile (· ≠ least)

/-- A closed path that starts and ends at its least name. A path of fewer than two names is left as
it is. -/
def canonical (path : List String) : List String :=
  if path.length < 2 then path
  else
    let body := rotateToLeast path.dropLast
    body ++ body.take 1

/-- A cycle as a closed path. -/
structure Cycle where
  path : List String
deriving DecidableEq, Repr

namespace Cycle

/-- The cycle that a closed path goes round. -/
def ofPath (path : List String) : Cycle := ⟨canonical path⟩

/-- The number of names on the cycle. -/
def length (c : Cycle) : Nat := c.path.length - 1

/-- The names on the cycle, without the repeated one. -/
def types (c : Cycle) : List String := c.path.take c.length

/-- The text by which cycles are told apart. -/
def key (c : Cycle) : String := Text.joined "," c.path

/-- The cycle for display. -/
def display (c : Cycle) : String := Text.joined " → " c.path

end Cycle

end SchemaHealth
