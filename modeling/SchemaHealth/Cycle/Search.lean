import SchemaHealth.Cycle.Basic
import SchemaHealth.Graph.Reach

/-!
# The search for cycles

`Graph.cycles` goes through a graph depth first, every name once. Whenever a target lies on the path
to the current name, the part of the path from that target on is closed to a cycle. Cycles with the
same key are kept once, in the order in which they are found.

So which cycles are found depends on the order of nodes and targets; that there is one at all does
not.
-/

namespace SchemaHealth

/-- What a search knows: the names it has entered, and the cycles found. -/
structure CycleSearch where
  visited : List String
  found : List Cycle
deriving Repr

namespace CycleSearch

/-- Notes that a name is entered. -/
def enter (s : CycleSearch) (name : String) : CycleSearch :=
  { s with visited := s.visited ++ [name] }

/-- Adds a cycle unless one with its key is there. -/
def record (s : CycleSearch) (c : Cycle) : CycleSearch :=
  if s.found.any fun old => old.key = c.key then s else { s with found := s.found ++ [c] }

end CycleSearch

/-- The cycle that goes along a path from one of its names to the end and back to that name. -/
def closeCycle (path : List String) (back : String) : Cycle :=
  .ofPath (path.dropWhile (· ≠ back) ++ [back])

namespace Graph

/-- Follows some names in order at the end of a path: a name on the path closes a cycle, a name that
was never entered is entered, and other names are passed over. -/
def explore (g : Graph) (path : List String) : List String → CycleSearch → CycleSearch
  | [], s => s
  | name :: rest, s =>
    if name ∈ path then g.explore path rest (s.record (closeCycle path name))
    else if name ∈ s.visited then g.explore path rest s
    else
      g.explore path rest (g.explore (path ++ [name]) (g.targets name) (s.enter name))
termination_by targets => (g.remaining path, targets.length)
decreasing_by
  · exact .right _ (Nat.lt_succ_self _)
  · exact .right _ (Nat.lt_succ_self _)
  · rename_i fresh _
    rcases remaining_append_lt_or (g := g) fresh with fewer | ⟨noMore, leaf⟩
    · exact .left _ _ fewer
    · rw [leaf]
      rcases Nat.lt_or_eq_of_le noMore with fewer | same
      · exact .left _ _ fewer
      · rw [same]
        exact .right _ (Nat.succ_pos _)
  · exact .right _ (Nat.lt_succ_self _)

/-- The cycles that the search finds from all nodes in order. -/
def cycles (g : Graph) : List Cycle := (g.explore [] g.nodes ⟨[], []⟩).found

end Graph

end SchemaHealth
