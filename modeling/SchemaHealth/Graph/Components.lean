import SchemaHealth.Dictionary
import SchemaHealth.Graph.Reach

/-!
# Groups of mutually reachable names

Two names belong together when each is reached from the other in one or more steps. Only names on
a cycle belong to a group, and a name alone in its group has an edge to itself.

The members of a group increase, and so do the groups by their members. So the groups depend on the
edges alone and not on the order in which they were added.
-/

namespace SchemaHealth.Graph

/-- All names of a graph in increasing order, targets included. -/
def names (g : Graph) : List String :=
  (Dictionary.ofList ((g.nodes ++ g.rows.flatMap (·.2)).map fun name => (name, ()))).keys

/-- Every name that is reached from itself, in increasing order, with all that it reaches. -/
def cyclic (g : Graph) : List (String × List String) :=
  (g.names.map fun name => (name, g.ahead name)).filter fun row => row.1 ∈ row.2

/-- Whether the names of two rows reach each other. -/
def together (a b : String × List String) : Bool := b.1 ∈ a.2 && a.1 ∈ b.2

/-- The groups among some rows: the first name with all that are mutually reachable with it, then
the groups among the others. -/
def groups : List (String × List String) → List (List String)
  | [] => []
  | row :: rest =>
    (row.1 :: (rest.filter (together row)).map (·.1)) ::
      groups (rest.filter fun other => !together row other)
termination_by rows => rows.length
decreasing_by
  rw [List.length_unattach]
  exact Nat.lt_succ_of_le (Nat.le_trans (List.length_filter_le _ _) (by simp))

/-- The groups of mutually reachable names. Each comes up at its least member. -/
def components (g : Graph) : List (List String) := groups g.cyclic

end SchemaHealth.Graph
