import SchemaHealth.Graph.Basic
import Std.Data.TreeMap.Lemmas

/-!
# Tables of targets

A walk through a graph looks up the targets of many names. `Graph.table` arranges the rows of the
graph for that; `Table.targets_eq` says that nothing else changes.
-/

namespace SchemaHealth.Graph

/-- Rows arranged by their names. -/
def arranged : List (String × List String) → Std.TreeMap String (List String)
  | [] => ∅
  | row :: rows => (arranged rows).insert row.1 row.2

theorem getD_arranged (rows : List (String × List String)) (name : String) :
    (arranged rows).getD name [] = (listed? name rows).getD [] := by
  induction rows with
  | nil => simp [arranged, listed?]
  | cons row rows ih =>
    rw [arranged, Std.TreeMap.getD_insert, listed?, ih]
    by_cases same : row.1 = name <;> simp [Std.LawfulEqCmp.compare_eq_iff_eq, same]

/-- The targets of the names of a graph, arranged for looking up. -/
structure Table (g : Graph) where
  rows : Std.TreeMap String (List String)
  targets_eq : ∀ name, rows.getD name [] = g.targets name

/-- The targets of a name. -/
def Table.targets {g : Graph} (t : Table g) (name : String) : List String := t.rows.getD name []

@[simp] theorem Table.targets_eq_targets {g : Graph} (t : Table g) (name : String) :
    t.targets name = g.targets name :=
  t.targets_eq name

/-- The table of a graph. -/
def table (g : Graph) : Table g := ⟨arranged g.rows, getD_arranged g.rows⟩

end SchemaHealth.Graph
