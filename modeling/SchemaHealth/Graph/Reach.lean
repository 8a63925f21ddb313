import SchemaHealth.Graph.Table
import SchemaHealth.Graph.Visited

/-!
# Names reached in a graph

`Graph.reach` lists what can be reached from a name, the name itself included, in depth-first
order: a name comes before the names first reached through it, and targets are followed in the
order in which they are listed. `Graph.ahead` lists what can be reached in one or more steps.

The walk keeps a stack of names to visit. It ends since every step either visits a node or takes a
name off the stack without putting others there.
-/

namespace SchemaHealth.Graph

theorem countP_lt_countP {α : Type} {p q : α → Bool} {l : List α}
    (weaker : ∀ b, q b = true → p b = true) {a : α} (mem : a ∈ l) (holds : p a = true)
    (fails : q a = false) : l.countP q < l.countP p := by
  induction l with
  | nil => cases mem
  | cons b l ih =>
    rw [List.countP_cons, List.countP_cons]
    rcases List.mem_cons.1 mem with rfl | later
    · rw [holds, fails]
      have := List.countP_mono_left (l := l) fun b _ => weaker b
      simp only [if_true, Bool.false_eq_true, if_false]
      omega
    · have strict := ih later
      have last : (if q b then 1 else 0) ≤ if p b then 1 else 0 := by
        split
        next also => simp [weaker b also]
        next => exact Nat.zero_le _
      omega

/-- The number of nodes that do not occur in a list of names. -/
def remaining (g : Graph) (seen : List String) : Nat := g.nodes.countP fun node => node ∉ seen

theorem remaining_append_lt {g : Graph} {seen : List String} {node : String}
    (isNode : node ∈ g.nodes) (fresh : node ∉ seen) :
    g.remaining (seen ++ [node]) < g.remaining seen :=
  countP_lt_countP (by simp_all) isNode (by simpa using fresh) (by simp)

theorem remaining_append_le (g : Graph) (seen : List String) (node : String) :
    g.remaining (seen ++ [node]) ≤ g.remaining seen :=
  List.countP_mono_left fun name _ => by simp_all

/-- Following a fresh name visits one more node, or leads nowhere. -/
theorem remaining_append_lt_or {g : Graph} {seen : List String} {name : String}
    (fresh : name ∉ seen) :
    g.remaining (seen ++ [name]) < g.remaining seen ∨
      g.remaining (seen ++ [name]) ≤ g.remaining seen ∧ g.targets name = [] := by
  by_cases isNode : name ∈ g.nodes
  · exact .inl (remaining_append_lt isNode fresh)
  · exact .inr ⟨g.remaining_append_le seen name, targets_of_not_mem isNode⟩

/-- What was visited before, and then the names reached from the names on a stack. -/
def walk (g : Graph) (table : Table g) (visited : Visited) : List String → Visited
  | [] => visited
  | name :: stack =>
    if visited.contains name then g.walk table visited stack
    else
      let visited' := visited.add name
      g.walk table visited'
        ((table.targets name).filter (fun target => !visited'.contains target) ++ stack)
termination_by stack => (g.remaining visited.names, stack.length)
decreasing_by
  · exact .right _ (Nat.lt_succ_self _)
  · rename_i seen
    have fresh : name ∉ visited.names := mt Visited.contains_iff.2 seen
    rw [Visited.names_add]
    rcases remaining_append_lt_or (g := g) fresh with fewer | ⟨noMore, leaf⟩
    · exact .left _ _ fewer
    · rw [Table.targets_eq_targets, leaf]
      rcases Nat.lt_or_eq_of_le noMore with fewer | same
      · exact .left _ _ fewer
      · rw [same]
        exact .right _ (by simp)

/-- The names reached from the names of a list in any number of steps. -/
def reachFrom (g : Graph) (starts : List String) : List String :=
  (g.walk g.table .empty starts).names

/-- The names reached from a name in any number of steps. -/
def reach (g : Graph) (start : String) : List String := g.reachFrom [start]

/-- The names reached from a name in one or more steps. -/
def ahead (g : Graph) (start : String) : List String := g.reachFrom (g.targets start)

end SchemaHealth.Graph
