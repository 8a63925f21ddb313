import SchemaHealth.Graph.Reach
import Mathlib.Logic.Relation

/-!
# What a walk through a graph reaches

`Graph.reach` and `Graph.ahead` are runs of a walk that keeps a stack of names to visit. This module
says what such a run lists in terms of the edges alone.

* `mem_reach`: `reach` lists the names reached in any number of steps, the start first
  (`head?_reach`) and each of them once (`nodup_reach`).
* `mem_ahead`: `ahead` lists the names reached in one or more steps.

Both rest on one invariant of the walk: the targets of a visited name are visited or on the stack.
-/

namespace SchemaHealth.Graph

/-- One name is reached from another in any number of steps. -/
abbrev Reaches (g : Graph) : String → String → Prop := Relation.ReflTransGen g.Edge

/-- One name is reached from another in one or more steps. -/
abbrev ReachesAhead (g : Graph) : String → String → Prop := Relation.TransGen g.Edge

theorem edge_ext {g h : Graph} (same : ∀ a b, h.Edge a b ↔ g.Edge a b) : h.Edge = g.Edge := by
  funext a b
  exact propext (same a b)

variable {g : Graph} {table : Table g} {visited : Visited} {stack : List String}

/-! ## Runs of the walk -/

/-- A walk keeps what was visited, in its order, and adds at the end. -/
theorem visited_prefix_walk (table : Table g) (visited : Visited) (stack : List String) :
    visited.names <+: (g.walk table visited stack).names := by
  fun_induction walk g table visited stack with
  | case1 visited => exact List.prefix_rfl
  | case2 visited name stack seen ih => exact ih
  | case3 visited name stack unseen visited' ih =>
      refine List.IsPrefix.trans ?_ ih
      rw [Visited.names_add]
      exact List.prefix_append _ _

/-- A walk only looks at the targets of names. -/
theorem walk_congr {h : Graph} {table' : Table h}
    (same : ∀ name, h.targets name = g.targets name) :
    h.walk table' visited stack = g.walk table visited stack := by
  fun_induction walk g table visited stack with
  | case1 visited => rw [walk]
  | case2 visited name stack seen ih => rw [walk, if_pos seen, ih]
  | case3 visited name stack unseen visited' ih =>
      rw [walk, if_neg unseen, ← ih]
      simp only [Table.targets_eq_targets, same]
      rfl

/-- A walk visits no name twice. -/
theorem nodup_walk (nodup : visited.names.Nodup) : (g.walk table visited stack).names.Nodup := by
  fun_induction walk g table visited stack with
  | case1 visited => exact nodup
  | case2 visited name stack seen ih => exact ih nodup
  | case3 visited name stack unseen visited' ih =>
      apply ih
      have fresh : name ∉ visited.names := mt Visited.contains_iff.2 unseen
      rw [Visited.names_add]
      exact nodup_append_singleton nodup fresh

/-- What a walk adds is reached from a name on its stack. -/
theorem reaches_of_mem_walk {name : String} (mem : name ∈ (g.walk table visited stack).names) :
    name ∈ visited.names ∨ ∃ start ∈ stack, g.Reaches start name := by
  fun_induction walk g table visited stack with
  | case1 visited => exact .inl mem
  | case2 visited top stack seen ih =>
      rcases ih mem with old | ⟨start, onStack, reaches⟩
      · exact .inl old
      · exact .inr ⟨start, List.mem_cons_of_mem _ onStack, reaches⟩
  | case3 visited top stack unseen visited' ih =>
      rcases ih mem with old | ⟨start, onStack, reaches⟩
      · rw [Visited.names_add] at old
        rcases List.mem_append.1 old with old | single
        · exact .inl old
        · rw [List.mem_singleton.1 single]
          exact .inr ⟨top, List.mem_cons_self, .refl⟩
      · rcases List.mem_append.1 onStack with target | later
        · have edge : g.Edge top start := by
            simpa [Edge] using (List.mem_filter.1 target).1
          exact .inr ⟨top, List.mem_cons_self, .head edge reaches⟩
        · exact .inr ⟨start, List.mem_cons_of_mem _ later, reaches⟩

/-- A walk visits every name on its stack. -/
theorem mem_walk_of_mem_stack {start : String} (onStack : start ∈ stack) :
    start ∈ (g.walk table visited stack).names := by
  fun_induction walk g table visited stack with
  | case1 visited => cases onStack
  | case2 visited top stack seen ih =>
      rcases List.mem_cons.1 onStack with rfl | later
      · exact (visited_prefix_walk table visited stack).subset (Visited.contains_iff.1 seen)
      · exact ih later
  | case3 visited top stack unseen visited' ih =>
      rcases List.mem_cons.1 onStack with rfl | later
      · refine (visited_prefix_walk table visited' _).subset ?_
        rw [Visited.names_add]
        exact List.mem_append_right _ List.mem_cons_self
      · exact ih (List.mem_append_right _ later)

/-- The invariant of the walk: what has been visited leads to what has been visited or will be. -/
theorem walk_closed
    (closed : ∀ source ∈ visited.names, ∀ target, g.Edge source target →
      target ∈ visited.names ∨ target ∈ stack) :
    ∀ source ∈ (g.walk table visited stack).names, ∀ target, g.Edge source target →
      target ∈ (g.walk table visited stack).names := by
  fun_induction walk g table visited stack with
  | case1 visited =>
      intro source mem target edge
      rcases closed source mem target edge with old | onStack
      · exact old
      · cases onStack
  | case2 visited top stack seen ih =>
      refine ih fun source mem target edge => ?_
      rcases closed source mem target edge with old | onStack
      · exact .inl old
      · rcases List.mem_cons.1 onStack with rfl | later
        · exact .inl (Visited.contains_iff.1 seen)
        · exact .inr later
  | case3 visited top stack unseen visited' ih =>
      refine ih fun source mem target edge => ?_
      by_cases done : target ∈ visited'.names
      · exact .inl done
      refine .inr (List.mem_append.2 ?_)
      rw [Visited.names_add] at mem done
      rcases List.mem_append.1 mem with old | single
      · rcases closed source old target edge with visitedTarget | onStack
        · exact absurd (List.mem_append_left _ visitedTarget) done
        · rcases List.mem_cons.1 onStack with rfl | later
          · exact absurd (List.mem_append_right _ List.mem_cons_self) done
          · exact .inr later
      · rw [List.mem_singleton.1 single] at edge
        have unvisited : visited'.contains target = false := by
          rw [Bool.eq_false_iff, ne_eq, Visited.contains_iff, Visited.names_add]
          exact done
        exact .inl (List.mem_filter.2 ⟨by simpa [Edge] using edge, by rw [unvisited]; rfl⟩)

/-! ## The lists that are reached -/

/-- What a walk lists is what its starts reach. -/
theorem mem_reachFrom {starts : List String} {name : String} :
    name ∈ g.reachFrom starts ↔ ∃ start ∈ starts, g.Reaches start name := by
  constructor
  · intro mem
    rcases reaches_of_mem_walk mem with old | reached
    · cases old
    · exact reached
  · rintro ⟨start, mem, reaches⟩
    have closed : ∀ source ∈ g.reachFrom starts, ∀ target, g.Edge source target →
        target ∈ g.reachFrom starts :=
      walk_closed fun source mem => by cases mem
    induction reaches with
    | refl => exact mem_walk_of_mem_stack mem
    | tail _ edge ih => exact closed _ ih _ edge

/-- `reach` lists what is reached in any number of steps. -/
@[simp] theorem mem_reach {start name : String} : name ∈ g.reach start ↔ g.Reaches start name := by
  simp [reach, mem_reachFrom]

/-- `ahead` lists what is reached in one or more steps. -/
@[simp] theorem mem_ahead {start name : String} :
    name ∈ g.ahead start ↔ g.ReachesAhead start name := by
  rw [ahead, mem_reachFrom]
  exact (Relation.TransGen.head'_iff (r := g.Edge)).symm

/-- The order in which names are reached depends on the targets alone. -/
theorem reach_congr {h : Graph} (same : ∀ name, h.targets name = g.targets name)
    (start : String) : h.reach start = g.reach start :=
  congrArg Visited.names (walk_congr same)

theorem nodup_reachFrom (g : Graph) (starts : List String) : (g.reachFrom starts).Nodup :=
  nodup_walk List.nodup_nil

/-- A reached name is listed once. -/
theorem nodup_reach (g : Graph) (start : String) : (g.reach start).Nodup :=
  g.nodup_reachFrom [start]

/-- A name comes first among the names reached from it. -/
theorem head?_reach (g : Graph) (start : String) : (g.reach start).head? = some start := by
  have fresh : ¬ Visited.empty.contains start = true := by
    rw [Visited.contains_iff]
    exact List.not_mem_nil
  obtain ⟨later, names⟩ := visited_prefix_walk g.table (Visited.empty.add start)
    ((g.table.targets start).filter fun target => !(Visited.empty.add start).contains target)
  rw [reach, reachFrom, walk, if_neg fresh]
  simp only [List.append_nil]
  rw [← names]
  rfl

end SchemaHealth.Graph
