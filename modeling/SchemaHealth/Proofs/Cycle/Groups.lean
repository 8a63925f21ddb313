import SchemaHealth.Cycle.Report
import SchemaHealth.Proofs.Cycle.Completeness
import Mathlib.Data.List.Perm.Subperm

/-!
# Cycles and groups

A cycle report lists the cycles that a search finds, which depend on the order of the graph, and the
groups of linked names, which do not. This module relates the two.

* `IsFinished.countP_cycles`: a cycle lies in a group if the step that closes it does.
* `IsFinished.length_le_countP_tree`: the search enters all but one name of a group along an edge in
  the group, since a name of the group is on the stack until all of them were entered.
* `CycleReport.groups_agree`: every cycle lies in exactly one group, and a group of `n` names with
  `e` edges has at least one cycle and at most `e - n + 1`.
-/

namespace SchemaHealth

variable {g : Graph} {group : List String}

/-- Whether both ends of a step are in a group. -/
def within (group : List String) (e : String × String) : Bool := e.1 ∈ group && e.2 ∈ group

/-- An edge lies within a group when both its ends do. -/
@[simp] theorem within_iff {e : String × String} :
    within group e = true ↔ e.1 ∈ group ∧ e.2 ∈ group := by
  rw [within, Bool.and_eq_true, decide_eq_true_iff, decide_eq_true_iff]

/-- Whether a cycle lies in a group. -/
def Cycle.within (group : List String) (c : Cycle) : Bool := c.path.all fun name => name ∈ group

/-- A cycle lies within a group when all its names do. -/
@[simp] theorem Cycle.within_iff {c : Cycle} :
    c.within group = true ↔ ∀ name ∈ c.path, name ∈ group := by
  rw [Cycle.within, List.all_eq_true]
  exact forall₂_congr fun _ _ => decide_eq_true_iff

/-- The number of cycles of a report that lie in a group. -/
def CycleReport.cyclesIn (r : CycleReport) (group : List String) : Nat :=
  r.cycles.countP (Cycle.within group)

/-- The number of edges with both ends in a group. -/
def Graph.edgesIn (g : Graph) (group : List String) : Nat := g.edges.countP (within group)

/-- The edges in a group are the steps of one ring through all its names. -/
def Graph.IsRing (g : Graph) (group : List String) : Prop :=
  ∃ ring : List String, ring.Perm group ∧
    ∀ a ∈ group, ∀ b ∈ group, g.Edge a b ↔ (a, b) ∈ ringSteps ring

/-- A ring has no more edges than names. -/
theorem Graph.edgesIn_le_of_isRing (isRing : g.IsRing group) : g.edgesIn group ≤ group.length := by
  obtain ⟨ring, perm, edges⟩ := isRing
  have subset : g.edges.filter (within group) ⊆ ringSteps ring := by
    rintro ⟨a, b⟩ mem
    obtain ⟨edge, inside⟩ := List.mem_filter.1 mem
    obtain ⟨source, target⟩ := within_iff.1 inside
    exact (edges a source b target).1 (Graph.mem_edges.1 edge)
  have nodup : (g.edges.filter (within group)).Nodup := g.nodup_edges.filter _
  rw [edgesIn, List.countP_eq_length_filter, ← perm.length_eq, ← length_ringSteps]
  exact (nodup.subperm subset).length_le

/-- Names of a group that were entered one after the other take an edge in the group each, but for
the first one. -/
theorem Graph.length_le_of_parented {tree : List (String × String)} {entered : List String}
    (isGroup : group ∈ g.components) (nodup : entered.Nodup)
    (member : ∀ name ∈ entered, name ∈ group)
    (parented : entered.Pairwise fun earlier name => g.Linked earlier name →
      ∃ parent, (parent, name) ∈ tree ∧ g.Linked parent name) :
    entered.length ≤ tree.countP (within group) + 1 := by
  cases entered with
  | nil => exact Nat.zero_le _
  | cons first rest =>
      have inGroup := member first List.mem_cons_self
      have subset : rest ⊆ (tree.filter (within group)).map (·.2) := by
        intro name mem
        have target := member name (List.mem_cons_of_mem _ mem)
        have linked := (mem_component_iff isGroup inGroup).1 target
        obtain ⟨parent, edge, linked'⟩ := (List.pairwise_cons.1 parented).1 name mem linked
        have source := (mem_component_iff isGroup target).2 linked'.symm
        exact List.mem_map.2
          ⟨(parent, name), List.mem_filter.2 ⟨edge, within_iff.2 ⟨source, target⟩⟩, rfl⟩
      have le := ((List.nodup_cons.1 nodup).2.subperm subset).length_le
      rw [List.length_map, ← List.countP_eq_length_filter] at le
      exact Nat.succ_le_succ le

namespace IsFinished

variable {j : Journal} {ring : List String}

/-! ## Cycles in a group -/

/-- The names on a ring that was closed are linked. -/
theorem linked_of_mem_ring (finished : IsFinished g j) (mem : ring ∈ j.rings) {a b : String}
    (left : a ∈ ring) (right : b ∈ ring) : g.Linked a b := by
  have edge : ∀ e ∈ ringSteps ring, g.Edge e.1 e.2 := fun e step =>
    finished.invariant.ringStep_edge mem step
  exact ⟨Graph.reachesAhead_of_mem_ring edge left right,
    Graph.reachesAhead_of_mem_ring edge right left⟩

/-- A group holds all names of a ring that was closed if it holds one of them. -/
theorem mem_of_mem_ring (finished : IsFinished g j) (mem : ring ∈ j.rings)
    (isGroup : group ∈ g.components) {a b : String} (left : a ∈ ring) (right : b ∈ ring)
    (member : a ∈ group) : b ∈ group :=
  (Graph.mem_component_iff isGroup member).2 (finished.linked_of_mem_ring mem left right)

theorem within_ofRing (finished : IsFinished g j) (mem : ring ∈ j.rings)
    (isGroup : group ∈ g.components) :
    (Cycle.ofRing ring).within group = true ↔ within group (closingStep ring) = true := by
  have nonempty := (finished.invariant.rings ring mem).ne_nil
  obtain ⟨last, first⟩ := closingStep_mem nonempty
  rw [Cycle.within_iff, within_iff]
  constructor
  · intro all
    exact ⟨all _ ((Cycle.mem_path_ofRing nonempty).2 last),
      all _ ((Cycle.mem_path_ofRing nonempty).2 first)⟩
  · intro ends name onPath
    have onRing := (Cycle.mem_path_ofRing nonempty).1 onPath
    exact finished.mem_of_mem_ring mem isGroup first onRing ends.2

/-- There are as many cycles in a group as there are steps in it that close a ring. -/
theorem countP_cycles (finished : IsFinished g j) (plain : g.CommaFree)
    (isGroup : group ∈ g.components) :
    g.cycles.countP (Cycle.within group) = j.closings.countP (within group) := by
  rw [finished.cycles_eq plain, Journal.closings, List.countP_map, List.countP_map]
  exact List.countP_congr fun ring mem => finished.within_ofRing mem isGroup

/-! ## Edges in a group -/

/-- The tree and the steps that close rings are different edges of the graph. -/
theorem countP_tree_add_countP_closings_le (finished : IsFinished g j) (group : List String) :
    j.tree.countP (within group) + j.closings.countP (within group) ≤ g.edgesIn group := by
  have accounts := finished.invariant.accounts
  have accounted : SearchPoint.accounted ⟨[], [], j⟩ = j.tree ++ j.closings := by
    simp [SearchPoint.accounted, pending]
  have subset : j.tree ++ j.closings ⊆ g.edges := by
    rintro ⟨a, b⟩ mem
    exact Graph.mem_edges.2 (accounts.edge (a, b) (accounted ▸ mem))
  have nodup : (j.tree ++ j.closings).Nodup := accounted ▸ accounts.nodup
  rw [← List.countP_append]
  exact (nodup.subperm subset).countP_le _

/-- A finished search has visited every name of a group. -/
theorem mem_visited_of_mem_component (finished : IsFinished g j) (isGroup : group ∈ g.components)
    {name : String} (member : name ∈ group) : name ∈ j.search.visited := by
  have self := ((Graph.mem_component_iff isGroup member).1 member).1
  obtain ⟨target, edge, _⟩ := Relation.TransGen.head'_iff.1 self
  have left := finished.mem_left_of_mem_nodes (Graph.mem_nodes_of_edge edge)
  exact finished.invariant.tracks.mem_visited.2 (.inr left)

/-- All names of a group but the one entered first were entered along an edge in the group. -/
theorem length_le_countP_tree (finished : IsFinished g j) (isGroup : group ∈ g.components) :
    group.length ≤ j.tree.countP (within group) + 1 := by
  have inv := finished.invariant
  -- the names of the group in the order in which they were entered
  have perm : (j.search.visited.filter (· ∈ group)).Perm group := by
    refine (List.perm_ext_iff_of_nodup (inv.tracks.nodup_visited.filter _)
      (Graph.nodup_component isGroup)).2 fun name => ?_
    rw [List.mem_filter, decide_eq_true_iff]
    exact and_iff_right_of_imp (finished.mem_visited_of_mem_component isGroup)
  have nodup := perm.nodup_iff.2 (Graph.nodup_component isGroup)
  rw [← perm.length_eq]
  exact Graph.length_le_of_parented isGroup nodup (fun name mem => perm.mem_iff.1 mem)
    (inv.parented.filter _)

/-- In each group a ring was closed. -/
theorem countP_closings_pos (finished : IsFinished g j) (isGroup : group ∈ g.components) :
    0 < j.closings.countP (within group) := by
  by_contra none
  have outside : ∀ e ∈ j.closings, ¬ within group e = true :=
    List.countP_eq_zero.1 (Nat.eq_zero_of_not_pos none)
  obtain ⟨name, member⟩ := List.exists_mem_of_ne_nil _ (Graph.component_ne_nil isGroup)
  have way := ((Graph.mem_component_iff isGroup member).1 member).way
  -- a way round in the group would be left without the steps that close rings
  refine finished.acyclic name (Relation.TransGen.mono (fun x y step => ?_) _ _ way)
  obtain ⟨edge, source, target⟩ := step
  refine Graph.edge_withoutEdges.2 ⟨edge, fun closing => outside _ closing ?_⟩
  exact within_iff.2 ⟨(Graph.mem_component_iff isGroup member).2 source,
    (Graph.mem_component_iff isGroup member).2 target⟩

/-- Every cycle found lies in exactly one group. -/
theorem existsUnique_group (finished : IsFinished g j) (plain : g.CommaFree) {c : Cycle}
    (mem : c ∈ g.cycles) :
    ∃! group, group ∈ g.components ∧ ∀ name ∈ c.path, name ∈ group := by
  obtain ⟨ring, closed, rfl⟩ := finished.exists_ring plain mem
  have nonempty := (finished.invariant.rings ring closed).ne_nil
  obtain ⟨first, onRing⟩ := List.exists_mem_of_ne_nil _ nonempty
  have self := (finished.linked_of_mem_ring closed onRing onRing).1
  obtain ⟨group, isGroup, member⟩ := Graph.exists_component self
  refine ⟨group, ⟨isGroup, fun name onPath => ?_⟩, ?_⟩
  · have onRing' := (Cycle.mem_path_ofRing nonempty).1 onPath
    exact finished.mem_of_mem_ring closed isGroup onRing onRing' member
  · rintro other ⟨isGroup', all⟩
    have member' := all first ((Cycle.mem_path_ofRing nonempty).2 onRing)
    exact Graph.eq_of_mem_components isGroup' isGroup member' member

end IsFinished

/-! ## The two parts of a report -/

namespace CycleReport

/-- There is a cycle in every group. -/
theorem one_le_cyclesIn (plain : g.CommaFree) (isGroup : group ∈ g.components) :
    1 ≤ (ofGraph g).cyclesIn group := by
  obtain ⟨j, finished⟩ := g.exists_isFinished
  have closed := finished.countP_closings_pos isGroup
  rwa [← finished.countP_cycles plain isGroup] at closed

/-- A group has no more cycles than it has edges beyond those along which its names are entered. -/
theorem cyclesIn_add_length_le (plain : g.CommaFree) (isGroup : group ∈ g.components) :
    (ofGraph g).cyclesIn group + group.length ≤ g.edgesIn group + 1 := by
  obtain ⟨j, finished⟩ := g.exists_isFinished
  have cycles : (ofGraph g).cyclesIn group = j.closings.countP (within group) :=
    finished.countP_cycles plain isGroup
  have names := finished.length_le_countP_tree isGroup
  have edges := finished.countP_tree_add_countP_closings_le group
  omega

/-- A group that is a ring has a single cycle. -/
theorem cyclesIn_eq_one_of_isRing (plain : g.CommaFree) (isGroup : group ∈ g.components)
    (isRing : g.IsRing group) : (ofGraph g).cyclesIn group = 1 := by
  have lower := one_le_cyclesIn plain isGroup
  have upper := cyclesIn_add_length_le plain isGroup
  have edges := Graph.edgesIn_le_of_isRing isRing
  omega

/-- A graph has no groups just when it has no cycles. -/
theorem components_eq_nil_iff (plain : g.CommaFree) : g.components = [] ↔ g.cycles = [] := by
  constructor
  · intro none
    refine List.eq_nil_iff_forall_not_mem.2 fun c mem => ?_
    obtain ⟨j, finished⟩ := g.exists_isFinished
    obtain ⟨group, ⟨isGroup, _⟩, _⟩ := finished.existsUnique_group plain mem
    rw [none] at isGroup
    cases isGroup
  · intro none
    refine List.eq_nil_iff_forall_not_mem.2 fun group isGroup => ?_
    have some : 1 ≤ g.cycles.countP (Cycle.within group) := one_le_cyclesIn plain isGroup
    rw [none] at some
    cases some

/-- The groups of a report are disjoint, and every cycle lies in exactly one of them. A group of `n`
names with `e` edges has at least one cycle and at most `e - n + 1`, and a ring has just one. So
there are no groups if and only if there are no cycles. -/
theorem groups_agree (g : Graph) (plain : g.CommaFree) :
    (ofGraph g).groups.Pairwise List.Disjoint ∧
    (∀ c ∈ (ofGraph g).cycles,
      ∃! group, group ∈ (ofGraph g).groups ∧ ∀ name ∈ c.path, name ∈ group) ∧
    (∀ group ∈ (ofGraph g).groups,
      1 ≤ (ofGraph g).cyclesIn group ∧
      (ofGraph g).cyclesIn group + group.length ≤ g.edgesIn group + 1 ∧
      (g.IsRing group → (ofGraph g).cyclesIn group = 1)) ∧
    ((ofGraph g).groups = [] ↔ (ofGraph g).summary.total = 0) := by
  obtain ⟨j, finished⟩ := g.exists_isFinished
  refine ⟨g.pairwise_disjoint_components, fun c mem => finished.existsUnique_group plain mem,
    fun group isGroup => ⟨one_le_cyclesIn plain isGroup, cyclesIn_add_length_le plain isGroup,
      cyclesIn_eq_one_of_isRing plain isGroup⟩, ?_⟩
  have total : (ofGraph g).summary.total = g.cycles.length := rfl
  rw [total, List.length_eq_zero_iff]
  exact components_eq_nil_iff plain

/-- Here the bound is reached: two names with three edges have two cycles. -/
theorem groups_agree_loopedPair :
    (ofGraph loopedPair).groups = [["A", "B"]] ∧ (ofGraph loopedPair).cyclesIn ["A", "B"] = 2 ∧
      loopedPair.edgesIn ["A", "B"] = 3 ∧
      (ofGraph loopedPair).cyclesIn ["A", "B"] + 2 ≤ loopedPair.edgesIn ["A", "B"] + 1 := by
  have groups : (ofGraph loopedPair).groups = [["A", "B"]] := by cbv
  have isGroup : ["A", "B"] ∈ (ofGraph loopedPair).groups := by
    rw [groups]
    exact List.mem_singleton_self _
  have agree := groups_agree loopedPair commaFree_loopedPair
  exact ⟨groups, by cbv, by cbv, (agree.2.2.1 _ isGroup).2.1⟩

end CycleReport

end SchemaHealth
