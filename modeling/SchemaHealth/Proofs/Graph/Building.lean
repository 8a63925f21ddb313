import SchemaHealth.Graph.Basic

/-!
# Building graphs

The edges of a graph to which nodes and edges were added. All edges of one name are added by a fold
over its targets: `Graph.edge_foldl_addEdge` says which edges there are then,
`Graph.targets_foldl_addEdge` in which order they are listed, `Graph.nodes_foldl_addEdge` that no
node is added if the name is one.
-/

namespace SchemaHealth.Graph

variable {α : Type} {g : Graph} {a b source target name : String} {text : α → String}
  {targets : List α}

/-- A new node brings no edge. -/
theorem edge_addNode {node : String} : (g.addNode node).Edge a b ↔ g.Edge a b := by
  rw [Edge, targets_addNode, Edge]

/-- An added edge is the only new one. -/
theorem edge_addEdge :
    (g.addEdge source target).Edge a b ↔ g.Edge a b ∨ a = source ∧ b = target := by
  rw [Edge, targets_addEdge]
  by_cases same : a = source
  · rw [if_pos same, mem_insertLast]
    exact or_congr_right (and_iff_right same).symm
  · rw [if_neg same]
    exact (or_iff_left fun both => same both.1).symm

/-- Edges added from one source are the only new ones. -/
theorem edge_foldl_addEdge :
    (targets.foldl (fun g target => g.addEdge source (text target)) g).Edge a b
      ↔ g.Edge a b ∨ a = source ∧ ∃ target ∈ targets, b = text target := by
  induction targets generalizing g with
  | nil => simp
  | cons first targets ih =>
      rw [List.foldl_cons, ih, edge_addEdge, or_assoc, ← and_or_left]
      simp only [List.mem_cons, exists_eq_or_imp]

theorem targets_foldl_addEdge :
    (targets.foldl (fun g target => g.addEdge source (text target)) g).targets name
      = if name = source then (targets.map text).foldl insertLast (g.targets name)
        else g.targets name := by
  induction targets generalizing g with
  | nil => simp
  | cons first targets ih =>
      rw [List.foldl_cons, ih, targets_addEdge]
      by_cases same : name = source
      · simp [same]
      · simp [same]

/-- Edges from a node add no node. -/
theorem nodes_foldl_addEdge (isNode : source ∈ g.nodes) :
    (targets.foldl (fun g target => g.addEdge source (text target)) g).nodes = g.nodes := by
  induction targets generalizing g with
  | nil => rfl
  | cons first targets ih =>
      have same : (g.addEdge source (text first)).nodes = g.nodes := by
        rw [nodes_addEdge, insertLast, if_pos isNode]
      rw [List.foldl_cons, ih (same ▸ isNode), same]

end SchemaHealth.Graph
