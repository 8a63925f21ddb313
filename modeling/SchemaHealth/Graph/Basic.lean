import SchemaHealth.Graph.Distinct

/-!
# Directed graphs of names

A `Graph` lists its nodes, each with the targets of its edges, in the order in which they were
added; nothing is listed twice. A target need not be a node.

The main statements say what adding does to the nodes (`mem_nodes_addNode`) and to the edges
(`targets_addNode`, `targets_addEdge`).
-/

namespace SchemaHealth

/-- A directed graph: its nodes in order, each with its targets in order. -/
structure Graph where
  rows : List (String × List String)
  nodup_nodes : (rows.map (·.1)).Nodup
  nodup_targets : ∀ row ∈ rows, row.2.Nodup

namespace Graph

/-- The graph without nodes. -/
def empty : Graph := ⟨[], .nil, by simp⟩

instance : Inhabited Graph := ⟨empty⟩

/-- The nodes in order. -/
def nodes (g : Graph) : List String := g.rows.map (·.1)

/-- The targets that are listed for a name. -/
def listed? (name : String) : List (String × List String) → Option (List String)
  | [] => none
  | row :: rows => if row.1 = name then some row.2 else listed? name rows

/-- The targets of a node; nothing for a name that is no node. -/
def targets? (g : Graph) (name : String) : Option (List String) := listed? name g.rows

/-- The targets of a name. -/
def targets (g : Graph) (name : String) : List String := (g.targets? name).getD []

/-- Whether there is an edge between two names. -/
def hasEdge (g : Graph) (source target : String) : Bool := target ∈ g.targets source

/-- The edges in order, as pairs of a node and a target. -/
def edges (g : Graph) : List (String × String) :=
  g.rows.flatMap fun row => row.2.map fun target => (row.1, target)

/-- The relation of having an edge. -/
def Edge (g : Graph) (source target : String) : Prop := target ∈ g.targets source

instance (g : Graph) (source target : String) : Decidable (g.Edge source target) :=
  inferInstanceAs (Decidable (target ∈ g.targets source))

/-- The graph with a node, which is added at the end if it is new. -/
def addNode (g : Graph) (node : String) : Graph :=
  if new : node ∈ g.nodes then g
  else
    { rows := g.rows ++ [(node, [])]
      nodup_nodes := by
        rw [List.map_append]
        exact nodup_append_singleton g.nodup_nodes new
      nodup_targets := fun row mem => by
        rcases List.mem_append.1 mem with old | added
        · exact g.nodup_targets row old
        · simp [List.mem_singleton.1 added] }

/-- The graph with an edge between two names, of which the first is a node afterwards. -/
def addEdge (g : Graph) (source target : String) : Graph :=
  { rows := (g.addNode source).rows.map fun row =>
      if row.1 = source then (row.1, insertLast row.2 target) else row
    nodup_nodes := by
      have same : ((g.addNode source).rows.map fun row =>
          if row.1 = source then (row.1, insertLast row.2 target) else row).map (·.1)
          = (g.addNode source).nodes := by
        rw [List.map_map]
        exact List.map_congr_left fun row _ => by dsimp only [Function.comp]; split <;> rfl
      rw [same]
      exact (g.addNode source).nodup_nodes
    nodup_targets := fun row mem => by
      obtain ⟨old, oldMem, rfl⟩ := List.mem_map.1 mem
      have nodup := (g.addNode source).nodup_targets old oldMem
      split
      · exact nodup_insertLast nodup
      · exact nodup }

/-! ## What adding does -/

theorem listed?_eq_none_iff {rows : List (String × List String)} {name : String} :
    listed? name rows = none ↔ name ∉ rows.map (·.1) := by
  induction rows with
  | nil => simp [listed?]
  | cons row rows ih =>
    rw [List.map_cons, List.mem_cons, not_or, ← ih, listed?]
    split
    next same => simp [same]
    next other => simp [Ne.symm other]

theorem targets?_eq_none_iff {g : Graph} {name : String} :
    g.targets? name = none ↔ name ∉ g.nodes :=
  listed?_eq_none_iff

theorem targets_of_not_mem {g : Graph} {name : String} (missing : name ∉ g.nodes) :
    g.targets name = [] := by
  rw [targets, targets?_eq_none_iff.2 missing]
  rfl

theorem mem_nodes_of_edge {g : Graph} {source target : String} (edge : g.Edge source target) :
    source ∈ g.nodes := by
  by_cases mem : source ∈ g.nodes
  · exact mem
  · rw [Edge, targets_of_not_mem mem] at edge
    cases edge

theorem nodes_addNode (g : Graph) (node : String) :
    (g.addNode node).nodes = insertLast g.nodes node := by
  unfold addNode insertLast
  split <;> simp [nodes]

theorem nodes_addEdge (g : Graph) (source target : String) :
    (g.addEdge source target).nodes = insertLast g.nodes source := by
  rw [← nodes_addNode]
  simp only [nodes, addEdge, List.map_map]
  exact List.map_congr_left fun row _ => by dsimp only [Function.comp]; split <;> rfl

theorem mem_nodes_addNode {g : Graph} {node name : String} :
    name ∈ (g.addNode node).nodes ↔ name ∈ g.nodes ∨ name = node := by
  rw [nodes_addNode, mem_insertLast]

theorem targets_addNode (g : Graph) (node name : String) :
    (g.addNode node).targets name = g.targets name := by
  unfold addNode
  split
  next => rfl
  next new =>
    simp only [targets, targets?]
    generalize g.rows = rows
    induction rows with
    | nil => by_cases same : node = name <;> simp [listed?, same]
    | cons row rows ih => by_cases same : row.1 = name <;> simp [listed?, same, ih]

theorem listed?_map_insertLast (rows : List (String × List String))
    (source target name : String) :
    listed? name
        (rows.map fun row => if row.1 = source then (row.1, insertLast row.2 target) else row)
      = (listed? name rows).map fun old =>
          if name = source then insertLast old target else old := by
  induction rows with
  | nil => rfl
  | cons row rows ih =>
    by_cases here : row.1 = name
    · by_cases same : name = source <;> simp [listed?, here, same]
    · by_cases same : row.1 = source <;> simp_all [listed?]

/-- An edge is added to the targets of its source and to no others. -/
theorem targets_addEdge (g : Graph) (source target name : String) :
    (g.addEdge source target).targets name
      = if name = source then insertLast (g.targets name) target else g.targets name := by
  rw [← targets_addNode g source name]
  have isNode : source ∈ (g.addNode source).nodes := mem_nodes_addNode.2 (.inr rfl)
  simp only [targets, targets?, addEdge, listed?_map_insertLast]
  cases found : listed? name (g.addNode source).rows with
  | none =>
    have other : name ≠ source := by
      rintro rfl
      exact listed?_eq_none_iff.1 found isNode
    simp [other]
  | some old => by_cases same : name = source <;> simp [same]

theorem mem_of_listed? {rows : List (String × List String)} {name : String} {old : List String}
    (found : listed? name rows = some old) : (name, old) ∈ rows := by
  induction rows with
  | nil => cases found
  | cons row rows ih =>
    rw [listed?] at found
    split at found
    next same =>
      cases found
      cases same
      exact List.mem_cons_self
    next => exact List.mem_cons_of_mem _ (ih found)

/-- No target is listed twice. -/
theorem nodup_targets_of (g : Graph) (name : String) : (g.targets name).Nodup := by
  unfold targets targets?
  cases found : listed? name g.rows with
  | none => exact List.nodup_nil
  | some old => exact g.nodup_targets _ (mem_of_listed? found)

end Graph

end SchemaHealth
