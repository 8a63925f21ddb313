import SchemaHealth.Proofs.Graph.Reachability
import Mathlib.Data.List.Chain
import Mathlib.Data.List.Rotate

/-!
# Walks and rings

A walk is a list of names of which each has an edge to the next one. `steps` pairs the neighbours in
a list, `ringSteps` also pairs the last name with the first. A graph is `Acyclic` if no name is
reached from itself, and `withoutEdges` is the graph that is left when edges are deleted.

* `isChain_iff_steps`: what holds along a list holds of its steps.
* `ringSteps_perm`: a ring has the same steps wherever it starts.
* `Graph.mem_edges`, `Graph.nodup_edges`: the edges of a graph are listed, each once.
* `Graph.edge_withoutEdges`: what deleting edges leaves.
* `Graph.IsClosedWalk.reachesAhead`: an acyclic graph has no closed walk.
-/

namespace SchemaHealth

/-! ## Steps -/

/-- The pairs of neighbours in a list. -/
def steps : List String → List (String × String)
  | a :: b :: rest => (a, b) :: steps (b :: rest)
  | _ => []

theorem steps_append_cons (xs : List String) (a : String) (ys : List String) :
    steps (xs ++ a :: ys) = steps (xs ++ [a]) ++ steps (a :: ys) := by
  induction xs with
  | nil => rfl
  | cons x xs ih =>
      cases xs with
      | nil => rfl
      | cons y xs => simpa [steps] using ih

/-- A walk goes along a relation when each of its steps does. -/
theorem isChain_iff_steps {R : String → String → Prop} {walk : List String} :
    walk.IsChain R ↔ ∀ e ∈ steps walk, R e.1 e.2 := by
  induction walk with
  | nil => simp [steps]
  | cons a walk ih =>
      cases walk with
      | nil => simp [steps]
      | cons b rest => rw [List.isChain_cons_cons, ih, steps, List.forall_mem_cons]

theorem length_steps (a : String) (rest : List String) :
    (steps (a :: rest)).length = rest.length := by
  induction rest generalizing a with
  | nil => rfl
  | cons b rest ih => rw [steps, List.length_cons, ih, List.length_cons]

/-- The pairs of neighbours round a ring, which goes from its last name to its first. -/
def ringSteps (ring : List String) : List (String × String) := steps (ring ++ ring.take 1)

/-- The step that closes a ring. -/
def closingStep : List String → String × String
  | [] => ("", "")
  | a :: rest => (rest.getLastD a, a)

theorem steps_append_singleton (a : String) (rest : List String) (b : String) :
    steps (a :: rest ++ [b]) = steps (a :: rest) ++ [(rest.getLastD a, b)] := by
  induction rest generalizing a with
  | nil => rfl
  | cons c rest ih =>
      rw [List.getLastD_cons]
      simpa [steps] using ih c

/-- A ring takes the steps of its names and the step that closes it. -/
theorem ringSteps_cons (a : String) (rest : List String) :
    ringSteps (a :: rest) = steps (a :: rest) ++ [closingStep (a :: rest)] :=
  steps_append_singleton a rest a

/-- The closing step of a ring is one of its steps. -/
theorem closingStep_mem_ringSteps {ring : List String} (nonempty : ring ≠ []) :
    closingStep ring ∈ ringSteps ring := by
  cases ring with
  | nil => exact absurd rfl nonempty
  | cons a rest => simp [ringSteps_cons]

/-- A rotated ring takes the same steps. -/
theorem ringSteps_append_perm (xs ys : List String) :
    (ringSteps (xs ++ ys)).Perm (ringSteps (ys ++ xs)) := by
  cases xs with
  | nil => simp
  | cons x xs =>
      cases ys with
      | nil => simp
      | cons y ys =>
          have left : ringSteps (x :: xs ++ y :: ys)
              = steps (x :: xs ++ [y]) ++ steps (y :: ys ++ [x]) := by
            rw [ringSteps, List.append_assoc]
            exact steps_append_cons (x :: xs) y (ys ++ [x])
          have right : ringSteps (y :: ys ++ x :: xs)
              = steps (y :: ys ++ [x]) ++ steps (x :: xs ++ [y]) := by
            rw [ringSteps, List.append_assoc]
            exact steps_append_cons (y :: ys) x (xs ++ [y])
          rw [left, right]
          exact List.perm_append_comm

/-- A ring has the same steps wherever it starts. -/
theorem ringSteps_perm {xs ys : List String} (rotated : xs ~r ys) :
    (ringSteps xs).Perm (ringSteps ys) := by
  obtain ⟨n, rfl⟩ := rotated
  rw [List.rotate_eq_drop_append_take_mod]
  calc (ringSteps xs).Perm (ringSteps (xs.take (n % xs.length) ++ xs.drop (n % xs.length))) := by
        rw [List.take_append_drop]
    _ |>.Perm _ := ringSteps_append_perm _ _

theorem exists_ringStep_cons (a : String) (rest : List String) :
    ∃ next, (a, next) ∈ ringSteps (a :: rest) := by
  cases rest with
  | nil => exact ⟨a, List.mem_cons_self⟩
  | cons b rest => exact ⟨b, List.mem_cons_self⟩

/-- A ring has as many steps as names. -/
theorem length_ringSteps (ring : List String) : (ringSteps ring).length = ring.length := by
  cases ring with
  | nil => rfl
  | cons a rest =>
      rw [ringSteps_cons, List.length_append, length_steps]
      rfl

/-- The ends of the step that closes a ring are on the ring. -/
theorem closingStep_mem {ring : List String} (nonempty : ring ≠ []) :
    (closingStep ring).1 ∈ ring ∧ (closingStep ring).2 ∈ ring := by
  cases ring with
  | nil => exact absurd rfl nonempty
  | cons a rest => exact ⟨List.getLastD_mem_cons, List.mem_cons_self⟩

/-- Each name on a ring has a step to some name. -/
theorem exists_ringStep_of_mem {ring : List String} {name : String} (mem : name ∈ ring) :
    ∃ next, (name, next) ∈ ringSteps ring := by
  obtain ⟨before, behind, rfl⟩ := List.append_of_mem mem
  obtain ⟨next, step⟩ := exists_ringStep_cons name (behind ++ before)
  exact ⟨next, (ringSteps_append_perm before (name :: behind)).mem_iff.2 step⟩

namespace Graph

variable {g : Graph}

/-! ## Edges as a list -/

/-- Where no name has two rows, its targets are those of its row. -/
theorem listed?_eq_some_iff {rows : List (String × List String)}
    (nodup : (rows.map (·.1)).Nodup) {name : String} {targets : List String} :
    listed? name rows = some targets ↔ (name, targets) ∈ rows := by
  refine ⟨mem_of_listed?, fun mem => ?_⟩
  induction rows with
  | nil => cases mem
  | cons row rows ih =>
      obtain ⟨fresh, nodup⟩ := List.nodup_cons.1 nodup
      rcases List.mem_cons.1 mem with rfl | later
      · simp [listed?]
      · have other : row.1 ≠ name := by
          rintro rfl
          exact fresh (List.mem_map.2 ⟨_, later, rfl⟩)
        rw [listed?, if_neg other]
        exact ih nodup later

/-- The rows are the nodes, each with its targets. -/
theorem rows_eq (g : Graph) : g.rows = g.nodes.map fun node => (node, g.targets node) := by
  have same : ∀ row ∈ g.rows, (row.1, g.targets row.1) = row := by
    intro row mem
    rw [targets, targets?, (listed?_eq_some_iff g.nodup_nodes).2 mem]
    rfl
  rw [nodes, List.map_map]
  exact ((List.map_congr_left same).trans (List.map_id _)).symm

/-- A graph is known by its nodes and the targets of every name. -/
theorem eq_of_targets {h : Graph} (nodes : h.nodes = g.nodes)
    (targets : ∀ name, h.targets name = g.targets name) : h = g := by
  have rows : h.rows = g.rows := by
    rw [rows_eq, rows_eq, nodes, funext fun name => congrArg (Prod.mk name) (targets name)]
  cases h
  cases g
  cases rows
  rfl

/-- The edges are those of the rows. -/
theorem edge_iff_row {source target : String} :
    g.Edge source target ↔ ∃ targets, (source, targets) ∈ g.rows ∧ target ∈ targets := by
  simp only [← listed?_eq_some_iff g.nodup_nodes]
  cases found : listed? source g.rows with
  | none => simp [Edge, Graph.targets, targets?, found]
  | some old => simp [Edge, Graph.targets, targets?, found]

/-- The listed edges are the edges of the graph. -/
@[simp] theorem mem_edges {source target : String} :
    (source, target) ∈ g.edges ↔ g.Edge source target := by
  rw [edge_iff_row, edges, List.mem_flatMap]
  constructor
  · rintro ⟨row, mem, edge⟩
    obtain ⟨target', mem', same⟩ := List.mem_map.1 edge
    cases same
    exact ⟨row.2, mem, mem'⟩
  · rintro ⟨targets, mem, mem'⟩
    exact ⟨(source, targets), mem, List.mem_map.2 ⟨target, mem', rfl⟩⟩

/-- No edge is listed twice. -/
theorem nodup_edges (g : Graph) : g.edges.Nodup := by
  refine List.nodup_flatMap.2 ⟨fun row mem => ?_, ?_⟩
  · exact (g.nodup_targets row mem).map fun _ _ same => (Prod.mk.inj same).2
  · refine (List.pairwise_map.1 g.nodup_nodes).imp fun different => ?_
    rintro e left right
    obtain ⟨_, _, rfl⟩ := List.mem_map.1 left
    obtain ⟨_, _, same⟩ := List.mem_map.1 right
    exact different (Prod.mk.inj same).1.symm

/-- The graph with some edges deleted. -/
def withoutEdges (g : Graph) (gone : List (String × String)) : Graph where
  rows := g.rows.map fun row => (row.1, row.2.filter fun target => (row.1, target) ∉ gone)
  nodup_nodes := by
    rw [List.map_map]
    exact g.nodup_nodes
  nodup_targets row mem := by
    obtain ⟨old, oldMem, rfl⟩ := List.mem_map.1 mem
    exact (g.nodup_targets old oldMem).filter _

@[simp] theorem edge_withoutEdges {gone : List (String × String)} {source target : String} :
    (g.withoutEdges gone).Edge source target
      ↔ g.Edge source target ∧ (source, target) ∉ gone := by
  simp only [edge_iff_row, withoutEdges, List.mem_map]
  constructor
  · rintro ⟨targets, ⟨row, mem, same⟩, left⟩
    cases same
    obtain ⟨old, kept⟩ := List.mem_filter.1 left
    exact ⟨⟨row.2, mem, old⟩, by simpa using kept⟩
  · rintro ⟨⟨targets, mem, old⟩, kept⟩
    exact ⟨_, ⟨(source, targets), mem, rfl⟩, List.mem_filter.2 ⟨old, by simpa using kept⟩⟩

/-! ## Closed walks -/

/-- No name is reached from itself in one or more steps; so no name has an edge to itself. -/
def Acyclic (g : Graph) : Prop := ∀ name, ¬ g.ReachesAhead name name

/-- Whether a graph is acyclic depends on its edges alone. -/
theorem acyclic_congr {h : Graph} (same : ∀ a b, h.Edge a b ↔ g.Edge a b) :
    h.Acyclic ↔ g.Acyclic := by
  rw [Acyclic, Acyclic, ReachesAhead, edge_ext same]

/-- A walk along edges of at least one step that ends where it starts. -/
structure IsClosedWalk (g : Graph) (walk : List String) : Prop where
  two_le_length : 2 ≤ walk.length
  closed : walk.head? = walk.getLast?
  isChain : walk.IsChain g.Edge

/-- A walk along edges reaches its last name. -/
theorem reachesAhead_of_isChain {a b : String} {rest : List String}
    (chain : (a :: b :: rest).IsChain g.Edge) : g.ReachesAhead a (rest.getLastD b) := by
  obtain ⟨first, later⟩ := List.isChain_cons_cons.1 chain
  refine .head' first ?_
  have reaches := List.relationReflTransGen_of_exists_isChain_cons rest later rfl
  rwa [List.getLast_eq_getLastD] at reaches

/-- The name at both ends of a closed walk is reached from itself. -/
theorem IsClosedWalk.reachesAhead {walk : List String} (closed : g.IsClosedWalk walk) :
    ∃ name, g.ReachesAhead name name := by
  obtain ⟨long, ends, chain⟩ := closed
  match walk, long with
  | a :: b :: rest, _ =>
      refine ⟨a, ?_⟩
      have same : a = rest.getLastD b := by
        simpa [List.getLast?_cons] using ends
      have reaches := reachesAhead_of_isChain chain
      rwa [← same] at reaches

/-- Along the steps of a ring each of its names is reached from every one. -/
theorem reachesAhead_of_mem_ring {ring : List String} (edge : ∀ e ∈ ringSteps ring, g.Edge e.1 e.2)
    {a b : String} (mem : a ∈ ring) (mem' : b ∈ ring) : g.ReachesAhead a b := by
  obtain ⟨before, behind, rfl⟩ := List.append_of_mem mem
  have chain : (a :: (behind ++ before ++ [a])).IsChain g.Edge := by
    refine isChain_iff_steps.2 fun e step => edge e ?_
    exact (ringSteps_append_perm before (a :: behind)).mem_iff.2 step
  have ahead := (chain.imp fun _ _ edge => Relation.TransGen.single edge).pairwise
  refine (List.pairwise_cons.1 ahead).1 b ?_
  simp only [List.mem_append, List.mem_cons] at mem' ⊢
  tauto

end Graph

end SchemaHealth
