import SchemaHealth.Proofs.Cycle.Found
import Mathlib.Data.List.Permutation
import Mathlib.Data.Set.Function

/-!
# Every cycle of a graph is met by the cycles found

A graph may have many more cycles than the search finds. Each cycle found has an edge of its own,
the one that closes it, and a graph from which these edges are deleted has no cycle any more
(`Graph.exists_cutBy`). So every closed walk shares an edge with a cycle found, and none is found if
and only if there is none.

The search leaves its names in an order in which an edge that closes no ring leads to a name that
was left before (`InOrder`); such an edge is never part of a closed walk of its kind.
-/

namespace SchemaHealth

variable {g : Graph}

/-! ## Orders without a way back -/

namespace InOrder

variable {closings : List (String × String)} {names before older : List String} {a b : String}

theorem mem_older (inOrder : InOrder g closings (before ++ a :: older))
    (edge : (g.withoutEdges closings).Edge a b) : b ∈ older := by
  induction before with
  | nil =>
      obtain ⟨edge, kept⟩ := Graph.edge_withoutEdges.1 edge
      exact (inOrder.1 b edge).resolve_left kept
  | cons first before ih => exact ih inOrder.2

/-- Where no ring is closed, the order of leaving only goes back. -/
theorem mem_older_of_reachesAhead (inOrder : InOrder g closings (before ++ a :: older))
    (reaches : (g.withoutEdges closings).ReachesAhead a b) : b ∈ older := by
  induction reaches with
  | single edge => exact inOrder.mem_older edge
  | @tail m c _ edge ih =>
      obtain ⟨between, behind, rfl⟩ := List.append_of_mem ih
      have reordered : before ++ a :: (between ++ m :: behind)
          = (before ++ a :: between) ++ m :: behind := by
        simp
      rw [reordered] at inOrder
      exact List.mem_append_right _ (List.mem_cons_of_mem _ (inOrder.mem_older edge))

/-- Without the edges that close rings, a graph whose nodes can be put in order is acyclic. -/
theorem acyclic (inOrder : InOrder g closings names) (nodup : names.Nodup)
    (all : ∀ node ∈ g.nodes, node ∈ names) : (g.withoutEdges closings).Acyclic := by
  intro name reaches
  obtain ⟨target, edge, _⟩ := Relation.TransGen.head'_iff.1 reaches
  have mem := all name (Graph.mem_nodes_of_edge (Graph.edge_withoutEdges.1 edge).1)
  obtain ⟨before, older, rfl⟩ := List.append_of_mem mem
  have again := inOrder.mem_older_of_reachesAhead reaches
  exact (List.nodup_cons.1 (List.nodup_append.1 nodup).2.1).1 again

end InOrder

/-- Without the closing steps of a finished search no cycle is left. -/
theorem IsFinished.acyclic {j : Journal} (finished : IsFinished g j) :
    (g.withoutEdges j.closings).Acyclic :=
  finished.invariant.settles.inOrder.acyclic finished.invariant.tracks.nodup
    fun _ mem => finished.mem_left_of_mem_nodes mem

/-! ## Cycles found are closed walks -/

theorem Cycle.isClosedWalk_ofRing {ring : List String} (nonempty : ring ≠ [])
    (edge : ∀ e ∈ ringSteps ring, g.Edge e.1 e.2) : g.IsClosedWalk (Cycle.ofRing ring).path := by
  obtain ⟨least, rest, _, path⟩ := Cycle.path_eq nonempty
  refine ⟨?_, ?_, isChain_iff_steps.2 fun e step => ?_⟩
  · rw [path]
    simp
  · rw [path, List.getLast?_concat]
    rfl
  · exact edge e ((Cycle.edges_ofRing_perm nonempty).mem_iff.1 step)

/-- Every ring that was found is a closed walk. -/
theorem IsFinished.isClosedWalk {j : Journal} (finished : IsFinished g j) {ring : List String}
    (mem : ring ∈ j.rings) : g.IsClosedWalk (Cycle.ofRing ring).path :=
  Cycle.isClosedWalk_ofRing (finished.invariant.rings ring mem).ne_nil
    fun _ step => finished.invariant.ringStep_edge mem step

/-- Every cycle of a graph is a closed walk in it. -/
theorem Graph.isClosedWalk_of_mem_cycles (plain : g.CommaFree) {c : Cycle} (mem : c ∈ g.cycles) :
    g.IsClosedWalk c.path := by
  obtain ⟨j, finished⟩ := g.exists_isFinished
  obtain ⟨ring, closed, rfl⟩ := finished.exists_ring plain mem
  exact finished.isClosedWalk closed

/-! ## The edges that close the cycles -/

/-- An edge for each cycle found that no other cycle found has, such that nothing circular is left
when all these edges are deleted. They are the edges with which the search closed rings, of which no
two came together in one cycle. -/
structure Graph.CutBy (g : Graph) (closing : Cycle → String × String) : Prop where
  edge : ∀ c ∈ g.cycles, ∀ e ∈ c.edges, g.Edge e.1 e.2
  mem_edges : ∀ c ∈ g.cycles, closing c ∈ c.edges
  eq_of_mem_edges : ∀ c ∈ g.cycles, ∀ other ∈ g.cycles, closing c ∈ other.edges → other = c
  acyclic : (g.withoutEdges (g.cycles.map closing)).Acyclic
  closings : ∃ j, IsFinished g j ∧ j.closings.Nodup ∧ g.cycles.map closing = j.closings

theorem IsFinished.exists_closing {j : Journal} (finished : IsFinished g j) :
    ∃ closing : Cycle → String × String,
      ∀ ring ∈ j.rings, closing (Cycle.ofRing ring) = closingStep ring := by
  have injective : Set.InjOn Cycle.ofRing {ring | ring ∈ j.rings} := by
    intro ring mem other mem' same
    refine finished.invariant.eq_of_ringSteps_perm mem mem' ?_
    have perm := finished.edges_ofRing_perm mem
    rw [same] at perm
    exact perm.symm.trans (finished.edges_ofRing_perm mem')
  refine ⟨fun c => closingStep (Function.invFunOn Cycle.ofRing {ring | ring ∈ j.rings} c), ?_⟩
  exact fun ring mem => congrArg closingStep (injective.leftInvOn_invFunOn mem)

/-- The edges that close the cycles found cut every cycle of the graph. -/
theorem IsFinished.cutBy {j : Journal} (finished : IsFinished g j) (plain : g.CommaFree)
    {closing : Cycle → String × String}
    (closes : ∀ ring ∈ j.rings, closing (Cycle.ofRing ring) = closingStep ring) :
    g.CutBy closing := by
  have inv := finished.invariant
  have all : g.cycles.map closing = j.closings := by
    rw [finished.cycles_eq plain, List.map_map]
    exact List.map_congr_left closes
  refine ⟨?_, ?_, ?_, ?_, j, finished, inv.nodup_closings, all⟩
  · intro c mem e step
    obtain ⟨ring, closed, rfl⟩ := finished.exists_ring plain mem
    exact inv.ringStep_edge closed ((finished.edges_ofRing_perm closed).mem_iff.1 step)
  · intro c mem
    obtain ⟨ring, closed, rfl⟩ := finished.exists_ring plain mem
    rw [closes ring closed, (finished.edges_ofRing_perm closed).mem_iff]
    exact closingStep_mem_ringSteps (inv.rings ring closed).ne_nil
  · intro c mem other mem' step
    obtain ⟨ring, closed, rfl⟩ := finished.exists_ring plain mem
    obtain ⟨ring', closed', rfl⟩ := finished.exists_ring plain mem'
    rw [closes ring closed, (finished.edges_ofRing_perm closed').mem_iff] at step
    have same := inv.closingStep_eq closed closed' step
    rw [List.inj_on_of_nodup_map inv.nodup_closings closed closed' same]
  · rw [all]
    exact finished.acyclic

namespace Graph.CutBy

variable {closing : Cycle → String × String}

/-- No cycle is listed twice when each has an edge of its own. -/
theorem nodup_cycles (cut : g.CutBy closing) : g.cycles.Nodup := by
  obtain ⟨_, _, nodup, all⟩ := cut.closings
  rw [← all] at nodup
  exact nodup.of_map _

/-- Every closed walk shares an edge with a cycle found. -/
theorem exists_mem_edges (cut : g.CutBy closing) {walk : List String}
    (closed : g.IsClosedWalk walk) : ∃ c ∈ g.cycles, ∃ step ∈ steps walk, step ∈ c.edges := by
  by_contra apart
  -- a walk that shares no edge is left when the edges that close the cycles are deleted
  have left : (g.withoutEdges (g.cycles.map closing)).IsClosedWalk walk := by
    refine ⟨closed.two_le_length, closed.closed, isChain_iff_steps.2 fun e step => ?_⟩
    refine Graph.edge_withoutEdges.2 ⟨isChain_iff_steps.1 closed.isChain e step, fun gone => ?_⟩
    obtain ⟨c, mem, same⟩ := List.mem_map.1 gone
    have own := cut.mem_edges c mem
    rw [same] at own
    exact apart ⟨c, mem, e, step, own⟩
  obtain ⟨name, reaches⟩ := left.reachesAhead
  exact cut.acyclic name reaches

/-- No cycle is found just for the graphs without cycles. -/
theorem cycles_eq_nil_iff (cut : g.CutBy closing) (plain : g.CommaFree) :
    g.cycles = [] ↔ g.Acyclic := by
  constructor
  · intro none name reaches
    have acyclic := cut.acyclic
    rw [none] at acyclic
    refine acyclic name (Relation.TransGen.mono (fun _ _ edge => ?_) _ _ reaches)
    exact Graph.edge_withoutEdges.2 ⟨edge, List.not_mem_nil⟩
  · intro acyclic
    refine List.eq_nil_iff_forall_not_mem.2 fun c mem => ?_
    obtain ⟨name, reaches⟩ := (Graph.isClosedWalk_of_mem_cycles plain mem).reachesAhead
    exact acyclic name reaches

end Graph.CutBy

/-- No cycle is found just for the graphs without cycles. -/
theorem Graph.cycles_eq_nil_iff_acyclic (plain : g.CommaFree) : g.cycles = [] ↔ g.Acyclic := by
  obtain ⟨j, finished⟩ := g.exists_isFinished
  obtain ⟨closing, closes⟩ := finished.exists_closing
  exact (finished.cutBy plain closes).cycles_eq_nil_iff plain

/-- Each cycle found can be given an edge that no other cycle found has, such that no cycle is left
when these edges are deleted. So every closed walk shares an edge with a cycle found, and no cycle
is found just for the graphs without cycles. -/
theorem Graph.exists_cutBy (g : Graph) (plain : g.CommaFree) :
    g.cycles.Nodup ∧ (∃ closing, g.CutBy closing) ∧
      (∀ walk, g.IsClosedWalk walk → ∃ c ∈ g.cycles, ∃ step ∈ steps walk, step ∈ c.edges) ∧
      (g.cycles = [] ↔ g.Acyclic) := by
  obtain ⟨j, finished⟩ := g.exists_isFinished
  obtain ⟨closing, closes⟩ := finished.exists_closing
  have cut := finished.cutBy plain closes
  exact ⟨cut.nodup_cycles, ⟨closing, cut⟩, fun _ closed => cut.exists_mem_edges closed,
    cut.cycles_eq_nil_iff plain⟩

/-- Two names that refer to each other, of which one also refers to itself. -/
def loopedPair : Graph := ((Graph.empty.addEdge "B" "A").addEdge "A" "B").addEdge "B" "B"

theorem commaFree_loopedPair : loopedPair.CommaFree := by
  unfold Graph.CommaFree
  decide

theorem exists_cutBy_loopedPair :
    loopedPair.CommaFree ∧ loopedPair.cycles.map (·.path) = [["A", "B", "A"], ["B", "B"]] ∧
      ∃ closing, loopedPair.CutBy closing :=
  ⟨commaFree_loopedPair, by cbv, (loopedPair.exists_cutBy commaFree_loopedPair).2.1⟩

end SchemaHealth
