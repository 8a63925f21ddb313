import SchemaHealth.Proofs.Cycle.Loops
import Mathlib.Data.Nat.Choose.Basic

/-!
# Types that all refer to each other

Where every node of a graph has an edge to every other one, the search goes down a single path: as
long as a node is left over, the node that was entered last leads to it. So no node is left before
all were entered (`Descends`), and a ring is closed by every edge that leads back along the path.
Which rings these are depends on the order of the graph; their number does not. Of `n` nodes there
are `n (n - 1) / 2` pairs, with one edge back each, and the edges from a node to itself come on top
(`Document.length_cycles_of_isInterconnected`).
-/

namespace SchemaHealth

variable {g : Graph} {p q : SearchPoint} {names : List String} {a b : String}

/-- Every node has an edge to every other one, and no edge leads elsewhere. -/
structure Graph.IsInterconnected (g : Graph) : Prop where
  edge : ∀ a ∈ g.nodes, ∀ b ∈ g.nodes, a ≠ b → g.Edge a b
  mem_nodes : ∀ a b, g.Edge a b → b ∈ g.nodes

/-! ## Going down a single path -/

/-- A search that never left a node before it had entered all of them: what it has entered is the
path that it stands on, and then what it has left again. -/
structure Descends (g : Graph) (p : SearchPoint) : Prop where
  visited_eq : p.journal.search.visited = pathOf p.stack ++ p.journal.left
  visited_nodes : ∀ name ∈ p.journal.search.visited, name ∈ g.nodes
  todo_nodes : ∀ name ∈ p.todo, name ∈ g.nodes
  rest_nodes : ∀ frame ∈ p.stack, ∀ name ∈ frame.2, name ∈ g.nodes
  all_visited : p.journal.left ≠ [] → ∀ node ∈ g.nodes, node ∈ p.journal.search.visited
  rings : ∀ ring ∈ p.journal.rings, ring.Sublist p.journal.search.visited

namespace Descends

theorem start (g : Graph) : Descends g (.start g) where
  visited_eq := rfl
  visited_nodes _ mem := absurd mem List.not_mem_nil
  todo_nodes _ mem := mem
  rest_nodes _ mem := absurd mem List.not_mem_nil
  all_visited left := absurd rfl left
  rings _ mem := absurd mem List.not_mem_nil

/-- When a node is left, all were entered: each is a target of it. -/
theorem all_visited_of_leave (connected : g.IsInterconnected) (inv : SearchInvariant g p)
    {name : String} (left : name ∈ p.journal.left) (isNode : name ∈ g.nodes) :
    ∀ node ∈ g.nodes, node ∈ p.journal.search.visited := by
  intro node mem
  by_cases same : name = node
  · rw [← same]
    exact inv.tracks.mem_visited.2 (.inr left)
  · exact target_visited_of_left inv.tracks inv.rings inv.settles left
      (connected.edge name isNode node mem same)

/-- In an interconnected graph a step keeps the search descending. -/
theorem step (connected : g.IsInterconnected) (step : SearchStep g p q)
    (inv : SearchInvariant g q) (descends : Descends g p) : Descends g q := by
  obtain ⟨visitedEq, visitedNodes, todoNodes, restNodes, allVisited, rings⟩ := descends
  cases step with
  | @close stack name todo j onPath =>
      have same := j.visited_close (pathOf stack) name
      refine ⟨same.trans visitedEq, same ▸ visitedNodes, ?_, restNodes, same ▸ allVisited, ?_⟩
      · exact fun other mem => todoNodes other (List.mem_cons_of_mem _ mem)
      · intro ring mem
        rw [same]
        rcases List.mem_append.1 mem with old | new
        · exact rings ring old
        · rw [List.mem_singleton.1 new, visitedEq]
          exact (List.dropWhile_suffix _).sublist.trans (List.sublist_append_left _ _)
  | pass offPath seen =>
      exact ⟨visitedEq, visitedNodes, fun other mem => todoNodes other (List.mem_cons_of_mem _ mem),
        restNodes, allVisited, rings⟩
  | @enter stack name todo j offPath unseen =>
      have isNode := todoNodes name List.mem_cons_self
      have noneLeft : j.left = [] := by
        by_contra left
        exact unseen (allVisited left name isNode)
      refine ⟨?_, ?_, fun target edge => connected.mem_nodes name target edge, ?_, ?_, ?_⟩
      · have entered : j.search.visited = pathOf stack ++ j.left := visitedEq
        show j.search.visited ++ [name] = pathOf ((name, todo) :: stack) ++ j.left
        rw [entered, noneLeft, pathOf_cons, List.append_nil, List.append_nil]
      · intro other mem
        rcases List.mem_append.1 mem with old | new
        · exact visitedNodes other old
        · rw [List.mem_singleton.1 new]
          exact isNode
      · refine List.forall_mem_cons.2 ⟨?_, restNodes⟩
        exact fun other mem => todoNodes other (List.mem_cons_of_mem _ mem)
      · exact fun left => absurd noneLeft left
      · exact fun ring mem => (rings ring mem).trans (List.sublist_append_left _ _)
  | @leave stack name todo j =>
      refine ⟨?_, visitedNodes, ?_, ?_, fun _ => ?_, rings⟩
      · have entered : j.search.visited = pathOf ((name, todo) :: stack) ++ j.left := visitedEq
        show j.search.visited = pathOf stack ++ name :: j.left
        rw [entered, pathOf_cons, List.append_assoc]
        rfl
      · exact restNodes _ List.mem_cons_self
      · exact fun frame mem => restNodes frame (List.mem_cons_of_mem _ mem)
      · have left : name ∈ name :: j.left := List.mem_cons_self
        have isNode := visitedNodes name (inv.tracks.mem_visited.2 (.inr left))
        exact all_visited_of_leave connected inv left isNode

/-- In an interconnected graph the whole search descends. -/
theorem run (connected : g.IsInterconnected) (run : SearchRun g (.start g) p) : Descends g p := by
  induction run with
  | refl => exact Descends.start g
  | tail before step ih =>
      exact ih.step connected step ((SearchInvariant.start g).run (before.tail step))

end Descends

/-! ## Steps back in a list -/

/-- The steps from each name in a list back to itself and to the names before it. -/
def stepsBack : List String → List (String × String)
  | [] => []
  | name :: later => (name, name) :: later.map (fun other => (other, name)) ++ stepsBack later

theorem mem_of_mem_stepsBack {e : String × String} (mem : e ∈ stepsBack names) :
    e.1 ∈ names ∧ e.2 ∈ names := by
  induction names with
  | nil => cases mem
  | cons name later ih =>
      rcases List.mem_append.1 mem with here | there
      · rcases List.mem_cons.1 here with rfl | step
        · exact ⟨List.mem_cons_self, List.mem_cons_self⟩
        · obtain ⟨other, mem', rfl⟩ := List.mem_map.1 step
          exact ⟨List.mem_cons_of_mem _ mem', List.mem_cons_self⟩
      · exact ⟨List.mem_cons_of_mem _ (ih there).1, List.mem_cons_of_mem _ (ih there).2⟩

/-- No step back is counted twice. -/
theorem nodup_stepsBack (nodup : names.Nodup) : (stepsBack names).Nodup := by
  induction names with
  | nil => exact List.nodup_nil
  | cons name later ih =>
      obtain ⟨fresh, nodup⟩ := List.nodup_cons.1 nodup
      have toName : ((name, name) :: later.map fun other => (other, name)).Nodup := by
        refine List.nodup_cons.2 ⟨fun mem => ?_, nodup.map fun _ _ same => (Prod.mk.inj same).1⟩
        obtain ⟨other, mem', same⟩ := List.mem_map.1 mem
        rw [(Prod.mk.inj same).1] at mem'
        exact fresh mem'
      refine List.nodup_append.2 ⟨toName, ih nodup, ?_⟩
      rintro e here _ there rfl
      -- A step to the first name is no step among the later ones.
      have target : e.2 = name := by
        rcases List.mem_cons.1 here with rfl | step
        · rfl
        · obtain ⟨other, _, rfl⟩ := List.mem_map.1 step
          rfl
      exact fresh (target ▸ (mem_of_mem_stepsBack there).2)

/-- The step that closes a ring leads back where the names of the ring stand in order. -/
theorem closingStep_mem_stepsBack {ring : List String} (sublist : ring.Sublist names)
    (nonempty : ring ≠ []) : closingStep ring ∈ stepsBack names := by
  induction sublist with
  | slnil => exact absurd rfl nonempty
  | cons name _ ih => exact List.mem_append_right _ (ih nonempty)
  | @cons_cons rest later name sublist _ =>
      refine List.mem_append_left _ ?_
      cases rest with
      | nil => exact List.mem_cons_self
      | cons second rest =>
          refine List.mem_cons_of_mem _ (List.mem_map.2 ⟨rest.getLastD second, ?_, ?_⟩)
          · exact sublist.subset List.getLastD_mem_cons
          · rw [closingStep, List.getLastD_cons]

/-- An edge that leads back where names were left in this order closes a ring. -/
theorem InOrder.mem_closings_of_mem_stepsBack {closings : List (String × String)}
    (inOrder : InOrder g closings names) (nodup : names.Nodup) (back : (a, b) ∈ stepsBack names)
    (edge : g.Edge a b) : (a, b) ∈ closings := by
  induction names with
  | nil => cases back
  | cons name later ih =>
      obtain ⟨fresh, nodup⟩ := List.nodup_cons.1 nodup
      rcases List.mem_append.1 back with here | there
      · rcases List.mem_cons.1 here with same | step
        · cases same
          exact (inOrder.1 _ edge).resolve_right fresh
        · obtain ⟨other, mem, same⟩ := List.mem_map.1 step
          cases same
          exact (inOrder.2.settled mem edge).resolve_right fresh
      · exact ih inOrder.2 nodup there

/-- Where all names have edges to each other, every pair of them has one edge back. -/
theorem countP_stepsBack (edges : names.Pairwise fun a b => g.Edge b a) :
    (stepsBack names).countP (fun e => g.hasEdge e.1 e.2)
      = names.length * (names.length - 1) / 2 + names.countP fun name => g.hasEdge name name := by
  induction names with
  | nil => rfl
  | cons name later ih =>
      obtain ⟨first, edges⟩ := List.pairwise_cons.1 edges
      have toName : (later.map fun other => (other, name)).countP (fun e => g.hasEdge e.1 e.2)
          = later.length := by
        rw [List.countP_map, List.countP_eq_length]
        exact fun other mem => Graph.hasEdge_iff.2 (first other mem)
      rw [stepsBack, List.countP_append, List.countP_cons, toName, ih edges, List.countP_cons,
        List.length_cons, Nat.triangle_succ]
      dsimp only
      omega

/-! ## The cycles of interconnected nodes -/

namespace IsFinished

variable {j : Journal}

/-- The search of an interconnected graph leaves every node once. -/
theorem left_perm_nodes (finished : IsFinished g j) (connected : g.IsInterconnected) :
    j.left.Perm g.nodes := by
  have descends := Descends.run connected finished.run
  have visited : j.search.visited = j.left := descends.visited_eq
  refine (List.perm_ext_iff_of_nodup finished.invariant.tracks.nodup g.nodup_nodes).2 fun name => ?_
  exact ⟨fun mem => descends.visited_nodes name (visited ▸ mem), finished.mem_left_of_mem_nodes⟩

/-- The rings are closed by the edges that lead back in the order in which nodes were entered. -/
theorem closings_perm (finished : IsFinished g j) (connected : g.IsInterconnected) :
    j.closings.Perm ((stepsBack j.left).filter fun e => g.hasEdge e.1 e.2) := by
  have inv := finished.invariant
  have descends := Descends.run connected finished.run
  have visited : j.search.visited = j.left := descends.visited_eq
  have nodup : j.left.Nodup := inv.tracks.nodup
  refine (List.perm_ext_iff_of_nodup inv.nodup_closings ((nodup_stepsBack nodup).filter _)).2 ?_
  rintro ⟨a, b⟩
  rw [List.mem_filter, Graph.hasEdge_iff]
  constructor
  · intro closing
    refine ⟨?_, inv.closing_edge _ closing⟩
    obtain ⟨ring, mem, same⟩ := List.mem_map.1 closing
    rw [← same]
    exact closingStep_mem_stepsBack (visited ▸ descends.rings ring mem) (inv.rings ring mem).ne_nil
  · rintro ⟨back, edge⟩
    exact inv.settles.inOrder.mem_closings_of_mem_stepsBack nodup back edge

end IsFinished

/-- Among `n` interconnected nodes of which `k` have an edge to themselves, `n (n - 1) / 2 + k`
cycles are found. -/
theorem Graph.length_cycles_interconnected (plain : g.CommaFree)
    (connected : g.IsInterconnected) :
    g.cycles.length = g.nodes.length * (g.nodes.length - 1) / 2 + g.loops.length := by
  obtain ⟨j, finished⟩ := g.exists_isFinished
  have perm := finished.left_perm_nodes connected
  have nodup : j.left.Nodup := finished.invariant.tracks.nodup
  have edges : j.left.Pairwise fun a b => g.Edge b a := by
    refine nodup.imp_of_mem fun {a b} mem mem' different => ?_
    exact connected.edge b (perm.mem_iff.1 mem') a (perm.mem_iff.1 mem) (Ne.symm different)
  rw [finished.length_cycles plain, (finished.closings_perm connected).length_eq,
    ← List.countP_eq_length_filter, countP_stepsBack edges, perm.length_eq, perm.countP_eq, loops,
    ← List.countP_eq_length_filter]

namespace Document

variable {d : Document}

/-- Every object type has a field of the type of every other one, and no field has another type that
is not a built-in scalar; no object type has the name of such a scalar. -/
structure IsInterconnected (d : Document) : Prop where
  notBuiltin : ∀ type ∈ d.objectNames, type.text ∉ builtinScalars
  eachOther : ∀ a ∈ d.objectNames, ∀ b ∈ d.objectNames, a ≠ b →
    ∃ f ∈ d.declarations a, f.type.base = b
  nothingElse : ∀ a ∈ d.objectNames, ∀ f ∈ d.declarations a,
    f.type.base ∈ d.objectNames ∨ f.type.base.text ∈ builtinScalars

/-- The nodes of the references are the names of the object types, in order. -/
theorem nodes_eq_objectNames (d : Document) : d.references.nodes = d.objectNames.map Name.text :=
  d.nodes_references

/-- Types that all refer to each other make an interconnected graph. -/
theorem IsInterconnected.references (connected : d.IsInterconnected) :
    d.references.IsInterconnected where
  edge a mem b mem' different := by
    rw [nodes_eq_objectNames] at mem mem'
    obtain ⟨type, isType, rfl⟩ := List.mem_map.1 mem
    obtain ⟨other, isOther, rfl⟩ := List.mem_map.1 mem'
    obtain ⟨f, declared, base⟩ := connected.eachOther type isType other isOther fun same =>
      different (congrArg Name.text same)
    refine edge_text_references.2 (refersTo_iff.2 ⟨f, declared, base, ?_⟩)
    exact connected.notBuiltin other isOther
  mem_nodes a b edge := by
    obtain ⟨source, target, refers, rfl, rfl⟩ := edge_references.1 edge
    obtain ⟨t, object, named, _⟩ := id refers
    have isSource : source ∈ d.objectNames := mem_objectNames.2 ⟨t, object, named⟩
    obtain ⟨f, declared, rfl, notBuiltin⟩ := refersTo_iff.1 refers
    rw [nodes_eq_objectNames]
    refine List.mem_map_of_mem ?_
    exact (connected.nothingElse source isSource f declared).resolve_right notBuiltin

/-- Of `n` object types that all refer to each other, and of which `k` refer to themselves,
`n (n - 1) / 2 + k` cycles are found, in whatever order types and fields are declared. -/
theorem length_cycles_of_isInterconnected (connected : d.IsInterconnected) :
    d.references.cycles.length
      = d.objectNames.length * (d.objectNames.length - 1) / 2 + d.selfReferring.length := by
  rw [Graph.length_cycles_interconnected d.commaFree_references connected.references,
    nodes_eq_objectNames, loops_references, List.length_map, List.length_map]

end Document

/-- Films, their actors and the studios of both, with the remakes of a film. What actors and studios
have besides is declared in extensions. -/
def films : Document where
  types :=
    [⟨⟨"Film", by decide⟩, .object
        [⟨⟨"rating", by decide⟩, .nonNull (.named ⟨"Float", by decide⟩), [], .start⟩,
          ⟨⟨"cast", by decide⟩, .nonNull (.list (.named ⟨"Actor", by decide⟩)), [], .start⟩,
          ⟨⟨"remake", by decide⟩, .named ⟨"Film", by decide⟩, [], .start⟩,
          ⟨⟨"studio", by decide⟩, .named ⟨"Studio", by decide⟩, [], .start⟩], false, [], .start⟩,
      ⟨⟨"Actor", by decide⟩, .object
        [⟨⟨"debut", by decide⟩, .nonNull (.named ⟨"Film", by decide⟩), [], .start⟩], false, [],
        .start⟩,
      ⟨⟨"Studio", by decide⟩, .object
        [⟨⟨"stars", by decide⟩, .list (.named ⟨"Actor", by decide⟩), [], .start⟩], false, [],
        .start⟩,
      ⟨⟨"Actor", by decide⟩, .object
        [⟨⟨"employer", by decide⟩, .named ⟨"Studio", by decide⟩, [], .start⟩,
          ⟨⟨"latest", by decide⟩, .named ⟨"Film", by decide⟩, [], .start⟩], true, [], .start⟩,
      ⟨⟨"Studio", by decide⟩, .object
        [⟨⟨"films", by decide⟩, .list (.named ⟨"Film", by decide⟩), [], .start⟩], true, [], .start⟩]

theorem length_cycles_films :
    films.IsInterconnected ∧ films.objectNames.length = 3 ∧ films.selfReferring.length = 1 ∧
      films.references.cycles.length = 4 := by
  have connected : films.IsInterconnected := ⟨by decide, by decide, by decide⟩
  have names : films.objectNames.length = 3 := by decide
  have loops : films.selfReferring.length = 1 := by decide
  refine ⟨connected, names, loops, ?_⟩
  rw [Document.length_cycles_of_isInterconnected connected, names, loops]

end SchemaHealth
