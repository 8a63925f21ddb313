import SchemaHealth.Proofs.Cycle.Soundness

/-!
# Names that refer to themselves

An edge from a name to itself closes a ring of one name, wherever the search comes from, and no
other edge does. So there is one cycle of length one for each name with such an edge
(`Graph.countP_length_eq_one`); in a schema these are the object types with a field of their own
type, whatever its wrappers (`Document.loops_references`).
-/

namespace SchemaHealth

variable {g : Graph} {d : Document} {name : String}

namespace Graph

/-- The nodes with an edge to themselves. -/
def loops (g : Graph) : List String := g.nodes.filter fun name => g.hasEdge name name

@[simp] theorem hasEdge_iff {source target : String} :
    g.hasEdge source target = true ↔ g.Edge source target := by
  rw [hasEdge, decide_eq_true_iff]
  exact Iff.rfl

/-- The loops of a graph are the names with an edge to themselves. -/
theorem mem_loops : name ∈ g.loops ↔ g.Edge name name := by
  rw [loops, List.mem_filter, hasEdge_iff]
  exact and_iff_right_of_imp mem_nodes_of_edge

/-- No loop is listed twice. -/
theorem nodup_loops (g : Graph) : g.loops.Nodup := List.Pairwise.filter _ g.nodup_nodes

end Graph

/-! ## Rings of one name -/

/-- A ring of one name is closed by a loop. -/
theorem IsClosedRing.length_eq_one_iff {j : Journal} {ring : List String}
    (closed : IsClosedRing j ring) :
    ring.length = 1 ↔ (closingStep ring).1 = (closingStep ring).2 := by
  match ring, closed with
  | [], closed => exact absurd rfl closed.ne_nil
  | [a], _ => exact iff_of_true rfl rfl
  | a :: b :: rest, closed =>
      refine iff_of_false (by simp) fun (same : (b :: rest).getLastD a = a) => ?_
      -- The last name would be the first one again.
      have last : (b :: rest).getLastD a ∈ b :: rest := by
        rw [List.getLastD_cons]
        exact List.getLastD_mem_cons
      rw [same] at last
      exact (List.nodup_cons.1 closed.nodup).1 last

namespace IsFinished

variable {j : Journal}

/-- An edge from a name to itself closes a ring: without the closing steps no cycle is left. -/
theorem loop_mem_closings (finished : IsFinished g j) (edge : g.Edge name name) :
    (name, name) ∈ j.closings := by
  by_contra kept
  exact finished.acyclic name (.single (Graph.edge_withoutEdges.2 ⟨edge, kept⟩))

/-- The closing steps that stay at their name are the loops of the graph. -/
theorem filter_closings_perm (finished : IsFinished g j) :
    (j.closings.filter fun e => e.1 = e.2).Perm (g.loops.map fun name => (name, name)) := by
  have nodup : (g.loops.map fun name => (name, name)).Nodup :=
    g.nodup_loops.map fun _ _ same => (Prod.mk.inj same).1
  refine (List.perm_ext_iff_of_nodup (finished.invariant.nodup_closings.filter _) nodup).2 ?_
  rintro ⟨a, b⟩
  rw [List.mem_filter, List.mem_map, decide_eq_true_iff]
  constructor
  · rintro ⟨closing, (rfl : a = b)⟩
    exact ⟨a, Graph.mem_loops.2 (finished.invariant.closing_edge _ closing), rfl⟩
  · rintro ⟨name, loop, same⟩
    cases same
    exact ⟨finished.loop_mem_closings (Graph.mem_loops.1 loop), rfl⟩

/-- A cycle is as long as its ring. -/
theorem length_ofRing (finished : IsFinished g j) {ring : List String} (mem : ring ∈ j.rings) :
    (Cycle.ofRing ring).length = ring.length := by
  have rotated := Cycle.types_ofRing_isRotated (finished.invariant.rings ring mem).ne_nil
  rw [← Cycle.length_types, rotated.perm.length_eq]

end IsFinished

/-- There are as many cycles of length one as names with an edge to themselves. -/
theorem Graph.countP_length_eq_one (plain : g.CommaFree) :
    (g.cycles.countP fun c => c.length = 1) = g.loops.length := by
  obtain ⟨j, finished⟩ := g.exists_isFinished
  have single : ∀ ring ∈ j.rings, decide ((Cycle.ofRing ring).length = 1) = true
      ↔ decide ((closingStep ring).1 = (closingStep ring).2) = true := by
    intro ring mem
    rw [decide_eq_true_iff, decide_eq_true_iff, finished.length_ofRing mem]
    exact (finished.invariant.rings ring mem).length_eq_one_iff
  have loops : (j.closings.countP fun e => e.1 = e.2) = g.loops.length := by
    rw [List.countP_eq_length_filter, finished.filter_closings_perm.length_eq, List.length_map]
  rw [finished.cycles_eq plain, List.countP_map, ← loops, Journal.closings, List.countP_map]
  exact List.countP_congr single

/-! ## Types that refer to themselves -/

namespace Document

variable {a b : Name}

instance (d : Document) (source target : Name) : Decidable (d.RefersTo source target) :=
  inferInstanceAs (Decidable (∃ t ∈ d.objects, t.name = source ∧
    ∃ f ∈ t.fields, f.type.base = target ∧ target.text ∉ builtinScalars))

/-- The names of the object types, each once, in order of their first definition. -/
def objectNames (d : Document) : List Name := distinct (d.objects.map (·.name))

/-- The object types, built-in scalars left out, with a field of their own type. -/
def selfReferring (d : Document) : List Name :=
  d.objectNames.filter fun name => d.RefersTo name name

theorem mem_objectNames : a ∈ d.objectNames ↔ ∃ t ∈ d.objects, t.name = a := by
  rw [objectNames, mem_distinct, List.mem_map]

/-- There is an edge between object types just when one refers to the other. -/
theorem edge_text_references : d.references.Edge a.text b.text ↔ d.RefersTo a b := by
  rw [edge_references]
  constructor
  · rintro ⟨source, target, refers, same, same'⟩
    rwa [← Name.ext same, ← Name.ext same']
  · exact fun refers => ⟨a, b, refers, rfl, rfl⟩

/-- The loops of the references are the types that refer to themselves. -/
theorem loops_references (d : Document) :
    d.references.loops = d.selfReferring.map Name.text := by
  rw [Graph.loops, nodes_references, List.filter_map, selfReferring]
  refine congrArg (List.map Name.text) (List.filter_congr fun type _ => ?_)
  rw [Bool.eq_iff_iff, Function.comp_apply, Graph.hasEdge_iff, decide_eq_true_iff]
  exact edge_text_references

end Document

end SchemaHealth
