import SchemaHealth.Proofs.Cycle.Completeness
import SchemaHealth.Proofs.Graph.References
import SchemaHealth.Proofs.Text.ByteOrder

/-!
# The cycles found are cycles

What the search closes is part of a path along edges, and it is kept in canonical form. So a cycle
found goes along edges round distinct names, from the least of them back to it, and no two cycles
found are rotations of each other.

* `Graph.isCanonical_of_mem_cycles`, `Graph.pairwise_not_isRotated`: the statements about a graph.
* `Document.cycles_sound`: both together for the references of a document, where the names are those
  of object types and the order is that of their bytes.
-/

namespace SchemaHealth

variable {g : Graph} {d : Document} {c : Cycle} {name : String}

/-- A cycle goes along edges round distinct names, from the least of them back to it. -/
structure Graph.IsCanonical (g : Graph) (c : Cycle) : Prop where
  isClosedWalk : g.IsClosedWalk c.path
  types_eq : c.types = c.path.dropLast
  length_eq : c.length = c.types.length
  nodup : c.types.Nodup
  least : ∃ first, c.path.head? = some first ∧ first ∈ c.types ∧ ∀ name ∈ c.types, first ≤ name

/-- The types of a cycle are its path without the closing name. -/
theorem Cycle.types_eq_dropLast (c : Cycle) : c.types = c.path.dropLast :=
  List.dropLast_eq_take.symm

/-- A cycle is as long as it has types. -/
theorem Cycle.length_types (c : Cycle) : c.types.length = c.length := by
  rw [types_eq_dropLast, List.length_dropLast, length]

namespace IsFinished

variable {j : Journal} {ring : List String}

/-- Every ring that was found makes a canonical cycle. -/
theorem isCanonical (finished : IsFinished g j) (mem : ring ∈ j.rings) :
    g.IsCanonical (.ofRing ring) := by
  have closed := finished.invariant.rings ring mem
  have rotated := Cycle.types_ofRing_isRotated closed.ne_nil
  refine ⟨finished.isClosedWalk mem, Cycle.types_eq_dropLast _, (Cycle.length_types _).symm, ?_, ?_⟩
  · exact rotated.nodup_iff.2 closed.nodup
  · obtain ⟨least, rest, eq, le⟩ := rotateToLeast_eq_cons closed.ne_nil
    have types : (Cycle.ofRing ring).types = least :: rest :=
      (Cycle.types_ofRing closed.ne_nil).trans eq
    refine ⟨least, ?_, ?_, fun name onCycle => le name (rotated.mem_iff.1 onCycle)⟩
    · rw [Cycle.path_ofRing closed.ne_nil, eq]
      rfl
    · rw [types]
      exact List.mem_cons_self

/-- No ring is found twice. -/
theorem nodup_rings (finished : IsFinished g j) : j.rings.Nodup :=
  finished.invariant.nodup_closings.of_map _

/-- Rings that close the same cycle up to its starting point are one ring. -/
theorem eq_of_isRotated (finished : IsFinished g j) {other : List String} (mem : ring ∈ j.rings)
    (mem' : other ∈ j.rings) (rotated : (Cycle.ofRing ring).types ~r (Cycle.ofRing other).types) :
    ring = other := by
  have left := Cycle.types_ofRing_isRotated (finished.invariant.rings ring mem).ne_nil
  have right := Cycle.types_ofRing_isRotated (finished.invariant.rings other mem').ne_nil
  have rings : ring ~r other := (left.symm.trans rotated).trans right
  exact finished.invariant.eq_of_ringSteps_perm mem mem' (ringSteps_perm rings)

end IsFinished

namespace Graph

/-- The cycles found are canonical. -/
theorem isCanonical_of_mem_cycles (plain : g.CommaFree) (mem : c ∈ g.cycles) :
    g.IsCanonical c := by
  obtain ⟨j, finished⟩ := g.exists_isFinished
  obtain ⟨ring, closed, rfl⟩ := finished.exists_ring plain mem
  exact finished.isCanonical closed

/-- No two cycles found are rotations of each other. -/
theorem pairwise_not_isRotated (plain : g.CommaFree) :
    g.cycles.Pairwise fun a b => ¬ a.types ~r b.types := by
  obtain ⟨j, finished⟩ := g.exists_isFinished
  rw [finished.cycles_eq plain, List.pairwise_map]
  refine finished.nodup_rings.pairwise_of_forall_ne fun ring mem other mem' different => ?_
  exact fun rotated => different (finished.eq_of_isRotated mem mem' rotated)

/-- A closed walk goes on from each of its names. -/
theorem IsClosedWalk.exists_edge_from {walk : List String} (closed : g.IsClosedWalk walk)
    (mem : name ∈ walk.dropLast) : ∃ target, g.Edge name target := by
  obtain ⟨before, behind, eq⟩ := List.append_of_mem mem
  have nonempty : walk ≠ [] := by
    rintro rfl
    cases mem
  have whole := List.dropLast_append_getLast nonempty
  rw [eq, List.append_assoc] at whole
  have chain := closed.isChain
  rw [← whole] at chain
  have rest := chain.right_of_append
  cases behind with
  | nil => exact ⟨_, (List.isChain_cons_cons.1 rest).1⟩
  | cons next behind => exact ⟨next, (List.isChain_cons_cons.1 rest).1⟩

end Graph

/-- Every name on a cycle of references is that of an object type. -/
theorem Document.exists_object_of_mem_types (mem : c ∈ d.references.cycles)
    (onCycle : name ∈ c.types) : ∃ t ∈ d.objects, t.name.text = name := by
  have canonical := Graph.isCanonical_of_mem_cycles d.commaFree_references mem
  rw [canonical.types_eq] at onCycle
  obtain ⟨target, edge⟩ := canonical.isClosedWalk.exists_edge_from onCycle
  exact mem_nodes_references.1 (Graph.mem_nodes_of_edge edge)

/-- The cycles of references between object types are canonical, even in the order of bytes, and no
two of them are rotations of each other. -/
theorem Document.cycles_sound (d : Document) :
    (∀ c ∈ d.references.cycles, d.references.IsCanonical c ∧
      (∀ name ∈ c.types, ∃ t ∈ d.objects, t.name.text = name) ∧
      ∃ first, c.path.head? = some first ∧ ∀ name ∈ c.types, BytesLe first name) ∧
    d.references.cycles.Pairwise fun a b => ¬ a.types ~r b.types ∧ a.path ≠ b.path := by
  refine ⟨fun c mem => ?_, ?_⟩
  · have canonical := Graph.isCanonical_of_mem_cycles d.commaFree_references mem
    have isObject : ∀ name ∈ c.types, ∃ t ∈ d.objects, t.name.text = name :=
      fun name onCycle => exists_object_of_mem_types mem onCycle
    refine ⟨canonical, isObject, ?_⟩
    obtain ⟨first, head, onCycle, le⟩ := canonical.least
    refine ⟨first, head, fun name onCycle' => ?_⟩
    have before := le name onCycle'
    obtain ⟨t, _, rfl⟩ := isObject first onCycle
    obtain ⟨t', _, rfl⟩ := isObject name onCycle'
    exact Name.bytesLe_of_le before
  · refine (Graph.pairwise_not_isRotated d.commaFree_references).imp fun different => ?_
    refine ⟨different, fun same => different ?_⟩
    rw [Cycle.types_eq_dropLast, Cycle.types_eq_dropLast, same]

/-- Two object types, `B` before `A`, that have fields of each other's type. -/
def mutualTypes : Document where
  types :=
    [ { name := ⟨"B", by decide⟩
        body := .object [⟨⟨"a", by decide⟩, .list (.named ⟨"A", by decide⟩), [], .start⟩]
        isExtension := false
        directives := []
        position := .start },
      { name := ⟨"A", by decide⟩
        body := .object [⟨⟨"b", by decide⟩, .nonNull (.named ⟨"B", by decide⟩), [], .start⟩]
        isExtension := false
        directives := []
        position := .start } ]

theorem cycles_sound_mutualTypes :
    mutualTypes.references.cycles = [⟨["A", "B", "A"]⟩] ∧
      mutualTypes.references.IsCanonical ⟨["A", "B", "A"]⟩ := by
  have cycles : mutualTypes.references.cycles = [⟨["A", "B", "A"]⟩] := by cbv
  have found : (⟨["A", "B", "A"]⟩ : Cycle) ∈ mutualTypes.references.cycles := by
    rw [cycles]
    exact List.mem_singleton_self _
  exact ⟨cycles, (mutualTypes.cycles_sound.1 _ found).1⟩

end SchemaHealth
