import SchemaHealth.Proofs.Graph.Components
import SchemaHealth.Proofs.Text.ByteOrder
import Mathlib.Data.List.Permutation
import Mathlib.Data.List.Sort

/-!
# Which groups there are, and in which order

`Graph.IsGrouping` says of a list that it holds the groups of a graph in increasing order, in terms
of the edges alone.

* `isGrouping_components`: `Graph.components` is such a list.
* `IsGrouping.unique`: there is only one, so graphs with the same edges have the same groups.
* `isGrouping_sortedGroups`: sorting makes it out of the strongly connected parts, in whatever order
  these are found.
-/

namespace SchemaHealth.Graph

variable {g h : Graph} {a b : String} {ring names part group : List String}
  {parts groups : List (List String)}

/-! ## Names on a circuit -/

/-- Different names, each with an edge to the next one and the last with an edge to the first. -/
structure IsCircuit (g : Graph) (ring : List String) : Prop where
  nodup : ring.Nodup
  edge : ∀ e ∈ ringSteps ring, g.Edge e.1 e.2

/-- A name that is reached is reached by a way that passes no name twice. -/
theorem exists_nodup_way (reaches : g.Reaches a b) :
    ∃ rest, (a :: rest).Nodup ∧ (a :: rest).IsChain g.Edge ∧ rest.getLastD a = b := by
  induction reaches using Relation.ReflTransGen.head_induction_on with
  | refl => exact ⟨[], List.nodup_singleton b, List.isChain_singleton b, rfl⟩
  | @head a c edge _ ih =>
      obtain ⟨rest, nodup, chain, last⟩ := ih
      by_cases again : a ∈ c :: rest
      · -- the way comes back to its start, so what lies before is left out
        obtain ⟨before, behind, split⟩ := List.append_of_mem again
        rw [split] at nodup chain
        refine ⟨behind, nodup.of_append_right, chain.right_of_append, ?_⟩
        rw [← List.getLastD_cons (a := c), split] at last
        simpa [List.getLastD_eq_getLast?, List.getLast?_cons] using last
      · have chain' := List.isChain_cons_cons.2 ⟨edge, chain⟩
        exact ⟨c :: rest, List.nodup_cons.2 ⟨again, nodup⟩, chain', List.getLastD_cons.trans last⟩

/-- A name lies on a circuit just when it reaches itself in one or more steps. -/
theorem exists_circuit_iff : (∃ ring, g.IsCircuit ring ∧ a ∈ ring) ↔ g.ReachesAhead a a := by
  constructor
  · rintro ⟨ring, circuit, mem⟩
    exact reachesAhead_of_mem_ring circuit.edge mem mem
  · intro ahead
    obtain ⟨c, way, edge⟩ := Relation.TransGen.tail'_iff.1 ahead
    obtain ⟨rest, nodup, chain, last⟩ := exists_nodup_way way
    refine ⟨a :: rest, ⟨nodup, fun e step => ?_⟩, List.mem_cons_self⟩
    rw [ringSteps_cons] at step
    rcases List.mem_append.1 step with along | closing
    · exact isChain_iff_steps.1 chain e along
    · rw [List.mem_singleton.1 closing]
      show g.Edge (rest.getLastD a) a
      rwa [last]

/-! ## Lists of groups -/

/-- Groups of the names of a graph in the order of their bytes: two names share a group if each is
reached from the other in one or more steps, a name on a circuit is in just one, and all others are
in none. -/
structure IsGrouping (g : Graph) (groups : List (List String)) : Prop where
  ne_nil : ∀ group ∈ groups, group ≠ []
  shared_iff : ∀ a b, (∃ group ∈ groups, a ∈ group ∧ b ∈ group) ↔ g.Linked a b
  existsUnique : ∀ ring, g.IsCircuit ring → ∀ a ∈ ring, ∃! group, group ∈ groups ∧ a ∈ group
  exists_circuit : ∀ group ∈ groups, ∀ a ∈ group, ∃ ring, g.IsCircuit ring ∧ a ∈ ring
  increasing : ∀ group ∈ groups, group.Pairwise BytesLt
  ordered : groups.Pairwise (List.Lex BytesLt)

/-- Increasing lists of the same names are equal. -/
theorem eq_of_increasing {other : List String} (increasing : group.Pairwise BytesLt)
    (increasing' : other.Pairwise BytesLt) (same : ∀ name, name ∈ group ↔ name ∈ other) :
    group = other := by
  have sorted := increasing.imp fun before => bytesLt_iff.1 before
  have sorted' := increasing'.imp fun before => bytesLt_iff.1 before
  exact sorted.eq_of_mem_iff sorted' same

namespace IsGrouping

/-- It is enough that the groups are classes of linked names and that none is missing. -/
theorem of_mem_iff (ne_nil : ∀ group ∈ groups, group ≠ [])
    (mem_iff : ∀ group ∈ groups, ∀ a ∈ group, ∀ b, b ∈ group ↔ g.Linked a b)
    (exists_group : ∀ a, g.ReachesAhead a a → ∃ group ∈ groups, a ∈ group)
    (increasing : ∀ group ∈ groups, group.Pairwise BytesLt)
    (ordered : groups.Pairwise (List.Lex BytesLt)) : g.IsGrouping groups := by
  refine ⟨ne_nil, fun a b => ⟨?_, fun linked => ?_⟩, fun ring circuit a onRing => ?_,
    fun group mem a member => ?_, increasing, ordered⟩
  · rintro ⟨group, mem, left, right⟩
    exact (mem_iff group mem a left b).1 right
  · obtain ⟨group, mem, left⟩ := exists_group a (linked.1.trans linked.2)
    exact ⟨group, mem, left, (mem_iff group mem a left b).2 linked⟩
  · obtain ⟨group, mem, member⟩ := exists_group a (exists_circuit_iff.1 ⟨ring, circuit, onRing⟩)
    refine ⟨group, ⟨mem, member⟩, ?_⟩
    rintro other ⟨mem', member'⟩
    exact eq_of_increasing (increasing other mem') (increasing group mem) fun b =>
      (mem_iff other mem' a member' b).trans (mem_iff group mem a member b).symm
  · have self := (mem_iff group mem a member a).1 member
    exact exists_circuit_iff.2 (linked_self_iff.1 self)

/-- The names of a group are those linked to any one of them. -/
theorem mem_iff (grouping : g.IsGrouping groups) (mem : group ∈ groups) (member : a ∈ group) :
    b ∈ group ↔ g.Linked a b := by
  constructor
  · intro member'
    exact (grouping.shared_iff a b).1 ⟨group, mem, member, member'⟩
  · intro linked
    obtain ⟨group', mem', left, right⟩ := (grouping.shared_iff a b).2 linked
    obtain ⟨ring, circuit, onRing⟩ := grouping.exists_circuit group mem a member
    have same := (grouping.existsUnique ring circuit a onRing).unique ⟨mem, member⟩ ⟨mem', left⟩
    rwa [same]

/-- A name alone in its group has an edge to itself. -/
theorem edge_self (grouping : g.IsGrouping groups) (mem : [a] ∈ groups) : g.Edge a a := by
  have single := fun b => grouping.mem_iff (b := b) mem List.mem_cons_self
  have self : g.Linked a a := (single a).1 List.mem_cons_self
  obtain ⟨b, ⟨edge, _, linked⟩, _⟩ := Relation.TransGen.head'_iff.1 self.way
  have alone : b = a := List.mem_singleton.1 ((single b).2 linked)
  rwa [alone] at edge

/-- Two groupings of one graph have the same groups. -/
theorem mem_of_mem {others : List (List String)} (grouping : g.IsGrouping groups)
    (grouping' : g.IsGrouping others) (mem : group ∈ groups) : group ∈ others := by
  obtain ⟨a, member⟩ := List.exists_mem_of_ne_nil group (grouping.ne_nil group mem)
  obtain ⟨ring, circuit, onRing⟩ := grouping.exists_circuit group mem a member
  obtain ⟨other, mem', member'⟩ := (grouping'.existsUnique ring circuit a onRing).exists
  have same : group = other := eq_of_increasing (grouping.increasing group mem)
    (grouping'.increasing other mem') fun b =>
      (grouping.mem_iff mem member).trans (grouping'.mem_iff mem' member').symm
  rwa [same]

/-- There is only one list of the groups in order. -/
theorem unique {others : List (List String)} (grouping : g.IsGrouping groups)
    (grouping' : g.IsGrouping others) : groups = others := by
  have sorted := grouping.ordered.imp fun before => lex_bytesLt_iff.1 before
  have sorted' := grouping'.ordered.imp fun before => lex_bytesLt_iff.1 before
  exact sorted.eq_of_mem_iff sorted' fun group =>
    ⟨grouping.mem_of_mem grouping', grouping'.mem_of_mem grouping⟩

end IsGrouping

/-! ## The groups of a graph -/

theorem increasing_of_mem_groups (sorted : names.Pairwise (· < ·))
    (mem : group ∈ Graph.groups (names.map g.rowAhead)) : group.Pairwise (· < ·) := by
  induction names using groups_induction (g := g) with
  | nil => simp [Graph.groups] at mem
  | cons first names ih =>
      obtain ⟨least, sorted⟩ := List.pairwise_cons.1 sorted
      rw [groups_map_rowAhead] at mem
      rcases List.mem_cons.1 mem with rfl | later
      · refine List.pairwise_cons.2 ⟨fun name member => ?_, sorted.filter _⟩
        exact least name (mem_beside.1 member).1
      · exact ih (sorted.filter _) later

theorem pairwise_groups (sorted : names.Pairwise (· < ·)) :
    (Graph.groups (names.map g.rowAhead)).Pairwise (· < ·) := by
  induction names using groups_induction (g := g) with
  | nil => simp [Graph.groups]
  | cons first names ih =>
      obtain ⟨least, sorted⟩ := List.pairwise_cons.1 sorted
      rw [groups_map_rowAhead]
      refine List.pairwise_cons.2 ⟨fun group mem => ?_, ih (sorted.filter _)⟩
      cases group with
      | nil => exact absurd rfl (group_ne_nil mem)
      | cons head rest =>
          -- the first member of a later group is one of the names that are left
          have member : head ∈ g.apart first names :=
            (g.flatten_groups_perm _).mem_iff.1 (List.mem_flatten_of_mem mem List.mem_cons_self)
          exact List.Lex.rel (least head (mem_apart.1 member).1)

/-- The components of a graph are its grouping. -/
theorem isGrouping_components (g : Graph) : g.IsGrouping g.components := by
  have sorted : (g.names.filter fun name => name ∈ g.ahead name).Pairwise (· < ·) :=
    (Dictionary.pairwise_keys _).filter _
  apply IsGrouping.of_mem_iff
  · exact fun group mem => component_ne_nil mem
  · exact fun group mem a member b => mem_component_iff mem member
  · exact fun a self => exists_component self
  · intro group mem
    rw [components_eq] at mem
    exact (increasing_of_mem_groups sorted mem).imp fun before => bytesLt_iff.2 before
  · rw [components_eq]
    exact (pairwise_groups sorted).imp fun before => lex_bytesLt_iff.2 before

/-! ## Groups from the strongly connected parts -/

/-- The strongly connected parts of a graph, in any order: every name is in one of them, once, with
the names that it reaches and that reach it. -/
structure IsPartition (g : Graph) (parts : List (List String)) : Prop where
  perm : parts.flatten.Perm g.names
  ne_nil : ∀ part ∈ parts, part ≠ []
  mem_iff : ∀ part ∈ parts, ∀ a ∈ part, ∀ b, b ∈ part ↔ g.Reaches a b ∧ g.Reaches b a

/-- Whether a part has several names, or a single one with an edge to itself. -/
def isTangled (g : Graph) (part : List String) : Bool :=
  1 < part.length || part.head?.any fun name => g.hasEdge name name

/-- A list in increasing order. -/
def sorted {α : Type} [LT α] [DecidableLT α] (l : List α) : List α :=
  l.mergeSort fun a b => !decide (b < a)

/-- Groups in increasing order, and each of them increasing. -/
def sortedGroups (groups : List (List String)) : List (List String) := sorted (groups.map sorted)

/-- Sorting only changes the order. -/
theorem sorted_perm {α : Type} [LT α] [DecidableLT α] (l : List α) : (sorted l).Perm l :=
  List.mergeSort_perm l _

theorem pairwise_sorted {α : Type} [LinearOrder α] [DecidableLT α] {l : List α} (nodup : l.Nodup) :
    (sorted l).Pairwise (· < ·) := by
  have inOrder : (sorted l).Pairwise fun a b => (!decide (b < a)) = true := by
    refine List.pairwise_mergeSort (fun a b c => ?_) (fun a b => ?_) l
    · simpa using le_trans
    · simpa using le_total a b
  have distinct : (sorted l).Nodup := (sorted_perm l).nodup_iff.2 nodup
  exact (inOrder.and distinct).imp fun both => lt_of_le_of_ne (by simpa using both.1) both.2

theorem mem_sortedGroups : group ∈ sortedGroups groups ↔ ∃ part ∈ groups, sorted part = group := by
  rw [sortedGroups, (sorted_perm _).mem_iff, List.mem_map]

namespace IsPartition

theorem nodup (partition : g.IsPartition parts) (mem : part ∈ parts) : part.Nodup :=
  (List.nodup_flatten.1 (partition.perm.nodup_iff.2 g.nodup_names)).1 part mem

/-- The parts of a partition share no name. -/
theorem pairwise_disjoint (partition : g.IsPartition parts) : parts.Pairwise List.Disjoint :=
  (List.nodup_flatten.1 (partition.perm.nodup_iff.2 g.nodup_names)).2

theorem reachesAhead (partition : g.IsPartition parts) (mem : part ∈ parts) (member : a ∈ part)
    (member' : b ∈ part) (different : a ≠ b) : g.ReachesAhead a b := by
  have way := ((partition.mem_iff part mem a member b).1 member').1
  rcases Relation.reflTransGen_iff_eq_or_transGen.1 way with same | ahead
  · exact absurd same.symm different
  · exact ahead

/-- The names of a tangled part are on circuits, and so are no others. -/
theorem isTangled_iff (partition : g.IsPartition parts) (mem : part ∈ parts) (member : a ∈ part) :
    g.isTangled part = true ↔ g.ReachesAhead a a := by
  cases part with
  | nil => cases member
  | cons first rest =>
      cases rest with
      | nil =>
          rw [List.mem_singleton.1 member]
          have tangled : g.isTangled [first] = true ↔ g.Edge first first := by
            simp [isTangled, hasEdge, Edge]
          rw [tangled]
          refine ⟨.single, fun ahead => ?_⟩
          obtain ⟨next, edge, back⟩ := Relation.TransGen.head'_iff.1 ahead
          have alone : next = first := by
            have bothWays : g.Reaches first next ∧ g.Reaches next first := ⟨.single edge, back⟩
            exact List.mem_singleton.1 ((partition.mem_iff _ mem first (by simp) next).2 bothWays)
          rwa [alone] at edge
      | cons second rest =>
          refine iff_of_true (by simp [isTangled]) ?_
          obtain ⟨b, member', different⟩ : ∃ b ∈ first :: second :: rest, a ≠ b := by
            have distinct : first ≠ second := by
              rintro rfl
              exact (List.nodup_cons.1 (partition.nodup mem)).1 List.mem_cons_self
            by_cases same : a = first
            · exact ⟨second, by simp, same ▸ distinct⟩
            · exact ⟨first, by simp, same⟩
          exact (partition.reachesAhead mem member member' different).trans
            (partition.reachesAhead mem member' member different.symm)

theorem mem_iff_linked (partition : g.IsPartition parts) (mem : part ∈ parts) (member : a ∈ part)
    (self : g.ReachesAhead a a) : b ∈ part ↔ g.Linked a b := by
  constructor
  · intro member'
    by_cases same : a = b
    · exact same ▸ linked_self_iff.2 self
    · exact ⟨partition.reachesAhead mem member member' same,
        partition.reachesAhead mem member' member (Ne.symm same)⟩
  · intro linked
    have bothWays := And.intro linked.1.to_reflTransGen linked.2.to_reflTransGen
    exact (partition.mem_iff part mem a member b).2 bothWays

/-- A name that reaches itself lies in a tangled part. -/
theorem exists_part (partition : g.IsPartition parts) (self : g.ReachesAhead a a) :
    ∃ part ∈ parts, g.isTangled part = true ∧ a ∈ part := by
  have mem := partition.perm.mem_iff.2 (mem_names_of_reachesAhead self)
  obtain ⟨part, mem, member⟩ := List.mem_flatten.1 mem
  exact ⟨part, mem, (partition.isTangled_iff mem member).2 self, member⟩

end IsPartition

/-- The tangled parts, sorted, are the groups. -/
theorem isGrouping_sortedGroups (partition : g.IsPartition parts) :
    g.IsGrouping (sortedGroups (parts.filter g.isTangled)) := by
  have tangled : ∀ part ∈ parts.filter g.isTangled, ∀ a ∈ part,
      part ∈ parts ∧ g.ReachesAhead a a := by
    intro part mem a member
    obtain ⟨isPart, tangled⟩ := List.mem_filter.1 mem
    exact ⟨isPart, (partition.isTangled_iff isPart member).1 tangled⟩
  have distinct : ((parts.filter g.isTangled).map sorted).Nodup := by
    refine List.pairwise_map.2 ((partition.pairwise_disjoint.filter _).imp_of_mem ?_)
    intro part other mem _ apart same
    obtain ⟨a, member⟩ := List.exists_mem_of_ne_nil part
      (partition.ne_nil part (List.mem_filter.1 mem).1)
    have member' := (sorted_perm part).mem_iff.2 member
    rw [same] at member'
    exact apart member ((sorted_perm other).mem_iff.1 member')
  apply IsGrouping.of_mem_iff
  · intro group mem none
    obtain ⟨part, isPart, rfl⟩ := mem_sortedGroups.1 mem
    have perm := sorted_perm part
    rw [none] at perm
    exact partition.ne_nil part (List.mem_filter.1 isPart).1 (List.nil_perm.1 perm)
  · intro group mem a member b
    obtain ⟨part, isPart, rfl⟩ := mem_sortedGroups.1 mem
    rw [(sorted_perm part).mem_iff] at member
    obtain ⟨isPart, self⟩ := tangled part isPart a member
    rw [(sorted_perm part).mem_iff]
    exact partition.mem_iff_linked isPart member self
  · intro a self
    obtain ⟨part, isPart, tangled, member⟩ := partition.exists_part self
    exact ⟨sorted part, mem_sortedGroups.2 ⟨part, List.mem_filter.2 ⟨isPart, tangled⟩, rfl⟩,
      (sorted_perm part).mem_iff.2 member⟩
  · intro group mem
    obtain ⟨part, isPart, rfl⟩ := mem_sortedGroups.1 mem
    have increasing := pairwise_sorted (partition.nodup (List.mem_filter.1 isPart).1)
    exact increasing.imp fun before => bytesLt_iff.2 before
  · have increasing := pairwise_sorted distinct
    exact increasing.imp fun before => lex_bytesLt_iff.2 before

/-! ## The groups depend on the edges alone -/

/-- A grouping depends on the edges alone. -/
theorem IsGrouping.congr (same : ∀ a b, h.Edge a b ↔ g.Edge a b)
    (grouping : h.IsGrouping groups) : g.IsGrouping groups := by
  have edges : h.Edge = g.Edge := edge_ext same
  have circuits : ∀ ring, h.IsCircuit ring ↔ g.IsCircuit ring := fun ring =>
    ⟨fun circuit => ⟨circuit.nodup, edges ▸ circuit.edge⟩,
      fun circuit => ⟨circuit.nodup, edges ▸ circuit.edge⟩⟩
  have linked : ∀ a b, h.Linked a b ↔ g.Linked a b := fun a b => by
    rw [Linked, ReachesAhead, edges, Linked]
  refine ⟨grouping.ne_nil, fun a b => (grouping.shared_iff a b).trans (linked a b), ?_, ?_,
    grouping.increasing, grouping.ordered⟩
  · exact fun ring circuit => grouping.existsUnique ring ((circuits ring).2 circuit)
  · intro group mem a member
    obtain ⟨ring, circuit, onRing⟩ := grouping.exists_circuit group mem a member
    exact ⟨ring, (circuits ring).1 circuit, onRing⟩

/-- Graphs with the same edges have the same components. -/
theorem components_congr (same : ∀ a b, h.Edge a b ↔ g.Edge a b) : h.components = g.components :=
  (h.isGrouping_components.congr same).unique g.isGrouping_components

/-- The components are the groups of mutually reachable names in the order of their bytes, and a
name alone in its group has an edge to itself. They are the same for graphs with the same edges, and
they are what is left of the strongly connected parts when these are sorted. -/
theorem components_canonical (g : Graph) :
    g.IsGrouping g.components ∧ (∀ a, [a] ∈ g.components → g.Edge a a) ∧
      (∀ h : Graph, (∀ a b, h.Edge a b ↔ g.Edge a b) → h.components = g.components) ∧
      ∀ parts, g.IsPartition parts → sortedGroups (parts.filter g.isTangled) = g.components := by
  have grouping := g.isGrouping_components
  refine ⟨grouping, fun a mem => grouping.edge_self mem, ?_, ?_⟩
  · intro h same
    exact (h.isGrouping_components.congr same).unique grouping
  · intro parts partition
    exact (isGrouping_sortedGroups partition).unique grouping

/-- Two names that refer to each other, with one before and one behind them, and a loop apart. -/
def tangle : Graph :=
  ((((empty.addEdge "D" "A").addEdge "B" "A").addEdge "A" "B").addEdge "C" "C").addEdge "A" "E"

/-- The same edges, added in the opposite order. -/
def tangleReversed : Graph :=
  ((((empty.addEdge "A" "E").addEdge "C" "C").addEdge "A" "B").addEdge "B" "A").addEdge "D" "A"

/-- The strongly connected parts of `tangle`. -/
def tangleParts : List (List String) := [["D"], ["E"], ["C"], ["B", "A"]]

theorem edge_tangleReversed : tangleReversed.Edge a b ↔ tangle.Edge a b := by
  have same : tangleReversed.edges.Perm tangle.edges := by decide
  rw [← mem_edges, ← mem_edges, same.mem_iff]

theorem isPartition_tangleParts : tangle.IsPartition tangleParts := by
  have reachA : tangle.reach "A" = ["A", "B", "E"] := by cbv
  have reachB : tangle.reach "B" = ["B", "A", "E"] := by cbv
  have reachC : tangle.reach "C" = ["C"] := by cbv
  have reachD : tangle.reach "D" = ["D", "A", "B", "E"] := by cbv
  have reachE : tangle.reach "E" = ["E"] := by cbv
  have inside : ∀ part ∈ tangleParts, ∀ a ∈ part, ∀ b ∈ part, b ∈ tangle.reach a := by
    simp [-mem_reach, tangleParts, reachA, reachB, reachC, reachD, reachE]
  have back : ∀ part ∈ tangleParts, ∀ a ∈ part, ∀ b ∈ tangle.reach a,
      a ∈ tangle.reach b → b ∈ part := by
    simp [-mem_reach, tangleParts, reachA, reachB, reachC, reachD, reachE]
  refine ⟨by decide, by decide, fun part mem a member b => ?_⟩
  rw [← mem_reach, ← mem_reach]
  exact ⟨fun member' => ⟨inside part mem a member b member', inside part mem b member' a member⟩,
    fun both => back part mem a member b both.1 both.2⟩

theorem components_canonical_tangle :
    tangle.components = [["A", "B"], ["C"]] ∧ tangle.Edge "C" "C" ∧
      (∀ a b, tangleReversed.Edge a b ↔ tangle.Edge a b) ∧
      tangleReversed.components = tangle.components ∧ tangle.IsPartition tangleParts ∧
      sortedGroups (tangleParts.filter tangle.isTangled) = tangle.components := by
  have components : tangle.components = [["A", "B"], ["C"]] := by cbv
  have alone : ["C"] ∈ tangle.components := by
    rw [components]
    decide
  obtain ⟨_, loop, sameEdges, parts⟩ := tangle.components_canonical
  exact ⟨components, loop "C" alone, fun _ _ => edge_tangleReversed,
    sameEdges tangleReversed fun _ _ => edge_tangleReversed, isPartition_tangleParts,
    parts tangleParts isPartition_tangleParts⟩

end SchemaHealth.Graph
