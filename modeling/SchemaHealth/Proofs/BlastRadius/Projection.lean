import SchemaHealth.Proofs.BlastRadius.Affected
import SchemaHealth.Proofs.Cycle.Completeness
import SchemaHealth.Proofs.Graph.References
import Mathlib.Data.Finset.Card

/-!
# Required reads follow references

A field requires fields of its base type only. So a required read follows a reference between the
two types, and what a field affects belongs to types that its own type reaches
(`Document.requiredReads_project`).

Where no type refers back to itself, no field requires itself either. Then less is affected with
every step: the fields behind a field are fewer than its own (`Graph.Acyclic.reach_ssubset`).
-/

namespace SchemaHealth

/-! ## Reaching in graphs without cycles -/

namespace Graph

variable {g : Graph} {x y : String}

/-- What is reached from a name that is reached is reached. -/
theorem reach_subset_of_mem (mem : y ∈ g.reach x) : g.reach y ⊆ g.reach x := by
  intro z mem'
  rw [mem_reach] at mem mem' ⊢
  exact mem.trans mem'

/-- Without cycles no name is reached back. -/
theorem Acyclic.not_mem_reach (acyclic : g.Acyclic) (mem : y ∈ g.reach x) (other : y ≠ x) :
    x ∉ g.reach y := by
  intro back
  rw [mem_reach] at mem back
  rcases Relation.reflTransGen_iff_eq_or_transGen.1 mem with same | ahead
  · exact other same
  · exact acyclic x (ahead.trans_left back)

/-- From a name ahead fewer names are reached. -/
theorem Acyclic.reach_ssubset (acyclic : g.Acyclic) (mem : y ∈ g.reach x) (other : y ≠ x) :
    (g.reach y).toFinset ⊂ (g.reach x).toFinset := by
  have included : (g.reach y).toFinset ⊆ (g.reach x).toFinset := fun z mem' =>
    List.mem_toFinset.2 (reach_subset_of_mem mem (List.mem_toFinset.1 mem'))
  have start : x ∈ g.reach x := mem_reach.2 .refl
  refine (Finset.ssubset_iff_of_subset included).2 ⟨x, List.mem_toFinset.2 start, ?_⟩
  rw [List.mem_toFinset]
  exact acyclic.not_mem_reach mem other

/-- Without cycles a name reaches more than any other name that it reaches. -/
theorem Acyclic.length_reach_lt (acyclic : g.Acyclic) (mem : y ∈ g.reach x) (other : y ≠ x) :
    (g.reach y).length < (g.reach x).length := by
  have fewer := Finset.card_lt_card (acyclic.reach_ssubset mem other)
  rwa [List.toFinset_card_of_nodup (g.nodup_reach y),
    List.toFinset_card_of_nodup (g.nodup_reach x)] at fewer

end Graph

/-! ## From fields to their types -/

namespace Document

variable {d : Document} {a b : FieldId} {x y : String}

/-- A field that requires another one makes its type refer to the type of that one. -/
theorem Requires.refersTo (requires : d.Requires a b) : d.RefersTo a.type b.type := by
  obtain ⟨f, isLast, base⟩ := requires.declared
  exact refersTo_iff.2 ⟨f, isLast.mem, base, requires.notBuiltin⟩

theorem Requires.edge_references (requires : d.Requires a b) :
    d.references.Edge a.type.text b.type.text :=
  Document.edge_references.2 ⟨a.type, b.type, requires.refersTo, rfl, rfl⟩

/-- A way of required reads gives a way of references between the types. -/
theorem reaches_references (way : Relation.ReflTransGen d.Requires a b) :
    d.references.Reaches a.type.text b.type.text :=
  way.lift (fun id : FieldId => id.type.text) fun _ _ requires => requires.edge_references

/-- A field that requires itself has a type that refers back to itself. -/
theorem acyclic_requiredReads (acyclic : d.references.Acyclic) : d.requiredReads.Acyclic := by
  intro x ahead
  obtain ⟨y, edge, back⟩ := Relation.TransGen.head'_iff.1 ahead
  obtain ⟨a, b, requires, rfl, rfl⟩ := edge_requiredReads.1 edge
  obtain ⟨a', way, same⟩ := reaches_requiredReads.1 back
  cases FieldId.text_injective same
  exact acyclic a.type.text (.head' requires.edge_references (reaches_references way))

theorem Requires.mem_nodes (requires : d.Requires a b) : b.text ∈ d.requiredReads.nodes := by
  obtain ⟨f, mem, named, _⟩ := requires.promised
  rw [nodes_requiredReads]
  exact List.mem_map_of_mem (mem_distinct.2 (mem_declaredIds.2 ⟨f, mem, named⟩))

/-- What a field affects are fields. -/
theorem mem_nodes_of_mem_reach (isNode : x ∈ d.requiredReads.nodes)
    (mem : y ∈ d.requiredReads.reach x) : y ∈ d.requiredReads.nodes := by
  rw [Graph.mem_reach] at mem
  cases mem with
  | refl => exact isNode
  | tail _ edge =>
      obtain ⟨a, b, requires, _, rfl⟩ := edge_requiredReads.1 edge
      exact requires.mem_nodes

/-- A required read goes along a reference of its type, and what a field affects belongs to types
that its type reaches. If no cycle of references is found, no field requires itself in any number of
steps, and every other field that one affects has a smaller affected set and a smaller radius. -/
theorem requiredReads_project (d : Document) :
    (∀ x y, d.requiredReads.Edge x y → ∃ a b : FieldId,
      a.text = x ∧ b.text = y ∧ d.references.Edge a.type.text b.type.text) ∧
    (∀ policy, ∀ r ∈ (d.blastAnalysis policy).results, ∃ a : FieldId, a.text = r.field ∧
      ∀ y ∈ r.affected, (∃ r' ∈ (d.blastAnalysis policy).results, r'.field = y) ∧
        ∃ b : FieldId, b.text = y ∧ b.type.text ∈ d.references.reach a.type.text) ∧
    (d.references.cycles = [] → d.requiredReads.Acyclic ∧
      ∀ policy, ∀ r ∈ (d.blastAnalysis policy).results,
        ∀ r' ∈ (d.blastAnalysis policy).results, r'.field ∈ r.affected → r'.field ≠ r.field →
          r'.affected.toFinset ⊂ r.affected.toFinset ∧ r'.radius < r.radius) := by
  refine ⟨fun x y edge => ?_, fun policy r mem => ?_, fun none => ?_⟩
  · obtain ⟨a, b, requires, rfl, rfl⟩ := edge_requiredReads.1 edge
    exact ⟨a, b, rfl, rfl, requires.edge_references⟩
  · obtain ⟨x, node, rfl⟩ := List.mem_map.1 mem
    have declared := node
    rw [nodes_requiredReads] at declared
    obtain ⟨a, _, rfl⟩ := List.mem_map.1 declared
    refine ⟨a, rfl, fun y affected => ⟨?_, ?_⟩⟩
    · exact ⟨_, List.mem_map_of_mem (mem_nodes_of_mem_reach node affected), rfl⟩
    · obtain ⟨b, way, rfl⟩ := reaches_requiredReads.1 (Graph.mem_reach.1 affected)
      exact ⟨b, rfl, Graph.mem_reach.2 (reaches_references way)⟩
  · have acyclic : d.requiredReads.Acyclic :=
      acyclic_requiredReads ((Graph.cycles_eq_nil_iff_acyclic d.commaFree_references).1 none)
    refine ⟨acyclic, fun policy r mem r' mem' affected other => ?_⟩
    obtain ⟨x, _, rfl⟩ := List.mem_map.1 mem
    obtain ⟨y, _, rfl⟩ := List.mem_map.1 mem'
    exact ⟨acyclic.reach_ssubset affected other, acyclic.length_reach_lt affected other⟩

end Document

/-- Orders with a number and a person, to whom an extension gives a street. -/
def orders : Document where
  types :=
    [ { name := ⟨"R", by decide⟩
        body := .object
          [⟨⟨"o", by decide⟩, .list (.nonNull (.named ⟨"O", by decide⟩)), [], .start⟩]
        isExtension := false
        directives := []
        position := .start },
      { name := ⟨"O", by decide⟩
        body := .object
          [⟨⟨"n", by decide⟩, .nonNull (.named ⟨"Int", by decide⟩), [], .start⟩,
            ⟨⟨"p", by decide⟩, .nonNull (.named ⟨"P", by decide⟩), [], .start⟩]
        isExtension := false
        directives := []
        position := .start },
      { name := ⟨"P", by decide⟩
        body := .object
          [⟨⟨"s", by decide⟩, .nonNull (.named ⟨"String", by decide⟩), [], .start⟩]
        isExtension := true
        directives := []
        position := .start } ]

theorem requiredReads_project_orders :
    let measured := BlastAnalysis.measure orders.requiredReads .standard
    orders.references.cycles = [] ∧ orders.requiredReads.Acyclic ∧
      (measured "R.o").affected = ["R.o", "O.n", "O.p", "P.s"] ∧
      (measured "O.p").affected.toFinset ⊂ (measured "R.o").affected.toFinset ∧
      (measured "O.p").radius < (measured "R.o").radius := by
  intro measured
  have none : orders.references.cycles = [] := by cbv
  have rows : orders.requiredReads.rows
      = [("R.o", ["O.n", "O.p"]), ("O.n", []), ("O.p", ["P.s"]), ("P.s", [])] := by cbv
  have nodes : orders.requiredReads.nodes = ["R.o", "O.n", "O.p", "P.s"] := by
    rw [Graph.nodes, rows]
    rfl
  have affected : orders.requiredReads.reach "R.o" = ["R.o", "O.n", "O.p", "P.s"] := by
    simp [Graph.reach, Graph.reachFrom, Graph.walk, Visited.contains_eq_decide,
      Graph.Table.targets_eq_targets, Graph.targets, Graph.targets?, Graph.listed?, rows]
  have result : ∀ x ∈ orders.requiredReads.nodes,
      measured x ∈ (orders.blastAnalysis .standard).results := fun x node =>
    List.mem_map_of_mem node
  have behind : "O.p" ∈ (measured "R.o").affected := by
    show "O.p" ∈ orders.requiredReads.reach "R.o"
    rw [affected]
    decide
  obtain ⟨acyclic, smaller⟩ := (orders.requiredReads_project).2.2 none
  refine ⟨none, acyclic, affected, ?_⟩
  refine smaller .standard _ (result "R.o" ?_) _ (result "O.p" ?_) behind (by decide)
  · rw [nodes]
    decide
  · rw [nodes]
    decide

end SchemaHealth
