import SchemaHealth.BlastRadius.Analysis
import SchemaHealth.Proofs.Graph.RequiredReads
import Mathlib.Data.List.Forall2

/-!
# What a null in a field affects

From the declarations of a schema to its blast radii: the analysis has one result for each declared
field, in order of first declaration, and the fields affected are those required in any number of
steps (`Document.blastAnalysis_measures`).
-/

namespace SchemaHealth

/-- Some fields are those of the object types of a schema, each once, in order of first
declaration. -/
structure Document.ListsFields (d : Document) (ids : List FieldId) : Prop where
  nodup : ids.Nodup
  mem_iff : ∀ id, id ∈ ids ↔ ∃ t ∈ d.objects, t.name = id.type ∧ ∃ f ∈ t.fields, f.name = id.field
  inOrder : ids.Pairwise fun a b => d.declaredIds.idxOf a < d.declaredIds.idxOf b

/-- A result measures a field: affected are the fields that it requires in any number of steps, each
once and the field itself first. -/
structure Document.Measures (d : Document) (id : FieldId) (r : BlastResult) : Prop where
  field : r.field = id.text
  nodup : r.affected.Nodup
  head : r.affected.head? = some id.text
  mem_iff : ∀ x, x ∈ r.affected ↔ ∃ b, Relation.ReflTransGen d.Requires id b ∧ b.text = x
  radius : r.radius = r.affected.length

namespace Document

/-- The declared fields, each once, are the fields that an analysis lists. -/
theorem listsFields_declaredIds (d : Document) : d.ListsFields (distinct d.declaredIds) := by
  refine ⟨nodup_distinct _, fun id => ?_, pairwise_idxOf_distinct _⟩
  rw [mem_distinct, declaredIds]
  simp only [List.mem_flatMap, List.mem_map]
  constructor
  · rintro ⟨t, mem, f, field, rfl⟩
    exact ⟨t, mem, rfl, f, field, rfl⟩
  · rintro ⟨t, mem, type, f, field, name⟩
    exact ⟨t, mem, f, field, by rw [type, name]⟩

theorem measures_measure (d : Document) (policy : BlastPolicy) (id : FieldId) :
    d.Measures id (BlastAnalysis.measure d.requiredReads policy id.text) where
  field := rfl
  nodup := d.requiredReads.nodup_reach id.text
  head := d.requiredReads.head?_reach id.text
  mem_iff _ := Graph.mem_reach.trans reaches_requiredReads
  radius := rfl

/-- The graph of required reads has the declared fields as its nodes and the pairs of which one
requires the other as its edges, and the analysis has one result for each node, in order, that
measures it. -/
theorem blastAnalysis_measures (d : Document) (policy : BlastPolicy) :
    ∃ ids, d.ListsFields ids ∧ d.requiredReads.nodes = ids.map FieldId.text ∧
      (∀ x y, d.requiredReads.Edge x y ↔ ∃ a b, d.Requires a b ∧ a.text = x ∧ b.text = y) ∧
      List.Forall₂ d.Measures ids (d.blastAnalysis policy).results := by
  refine ⟨distinct d.declaredIds, d.listsFields_declaredIds, d.nodes_requiredReads,
    fun x y => edge_requiredReads, ?_⟩
  have results : (d.blastAnalysis policy).results = (distinct d.declaredIds).map fun id =>
      BlastAnalysis.measure d.requiredReads policy id.text := by
    rw [blastAnalysis, BlastAnalysis.ofGraph, nodes_requiredReads, List.map_map]
    rfl
  rw [results, List.forall₂_map_right_iff, List.forall₂_same]
  exact fun id _ => d.measures_measure policy id

end Document

end SchemaHealth
