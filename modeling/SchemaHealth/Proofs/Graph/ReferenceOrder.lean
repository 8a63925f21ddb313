import SchemaHealth.Proofs.Graph.References
import SchemaHealth.Proofs.Graph.Walks
import Mathlib.Data.Set.Card

/-!
# The references of a schema, exactly and in order

`Document.references` is built in one pass over the definitions, which may repeat a type, come back
to it after others, or declare nothing. `Document.references_exact` says what the result is without
any word on how it is built: what its nodes are and in which order, what the targets of every name
are and in which order, and how many edges there are.

The order of a list without repeats is said by `ListsOnce`: an element stands where it first occurs.
`Document.baseTypes` lists the base types of the fields of a type, in order and with repeats.
-/

namespace SchemaHealth

/-! ## Lists without repeats -/

/-- A list holds the elements of another one, each once, in order of first occurrence. -/
structure ListsOnce {α : Type} [DecidableEq α] (all once : List α) : Prop where
  nodup : once.Nodup
  mem_iff : ∀ a, a ∈ once ↔ a ∈ all
  inOrder : once.Pairwise fun a b => all.idxOf a < all.idxOf b

/-- Leaving out repetitions lists every item once. -/
theorem listsOnce_distinct {α : Type} [DecidableEq α] (all : List α) :
    ListsOnce all (distinct all) :=
  ⟨nodup_distinct all, fun _ => mem_distinct, pairwise_idxOf_distinct all⟩

namespace Document

variable {d : Document} {a b : String}

/-! ## Nodes -/

/-- The nodes list the names of the object types once each. -/
theorem listsOnce_nodes (d : Document) :
    ListsOnce (d.objects.map fun t => t.name.text) d.references.nodes := by
  have nodes : d.references.nodes = distinct (d.objects.map fun t => t.name.text) := by
    rw [nodes_references, ← distinct_map fun _ _ same => Name.ext same, List.map_map]
    rfl
  rw [nodes]
  exact listsOnce_distinct _

/-! ## Targets -/

/-- The base types of the fields of a type, over all its definitions and extensions in order. -/
def baseTypes (d : Document) (type : String) : List String :=
  (d.objects.filter fun t => t.name.text = type).flatMap fun t =>
    t.fields.map fun f => f.type.base.text

theorem text_dependencies (fields : List FieldDefinition) :
    (fields.filterMap fun f => f.type.dependency?).map Name.text
      = (fields.map fun f => f.type.base.text).filter fun base => base ∉ builtinScalars := by
  induction fields with
  | nil => rfl
  | cons f fields ih =>
      by_cases leaf : f.type.base.text ∈ builtinScalars
      · have none : f.type.dependency? = none := by
          rw [TypeRef.dependency?, isBuiltinScalar, if_pos (decide_eq_true leaf)]
        simp [none, leaf, ih]
      · have base : f.type.dependency? = some f.type.base :=
          TypeRef.dependency?_eq_some_iff.2 ⟨rfl, leaf⟩
        simp [base, leaf, ih]

theorem baseTypes_text (d : Document) (type : Name) :
    d.baseTypes type.text = (d.declarations type).map fun f => f.type.base.text := by
  have named : ∀ t : TypeDefinition, t.name.text = type.text ↔ t.name = type := fun t =>
    ⟨Name.ext, congrArg Name.text⟩
  simp only [baseTypes, declarations, List.map_flatMap, named]

/-- The targets of a type list the base types of its fields once each, without the built-in
scalars. -/
theorem listsOnce_targets (d : Document) (type : String) :
    ListsOnce ((d.baseTypes type).filter fun base => base ∉ builtinScalars)
      (d.references.targets type) := by
  by_cases isNode : type ∈ d.references.nodes
  · obtain ⟨t, _, rfl⟩ := mem_nodes_references.1 isNode
    rw [targets_references, ← distinct_map fun _ _ same => Name.ext same, text_dependencies,
      ← baseTypes_text]
    exact listsOnce_distinct _
  · have nothing : d.baseTypes type = [] := by
      refine List.flatMap_eq_nil_iff.2 fun t mem => ?_
      obtain ⟨object, named⟩ := List.mem_filter.1 mem
      exact absurd (mem_nodes_references.2 ⟨t, object, of_decide_eq_true named⟩) isNode
    rw [Graph.targets_of_not_mem isNode, nothing]
    exact listsOnce_distinct []

/-! ## Edges -/

/-- Some definition of an object type has a field with another type as its base type; built-in
scalars do not count. -/
def HasFieldOf (d : Document) (type base : String) : Prop :=
  ∃ t ∈ d.objects, t.name.text = type ∧
    ∃ f ∈ t.fields, f.type.base.text = base ∧ base ∉ builtinScalars

/-- There is an edge just where a type has a field of another one. -/
theorem edge_iff_hasFieldOf : d.references.Edge a b ↔ d.HasFieldOf a b := by
  rw [edge_references]
  constructor
  · rintro ⟨_, _, ⟨t, object, rfl, f, field, rfl, noLeaf⟩, rfl, rfl⟩
    exact ⟨t, object, rfl, f, field, rfl, noLeaf⟩
  · rintro ⟨t, object, rfl, f, field, rfl, noLeaf⟩
    exact ⟨t.name, f.type.base, ⟨t, object, rfl, f, field, rfl, noLeaf⟩, rfl, rfl⟩

/-- There are as many edges as pairs of types of which the first has a field of the second. -/
theorem length_edges_references (d : Document) :
    d.references.edges.length = {pair : String × String | d.HasFieldOf pair.1 pair.2}.ncard := by
  have same : {pair : String × String | d.HasFieldOf pair.1 pair.2}
      = (d.references.edges.toFinset : Set (String × String)) := by
    ext ⟨a, b⟩
    rw [Set.mem_ofPred_eq, List.coe_toFinset, Set.mem_ofPred_eq, Graph.mem_edges,
      edge_iff_hasFieldOf]
  rw [same, Set.ncard_coe_finset, List.toFinset_card_of_nodup d.references.nodup_edges]

/-- The nodes are the names of the object types, each once and in order of first definition. The
targets of a name are the base types of its fields but for built-in scalars, each once and in order
of first occurrence over all definitions and extensions of the type. There is an edge just where
some definition of the one type has a field of the other, and the edges are as many as there are
such pairs. -/
theorem references_exact (d : Document) :
    ListsOnce (d.objects.map fun t => t.name.text) d.references.nodes ∧
    (∀ type, ListsOnce ((d.baseTypes type).filter fun base => base ∉ builtinScalars)
      (d.references.targets type)) ∧
    (∀ a b, d.references.hasEdge a b = true ↔ d.HasFieldOf a b) ∧
    d.references.edges.length
      = {pair : String × String | d.HasFieldOf pair.1 pair.2}.ncard :=
  ⟨d.listsOnce_nodes, d.listsOnce_targets,
    fun _ _ => decide_eq_true_iff.trans edge_iff_hasFieldOf, d.length_edges_references⟩

end Document

end SchemaHealth
