import SchemaHealth.Graph.References
import SchemaHealth.Proofs.Graph.Building
import SchemaHealth.Proofs.Graph.Components
import SchemaHealth.Proofs.Graph.FieldTable

/-!
# What the graph of references holds

`Document.references` is built by adding nodes and edges one after the other. This module says what
is in it in terms of the document alone.

* `Document.mem_nodes_references`: its nodes are the names of the object types.
* `Document.edge_references`: its edges are the pairs of which the first name refers to the second,
  `Document.RefersTo`.
* `Document.nodes_references`, `Document.targets_references`: names and targets are listed in order
  of first occurrence. So the graph depends on the order of the types and on the declarations of
  each type, and not on the definitions between which these are divided
  (`Document.references_congr`).
* `Document.commaFree_references`: no name in it contains a comma.
-/

namespace SchemaHealth

variable {g : Graph} {d : Document} {a b : String}

/-! ## The references of one definition -/

/-- A type depends on its base type, if that is no built-in scalar. -/
theorem TypeRef.dependency?_eq_some_iff {t : TypeRef} {name : Name} :
    t.dependency? = some name ↔ t.base = name ∧ name.text ∉ builtinScalars := by
  rw [dependency?, isBuiltinScalar]
  by_cases leaf : t.base.text ∈ builtinScalars
  · rw [if_pos (decide_eq_true leaf)]
    refine iff_of_false (by simp) ?_
    rintro ⟨rfl, noLeaf⟩
    exact noLeaf leaf
  · rw [if_neg (by simpa using leaf), Option.some_inj]
    refine (and_iff_left_of_imp ?_).symm
    rintro rfl
    exact leaf

theorem mem_nodes_addReferences {t : TypeDefinition} :
    a ∈ (addReferences g t).nodes ↔ a ∈ g.nodes ∨ a = t.name.text := by
  have isNode : t.name.text ∈ (g.addNode t.name.text).nodes :=
    Graph.mem_nodes_addNode.2 (.inr rfl)
  rw [addReferences, Graph.nodes_foldl_addEdge isNode, Graph.mem_nodes_addNode]

/-- A definition adds the edges from its type to the base types of its fields. -/
theorem edge_addReferences {t : TypeDefinition} :
    (addReferences g t).Edge a b ↔ g.Edge a b ∨ a = t.name.text ∧
      ∃ f ∈ t.fields, b = f.type.base.text ∧ b ∉ builtinScalars := by
  rw [addReferences, Graph.edge_foldl_addEdge, Graph.edge_addNode]
  refine or_congr_right (and_congr_right fun _ => ⟨?_, ?_⟩)
  · rintro ⟨target, mem, rfl⟩
    obtain ⟨f, field, depends⟩ := List.mem_filterMap.1 mem
    obtain ⟨rfl, noLeaf⟩ := TypeRef.dependency?_eq_some_iff.1 depends
    exact ⟨f, field, rfl, noLeaf⟩
  · rintro ⟨f, field, rfl, noLeaf⟩
    have depends := TypeRef.dependency?_eq_some_iff.2 ⟨rfl, noLeaf⟩
    exact ⟨f.type.base, List.mem_filterMap.2 ⟨f, field, depends⟩, rfl⟩

theorem nodes_addReferences {t : TypeDefinition} :
    (addReferences g t).nodes = insertLast g.nodes t.name.text := by
  have isNode : t.name.text ∈ (g.addNode t.name.text).nodes :=
    Graph.mem_nodes_addNode.2 (.inr rfl)
  rw [addReferences, Graph.nodes_foldl_addEdge isNode, Graph.nodes_addNode]

theorem targets_addReferences {t : TypeDefinition} {type : Name} :
    (addReferences g t).targets type.text
      = if t.name = type then
          ((t.fields.filterMap fun f => f.type.dependency?).map Name.text).foldl insertLast
            (g.targets type.text)
        else g.targets type.text := by
  rw [addReferences, Graph.targets_foldl_addEdge, Graph.targets_addNode]
  have sameName : type.text = t.name.text ↔ t.name = type :=
    ⟨fun same => (Name.ext same).symm, fun same => congrArg Name.text same.symm⟩
  simp only [sameName]

/-! ## The references of a document -/

namespace Document

/-- An object type has a field of which a type is the base type; built-in scalars do not count. -/
def RefersTo (d : Document) (source target : Name) : Prop :=
  ∃ t ∈ d.objects, t.name = source ∧
    ∃ f ∈ t.fields, f.type.base = target ∧ target.text ∉ builtinScalars

/-- A type refers to another one by any declaration of it. -/
theorem refersTo_iff {source target : Name} : d.RefersTo source target
    ↔ ∃ f ∈ d.declarations source, f.type.base = target ∧ target.text ∉ builtinScalars := by
  simp only [RefersTo, declarations, List.mem_flatMap, List.mem_filter, decide_eq_true_eq]
  constructor
  · rintro ⟨t, mem, named, f, field, refers⟩
    exact ⟨f, ⟨t, ⟨mem, named⟩, field⟩, refers⟩
  · rintro ⟨f, ⟨t, ⟨mem, named⟩, field⟩, refers⟩
    exact ⟨t, mem, named, f, field, refers⟩

theorem mem_nodes_foldl_addReferences {types : List TypeDefinition} :
    a ∈ (types.foldl addReferences g).nodes ↔ a ∈ g.nodes ∨ ∃ t ∈ types, t.name.text = a := by
  induction types generalizing g with
  | nil => simp
  | cons first types ih =>
      rw [List.foldl_cons, ih, mem_nodes_addReferences, or_assoc, eq_comm (a := a)]
      simp only [List.mem_cons, exists_eq_or_imp]

/-- All definitions together add the edges of each of them. -/
theorem edge_foldl_addReferences {types : List TypeDefinition} :
    (types.foldl addReferences g).Edge a b ↔ g.Edge a b ∨ ∃ t ∈ types, a = t.name.text ∧
      ∃ f ∈ t.fields, b = f.type.base.text ∧ b ∉ builtinScalars := by
  induction types generalizing g with
  | nil => simp
  | cons first types ih =>
      rw [List.foldl_cons, ih, edge_addReferences, or_assoc]
      simp only [List.mem_cons, exists_eq_or_imp]

theorem nodes_foldl_addReferences {types : List TypeDefinition} :
    (types.foldl addReferences g).nodes
      = ((types.map (·.name)).map Name.text).foldl insertLast g.nodes := by
  induction types generalizing g with
  | nil => rfl
  | cons first types ih =>
      rw [List.foldl_cons, ih, nodes_addReferences]
      rfl

theorem targets_foldl_addReferences {types : List TypeDefinition} {type : Name} :
    (types.foldl addReferences g).targets type.text
      = ((((types.filter fun t => t.name = type).flatMap (·.fields)).filterMap
          fun f => f.type.dependency?).map Name.text).foldl insertLast (g.targets type.text) := by
  induction types generalizing g with
  | nil => rfl
  | cons first types ih =>
      rw [List.foldl_cons, ih, targets_addReferences]
      by_cases same : first.name = type
      · simp [same]
      · simp [same]

/-- The nodes are the names of the object types that are defined or extended. -/
theorem mem_nodes_references : a ∈ d.references.nodes ↔ ∃ t ∈ d.objects, t.name.text = a := by
  rw [references, mem_nodes_foldl_addReferences]
  exact or_iff_right List.not_mem_nil

/-- The edges are the references. -/
theorem edge_references : d.references.Edge a b
    ↔ ∃ source target, d.RefersTo source target ∧ source.text = a ∧ target.text = b := by
  have nothing : ¬ Graph.empty.Edge a b := List.not_mem_nil
  rw [references, edge_foldl_addReferences, or_iff_right nothing]
  constructor
  · rintro ⟨t, mem, rfl, f, field, rfl, noLeaf⟩
    exact ⟨t.name, f.type.base, ⟨t, mem, rfl, f, field, rfl, noLeaf⟩, rfl, rfl⟩
  · rintro ⟨_, _, ⟨t, mem, rfl, f, field, rfl, noLeaf⟩, rfl, rfl⟩
    exact ⟨t, mem, rfl, f, field, rfl, noLeaf⟩

/-- The nodes are the names of the object types in order of their first definition. -/
theorem nodes_references (d : Document) :
    d.references.nodes = (distinct (d.objects.map (·.name))).map Name.text := by
  have nodes : d.references.nodes = ((d.objects.map (·.name)).map Name.text).foldl insertLast [] :=
    nodes_foldl_addReferences
  rw [nodes, foldl_insertLast_nil, distinct_map fun _ _ same => Name.ext same]

/-- The targets are the base types of the declared fields, in order of their first occurrence. -/
theorem targets_references (d : Document) (type : Name) : d.references.targets type.text
    = (distinct ((d.declarations type).filterMap fun f => f.type.dependency?)).map Name.text := by
  have targets : d.references.targets type.text
      = (((d.declarations type).filterMap fun f => f.type.dependency?).map Name.text).foldl
          insertLast [] :=
    targets_foldl_addReferences
  rw [targets, foldl_insertLast_nil, distinct_map fun _ _ same => Name.ext same]

/-- Which definition of a type a field is declared in does not matter. -/
theorem references_congr {d' : Document}
    (types : distinct (d'.objects.map (·.name)) = distinct (d.objects.map (·.name)))
    (declarations : ∀ type, d'.declarations type = d.declarations type) :
    d'.references = d.references := by
  have nodes : d'.references.nodes = d.references.nodes := by
    rw [nodes_references, nodes_references, types]
  refine Graph.eq_of_targets nodes fun name => ?_
  by_cases isNode : name ∈ d.references.nodes
  · obtain ⟨t, _, rfl⟩ := mem_nodes_references.1 isNode
    rw [targets_references, targets_references, declarations]
  · rw [Graph.targets_of_not_mem isNode, Graph.targets_of_not_mem (nodes ▸ isNode)]

/-- No name of the graph contains a comma, since none of the document does. -/
theorem commaFree_references (d : Document) : d.references.CommaFree := by
  intro name mem
  rcases Graph.mem_names.1 mem with node | ⟨source, edge⟩
  · obtain ⟨t, _, rfl⟩ := mem_nodes_references.1 node
    exact t.name.comma_not_mem
  · obtain ⟨_, target, _, _, rfl⟩ := edge_references.1 edge
    exact target.comma_not_mem

end Document

end SchemaHealth
