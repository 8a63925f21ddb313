import SchemaHealth.Proofs.Graph.FieldTable
import SchemaHealth.Proofs.Graph.Reachability
import SchemaHealth.Proofs.Graph.References

/-!
# What required reads mean

`Document.Requires` relates a field to the fields that cannot be read when it is null, in terms of
the declarations of a schema. `Document.requiredReads` is the graph of this relation.

* `Document.nodes_requiredReads`: the nodes are the declared fields, each once.
* `Document.edge_requiredReads`: the edges are the pairs that are related.
* `Document.targets_requiredReads`: the order in which the targets of a field are listed.
* `Document.reaches_requiredReads`: what is reached are the fields required in any number of steps.
-/

namespace SchemaHealth

/-- A field requires each field of its base type, as last declared, that is non-null in some
declaration; built-in scalars have no fields. -/
structure Document.Requires (d : Document) (a b : FieldId) : Prop where
  declared : ∃ f, LastNamed (d.declarations a.type) a.field f ∧ f.type.base = b.type
  notBuiltin : b.type.text ∉ builtinScalars
  promised : ∃ f ∈ d.declarations b.type, f.name = b.field ∧ f.type.isNonNull = true

namespace FieldTable

variable {table : FieldTable} {g : Graph} {fields : List (FieldId × FieldInfo)} {x y : String}

/-- Connecting fields adds the edges to what they read behind them. -/
theorem edge_foldl_connect : (fields.foldl table.connect g).Edge x y ↔ g.Edge x y ∨
    ∃ field ∈ fields, x = field.1.text ∧ ∃ target ∈ table.readsBehind field.2, y = target.text := by
  induction fields generalizing g with
  | nil => simp
  | cons field fields ih =>
      rw [List.foldl_cons, ih, connect, Graph.edge_foldl_addEdge, or_assoc]
      simp only [List.mem_cons, exists_eq_or_imp]

theorem targets_foldl_connect : (fields.foldl table.connect g).targets x
    = ((fields.filter fun field => field.1.text = x).flatMap fun field =>
        (table.readsBehind field.2).map FieldId.text).foldl insertLast (g.targets x) := by
  induction fields generalizing g with
  | nil => rfl
  | cons field fields ih =>
      rw [List.foldl_cons, ih, connect, Graph.targets_foldl_addEdge]
      by_cases same : field.1.text = x
      · simp [same]
      · simp [same, Ne.symm same]

theorem nodes_foldl_connect (areNodes : ∀ field ∈ fields, field.1.text ∈ g.nodes) :
    (fields.foldl table.connect g).nodes = g.nodes := by
  induction fields generalizing g with
  | nil => rfl
  | cons field fields ih =>
      have same : (table.connect g field).nodes = g.nodes :=
        Graph.nodes_foldl_addEdge (areNodes field List.mem_cons_self)
      have areNodes' : ∀ field' ∈ fields, field'.1.text ∈ (table.connect g field).nodes := by
        intro field' mem
        rw [same]
        exact areNodes field' (List.mem_cons_of_mem _ mem)
      rw [List.foldl_cons, ih areNodes', same]

end FieldTable

namespace Document

variable {d : Document} {a b : FieldId} {x y : String}

/-- The nodes are the declared fields in order of first declaration. -/
theorem nodes_requiredReads (d : Document) :
    d.requiredReads.nodes = (distinct d.declaredIds).map FieldId.text := by
  rw [requiredReads, FieldTable.nodes_foldl_connect, nodes_fieldTable]
  rintro ⟨id, info⟩ mem
  obtain ⟨f, isLast, _⟩ := mem_infos_fieldTable.1 mem
  have declared := mem_declaredIds.2 ⟨f, isLast.mem, isLast.name_eq⟩
  rw [nodes_fieldTable]
  exact List.mem_map_of_mem (mem_distinct.2 declared)

/-- Schemas that declare the same fields have the same nodes. -/
theorem nodes_requiredReads_perm {d' : Document}
    (declared : ∀ id, id ∈ d'.declaredIds ↔ id ∈ d.declaredIds) :
    d'.requiredReads.nodes.Perm d.requiredReads.nodes := by
  rw [nodes_requiredReads, nodes_requiredReads]
  refine List.Perm.map _ ((List.perm_ext_iff_of_nodup (nodup_distinct _) (nodup_distinct _)).2 ?_)
  intro id
  rw [mem_distinct, mem_distinct, declared]

/-- The edges are the pairs that are related. -/
theorem edge_requiredReads : d.requiredReads.Edge x y
    ↔ ∃ a b, d.Requires a b ∧ a.text = x ∧ b.text = y := by
  rw [requiredReads, FieldTable.edge_foldl_connect, or_iff_right not_edge_fieldTable]
  constructor
  · rintro ⟨⟨a, info⟩, listed, rfl, b, behind, rfl⟩
    obtain ⟨f, isLast, rfl⟩ := mem_infos_fieldTable.1 listed
    obtain ⟨depends, promised⟩ := mem_readsBehind_fieldTable.1 behind
    obtain ⟨base, noLeaf⟩ := TypeRef.dependency?_eq_some_iff.1 depends
    exact ⟨a, b, ⟨⟨f, isLast, base⟩, noLeaf, promised⟩, rfl, rfl⟩
  · rintro ⟨a, b, ⟨⟨f, isLast, base⟩, noLeaf, promised⟩, rfl, rfl⟩
    have depends := TypeRef.dependency?_eq_some_iff.2 ⟨base, noLeaf⟩
    exact ⟨(a, .ofType f.type), mem_infos_fieldTable.2 ⟨f, isLast, rfl⟩, rfl, b,
      mem_readsBehind_fieldTable.2 ⟨depends, promised⟩, rfl⟩

/-- The targets are the fields behind the last declaration of a field, in the order in which they
are promised. -/
theorem targets_requiredReads (d : Document) (a : FieldId) : d.requiredReads.targets a.text
    = (distinct
      ((valueAt? (TypeFields.ofFields (d.declarations a.type)).infos a.field).toList.flatMap
        d.fieldTable.readsBehind)).map FieldId.text := by
  have own : (d.fieldTable.infos.filter fun field => field.1.text = a.text)
      = ((valueAt? (TypeFields.ofFields (d.declarations a.type)).infos a.field).map
          fun info => (a, info)).toList := by
    have sameField : ∀ field ∈ d.fieldTable.infos,
        decide (field.1.text = a.text) = decide (field.1 = a) := fun field _ =>
      decide_eq_decide.2 ⟨fun same => FieldId.text_injective same, congrArg FieldId.text⟩
    have nodup := FieldTable.nodup_keys_infos d.nodup_keys_types d.nodup_infos_fieldsOf
    rw [List.filter_congr sameField, filter_key_eq nodup,
      FieldTable.valueAt?_infos d.nodup_keys_types d.nodup_infos_fieldsOf, fieldsOf_fieldTable]
  have nothing : d.fieldTable.graph.targets a.text = [] :=
    List.eq_nil_iff_forall_not_mem.2 fun _ => not_edge_fieldTable
  rw [requiredReads, FieldTable.targets_foldl_connect, own, nothing, foldl_insertLast_nil,
    ← distinct_map fun _ _ same => FieldId.text_injective same, List.map_flatMap]
  cases valueAt? (TypeFields.ofFields (d.declarations a.type)).infos a.field with
  | none => rfl
  | some info => rfl

/-- Which definition of a type a field is declared in does not matter. -/
theorem requiredReads_congr {d' : Document}
    (declarations : ∀ type, d'.declarations type = d.declarations type) :
    d'.requiredReads.nodes.Perm d.requiredReads.nodes ∧
      ∀ x, d'.requiredReads.targets x = d.requiredReads.targets x := by
  have nodes : d'.requiredReads.nodes.Perm d.requiredReads.nodes :=
    nodes_requiredReads_perm fun id => by rw [mem_declaredIds, mem_declaredIds, declarations]
  refine ⟨nodes, fun x => ?_⟩
  by_cases isNode : x ∈ d.requiredReads.nodes
  · rw [nodes_requiredReads] at isNode
    obtain ⟨a, _, rfl⟩ := List.mem_map.1 isNode
    have behind : d'.fieldTable.readsBehind = d.fieldTable.readsBehind := by
      funext info
      simp only [FieldTable.readsBehind_eq, fieldsOf_fieldTable, declarations]
    rw [targets_requiredReads, targets_requiredReads, declarations, behind]
  · rw [Graph.targets_of_not_mem isNode, Graph.targets_of_not_mem (mt nodes.mem_iff.1 isNode)]

/-- What is reached from a field are the fields that it requires in any number of steps. -/
theorem reaches_requiredReads : d.requiredReads.Reaches a.text y
    ↔ ∃ b, Relation.ReflTransGen d.Requires a b ∧ b.text = y := by
  constructor
  · intro reaches
    induction reaches with
    | refl => exact ⟨a, .refl, rfl⟩
    | tail _ edge ih =>
        obtain ⟨m, way, same⟩ := ih
        obtain ⟨m', b, requires, same', rfl⟩ := edge_requiredReads.1 edge
        cases FieldId.text_injective (same.trans same'.symm)
        exact ⟨b, way.tail requires, rfl⟩
  · rintro ⟨b, way, rfl⟩
    refine way.lift FieldId.text fun a b requires => ?_
    exact edge_requiredReads.2 ⟨a, b, requires, rfl, rfl⟩

end Document

end SchemaHealth
