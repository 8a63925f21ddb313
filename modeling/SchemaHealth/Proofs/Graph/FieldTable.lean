import SchemaHealth.Graph.RequiredReads
import SchemaHealth.Proofs.OrderedEntries
import SchemaHealth.Proofs.Graph.Building
import Mathlib.Data.List.Induction
import Mathlib.Data.List.Nodup

/-!
# What is collected of the fields of a schema

`Document.fieldTable` goes through the definitions of object types once. This module says what it
has collected at the end.

* `Document.fieldsOf_fieldTable`: what is known of a type is what its own declarations say.
* `TypeFields.valueAt?_infos_ofFields`, `TypeFields.mem_promised_ofFields`: the last declaration of
  a field decides its shape, any declaration can promise it.
* `Document.mem_infos_fieldTable`: the fields that are listed, each with its last shape.
* `Document.nodes_fieldTable`: the nodes are the declared fields in order of first declaration.
-/

namespace SchemaHealth

/-! ## The declarations of one type -/

/-- A declaration is the last one of some with its name. -/
def LastNamed (fs : List FieldDefinition) (name : Name) (f : FieldDefinition) : Prop :=
  ∃ before after, fs = before ++ f :: after ∧ f.name = name ∧ ∀ later ∈ after, later.name ≠ name

variable {fs : List FieldDefinition} {f first last : FieldDefinition} {name : Name}
  {info : FieldInfo}

theorem not_lastNamed_nil : ¬ LastNamed [] name f := by
  rintro ⟨before, after, eq, _⟩
  cases before with
  | nil => cases eq
  | cons first before => cases eq

/-- A declaration at the end is the last one of its name and changes nothing for the others. -/
theorem lastNamed_concat : LastNamed (fs ++ [last]) name f
    ↔ last.name = name ∧ f = last ∨ last.name ≠ name ∧ LastNamed fs name f := by
  constructor
  · rintro ⟨before, after, eq, named, others⟩
    rcases List.eq_nil_or_concat after with rfl | ⟨after, end', rfl⟩
    · obtain ⟨_, same⟩ := List.append_inj' eq rfl
      cases same
      exact .inl ⟨named, rfl⟩
    · rw [List.concat_eq_append] at eq others
      rw [← List.cons_append, ← List.append_assoc] at eq
      obtain ⟨rest, same⟩ := List.append_inj' eq rfl
      cases same
      refine .inr ⟨others last (List.mem_append_right _ List.mem_cons_self), before, after, rest,
        named, fun later mem => others later (List.mem_append_left _ mem)⟩
  · rintro (⟨named, rfl⟩ | ⟨other, before, after, rfl, named, others⟩)
    · exact ⟨fs, [], rfl, named, fun later mem => absurd mem List.not_mem_nil⟩
    · refine ⟨before, after ++ [last], by simp, named, fun later mem => ?_⟩
      rcases List.mem_append.1 mem with old | single
      · exact others later old
      · rw [List.mem_singleton.1 single]
        exact other

theorem LastNamed.mem (isLast : LastNamed fs name f) : f ∈ fs := by
  obtain ⟨before, after, rfl, _⟩ := isLast
  exact List.mem_append_right _ List.mem_cons_self

theorem LastNamed.name_eq (isLast : LastNamed fs name f) : f.name = name := by
  obtain ⟨before, after, _, named, _⟩ := isLast
  exact named

/-- A declaration in front is the last one of its name if none follows. -/
theorem lastNamed_cons : LastNamed (first :: fs) name f
    ↔ LastNamed fs name f ∨ first.name = name ∧ f = first ∧ ∀ later ∈ fs, later.name ≠ name := by
  constructor
  · rintro ⟨before, after, eq, named, others⟩
    cases before with
    | nil =>
        cases eq
        exact .inr ⟨named, rfl, others⟩
    | cons b before =>
        cases eq
        exact .inl ⟨before, after, rfl, named, others⟩
  · rintro (⟨before, after, rfl, named, others⟩ | ⟨named, rfl, others⟩)
    · exact ⟨first :: before, after, rfl, named, others⟩
    · exact ⟨[], fs, rfl, named, others⟩

/-- A declared name has a last declaration. -/
theorem exists_lastNamed_iff : (∃ last, LastNamed fs name last) ↔ ∃ f ∈ fs, f.name = name := by
  constructor
  · rintro ⟨last, isLast⟩
    exact ⟨last, isLast.mem, isLast.name_eq⟩
  · induction fs with
    | nil => simp
    | cons first fs ih =>
        intro declared
        by_cases later : ∃ f ∈ fs, f.name = name
        · obtain ⟨last, isLast⟩ := ih later
          exact ⟨last, lastNamed_cons.2 (.inl isLast)⟩
        · obtain ⟨f, mem, named⟩ := declared
          have others : ∀ f ∈ fs, f.name ≠ name := fun f mem named => later ⟨f, mem, named⟩
          rcases List.mem_cons.1 mem with rfl | mem
          · exact ⟨f, lastNamed_cons.2 (.inr ⟨named, rfl, others⟩)⟩
          · exact absurd named (others f mem)

namespace TypeFields

/-- What some declarations say of the fields of a type. -/
def ofFields (fs : List FieldDefinition) : TypeFields := fs.foldl declare .empty

theorem ofFields_concat : ofFields (fs ++ [f]) = (ofFields fs).declare f := by
  rw [ofFields, List.foldl_append]
  rfl

theorem nodup_keys_ofFields (fs : List FieldDefinition) :
    ((ofFields fs).infos.map (·.1)).Nodup := by
  induction fs using List.reverseRecOn with
  | nil => exact List.nodup_nil
  | append_singleton fs f ih =>
      rw [ofFields_concat]
      exact nodup_keys_setEntry ih

/-- The last declaration of a field decides its shape. -/
theorem valueAt?_infos_ofFields : valueAt? (ofFields fs).infos name = some info
    ↔ ∃ f, LastNamed fs name f ∧ FieldInfo.ofType f.type = info := by
  induction fs using List.reverseRecOn with
  | nil =>
      refine iff_of_false (by simp [ofFields, empty, valueAt?]) ?_
      rintro ⟨f, isLast, _⟩
      exact not_lastNamed_nil isLast
  | append_singleton fs last ih =>
      rw [ofFields_concat, declare]
      simp only [valueAt?_setEntry, lastNamed_concat]
      by_cases same : last.name = name
      · simp [same]
      · simp [same, ih]

/-- A field is promised if some declaration of it is non-null. -/
theorem mem_promised_ofFields : name ∈ (ofFields fs).promised
    ↔ ∃ f ∈ fs, f.name = name ∧ f.type.isNonNull = true := by
  induction fs using List.reverseRecOn with
  | nil => simp [ofFields, empty]
  | append_singleton fs last ih =>
      have info : (FieldInfo.ofType last.type).isNonNull = last.type.isNonNull := rfl
      rw [ofFields_concat, declare]
      simp only [info, List.mem_append, List.mem_singleton, or_and_right, exists_or, exists_eq_left,
        ← ih]
      by_cases nonNull : last.type.isNonNull = true
      · rw [if_pos nonNull, mem_insertLast, eq_comm]
        exact or_congr_right (and_iff_left nonNull).symm
      · rw [if_neg nonNull]
        exact (or_iff_left fun both => nonNull both.2).symm

end TypeFields

/-! ## Going through the definitions -/

namespace FieldTable

variable {table : FieldTable} {type other : Name} {types : List TypeDefinition} {id : FieldId}

/-- A declaration changes the fields of its own type only. -/
theorem fieldsOf_declare : (table.declare type f).fieldsOf other
    = if type = other then (table.fieldsOf other).declare f else table.fieldsOf other := by
  simp only [fieldsOf, declare, valueAt?_setEntry]
  by_cases same : type = other
  · subst same
    simp
  · simp [same]

theorem fieldsOf_enter : (table.enter type).fieldsOf other = table.fieldsOf other := by
  simp only [fieldsOf, enter, valueAt?_setEntry]
  by_cases same : type = other
  · subst same
    simp
  · simp [same]

theorem fieldsOf_foldl_declare :
    (fs.foldl (fun table f => table.declare type f) table).fieldsOf other
      = if type = other then fs.foldl TypeFields.declare (table.fieldsOf other)
        else table.fieldsOf other := by
  induction fs generalizing table with
  | nil => simp
  | cons f fs ih =>
      rw [List.foldl_cons, ih, fieldsOf_declare]
      by_cases same : type = other
      · simp [same]
      · simp [same]

/-- The fields of a type are declared by its definitions, one after the other. -/
theorem fieldsOf_foldl_addDefinition : (types.foldl addDefinition table).fieldsOf other
    = ((types.filter fun t => t.name = other).flatMap (·.fields)).foldl TypeFields.declare
        (table.fieldsOf other) := by
  induction types generalizing table with
  | nil => rfl
  | cons t types ih =>
      rw [List.foldl_cons, ih, addDefinition, fieldsOf_foldl_declare, fieldsOf_enter]
      by_cases same : t.name = other
      · simp [same]
      · simp [same]

theorem nodes_foldl_declare : (fs.foldl (fun table f => table.declare type f) table).graph.nodes
    = (fs.map fun f => FieldId.text ⟨type, f.name⟩).foldl insertLast table.graph.nodes := by
  induction fs generalizing table with
  | nil => rfl
  | cons f fs ih =>
      rw [List.foldl_cons, ih, List.map_cons, List.foldl_cons]
      exact congrArg (List.foldl insertLast · _) (table.graph.nodes_addNode _)

/-- The nodes come in the order in which the fields are first declared. -/
theorem nodes_foldl_addDefinition : (types.foldl addDefinition table).graph.nodes
    = ((types.flatMap fun t => t.fields.map fun f => (⟨t.name, f.name⟩ : FieldId)).map
        FieldId.text).foldl insertLast table.graph.nodes := by
  induction types generalizing table with
  | nil => rfl
  | cons t types ih =>
      rw [List.foldl_cons, ih, addDefinition, nodes_foldl_declare, List.flatMap_cons,
        List.map_append, List.foldl_append, List.map_map]
      rfl

theorem fieldsOf_eq {fields : TypeFields} (found : valueAt? table.types type = some fields) :
    table.fieldsOf type = fields := by
  rw [fieldsOf, found]
  rfl

theorem fieldsOf_eq_empty (missing : valueAt? table.types type = none) :
    table.fieldsOf type = .empty := by
  rw [fieldsOf, missing]
  rfl

/-- Where nothing is listed twice, the fields that are listed are those known of their types. -/
theorem mem_infos (nodup : (table.types.map (·.1)).Nodup)
    (nodupInfos : ∀ type, ((table.fieldsOf type).infos.map (·.1)).Nodup) :
    (id, info) ∈ table.infos ↔ valueAt? (table.fieldsOf id.type).infos id.field = some info := by
  rw [valueAt?_eq_some_iff (nodupInfos id.type), infos, List.mem_flatMap]
  constructor
  · rintro ⟨⟨type, fields⟩, mem, listed⟩
    obtain ⟨⟨field, shape⟩, mem', same⟩ := List.mem_map.1 listed
    cases same
    rwa [fieldsOf_eq ((valueAt?_eq_some_iff nodup).2 mem)]
  · intro mem
    cases found : valueAt? table.types id.type with
    | none =>
        rw [fieldsOf_eq_empty found] at mem
        cases mem
    | some fields =>
        rw [fieldsOf_eq found] at mem
        exact ⟨(id.type, fields), (valueAt?_eq_some_iff nodup).1 found,
          List.mem_map.2 ⟨(id.field, info), mem, rfl⟩⟩

/-- Where nothing is listed twice, no field is. -/
theorem nodup_keys_infos (nodup : (table.types.map (·.1)).Nodup)
    (nodupInfos : ∀ type, ((table.fieldsOf type).infos.map (·.1)).Nodup) :
    (table.infos.map (·.1)).Nodup := by
  rw [infos, List.map_flatMap, List.nodup_flatMap]
  refine ⟨fun type mem => ?_, (List.pairwise_map.1 nodup).imp fun different => ?_⟩
  · have listed := nodupInfos type.1
    rw [fieldsOf_eq ((valueAt?_eq_some_iff nodup).2 mem)] at listed
    rw [List.map_map]
    exact List.Nodup.of_map FieldId.field (by rwa [List.map_map])
  · intro field left right
    obtain ⟨_, mem, rfl⟩ := List.mem_map.1 left
    obtain ⟨_, mem', same⟩ := List.mem_map.1 right
    obtain ⟨_, _, rfl⟩ := List.mem_map.1 mem
    obtain ⟨_, _, rfl⟩ := List.mem_map.1 mem'
    exact different (congrArg FieldId.type same).symm

/-- What is known of a field is what its type knows of it. -/
theorem valueAt?_infos (nodup : (table.types.map (·.1)).Nodup)
    (nodupInfos : ∀ type, ((table.fieldsOf type).infos.map (·.1)).Nodup) :
    valueAt? table.infos id = valueAt? (table.fieldsOf id.type).infos id.field :=
  Option.ext fun _ =>
    (valueAt?_eq_some_iff (nodup_keys_infos nodup nodupInfos)).trans (mem_infos nodup nodupInfos)

theorem readsBehind_eq : table.readsBehind info = info.dependency?.toList.flatMap fun type =>
    (table.fieldsOf type).promised.map fun field => ⟨type, field⟩ := by
  rw [readsBehind]
  cases info.dependency? with
  | none => rfl
  | some type =>
      cases found : valueAt? table.types type with
      | none => simp [found, fieldsOf_eq_empty found, TypeFields.empty]
      | some fields => simp [found, fieldsOf_eq found]

/-- Behind a field stand the promised fields of the type that it depends on. -/
theorem mem_readsBehind : id ∈ table.readsBehind info
    ↔ info.dependency? = some id.type ∧ id.field ∈ (table.fieldsOf id.type).promised := by
  rw [readsBehind]
  cases info.dependency? with
  | none => simp
  | some type =>
      cases found : valueAt? table.types type with
      | none =>
          refine iff_of_false (by simp [found]) ?_
          rintro ⟨same, promised⟩
          cases same
          rw [fieldsOf_eq_empty found] at promised
          cases promised
      | some fields =>
          simp only [found, List.mem_map, Option.some_inj]
          constructor
          · rintro ⟨field, promised, rfl⟩
            rw [fieldsOf_eq found]
            exact ⟨rfl, promised⟩
          · rintro ⟨rfl, promised⟩
            rw [fieldsOf_eq found] at promised
            exact ⟨id.field, promised, rfl⟩

/-- What every declaration keeps holds of what is collected of a schema. -/
theorem fieldTable_induction {motive : FieldTable → Prop} (empty : motive .empty)
    (enter : ∀ table type, motive table → motive (table.enter type))
    (declare : ∀ table type f, motive table → motive (table.declare type f)) (d : Document) :
    motive d.fieldTable := by
  have fields : ∀ (fs : List FieldDefinition) type table, motive table →
      motive (fs.foldl (fun table f => table.declare type f) table) := by
    intro fs type
    induction fs with
    | nil => exact fun table holds => holds
    | cons f fs ih => exact fun table holds => ih _ (declare table type f holds)
  have definitions : ∀ (types : List TypeDefinition) table, motive table →
      motive (types.foldl addDefinition table) := by
    intro types
    induction types with
    | nil => exact fun table holds => holds
    | cons t types ih =>
        exact fun table holds => ih _ (fields t.fields t.name _ (enter table t.name holds))
  exact definitions d.objects .empty empty

end FieldTable

/-! ## What is collected of a schema -/

namespace Document

variable {d : Document} {id : FieldId} {type : Name}

/-- All declarations of fields of an object type, over all its definitions in order. -/
def declarations (d : Document) (type : Name) : List FieldDefinition :=
  (d.objects.filter fun t => t.name = type).flatMap (·.fields)

/-- All declarations of fields of object types in order. -/
def declaredIds (d : Document) : List FieldId :=
  d.objects.flatMap fun t => t.fields.map fun f => ⟨t.name, f.name⟩

/-- A field is declared when some definition of its type declares it. -/
theorem mem_declaredIds : id ∈ d.declaredIds ↔ ∃ f ∈ d.declarations id.type, f.name = id.field := by
  simp only [declaredIds, declarations, List.mem_flatMap, List.mem_map, List.mem_filter,
    decide_eq_true_eq]
  constructor
  · rintro ⟨t, mem, f, field, rfl⟩
    exact ⟨f, ⟨t, ⟨mem, rfl⟩, field⟩, rfl⟩
  · rintro ⟨f, ⟨t, ⟨mem, type⟩, field⟩, name⟩
    exact ⟨t, mem, f, field, by rw [type, name]⟩

/-- The table knows of a type what all its declarations say. -/
theorem fieldsOf_fieldTable (d : Document) (type : Name) :
    d.fieldTable.fieldsOf type = .ofFields (d.declarations type) :=
  FieldTable.fieldsOf_foldl_addDefinition

theorem nodup_keys_types (d : Document) : (d.fieldTable.types.map (·.1)).Nodup := by
  refine FieldTable.fieldTable_induction
    (motive := fun table => (table.types.map (·.1)).Nodup) ?_ ?_ ?_ d
  · exact List.nodup_nil
  · exact fun table type nodup => nodup_keys_setEntry nodup
  · exact fun table type f nodup => nodup_keys_setEntry nodup

/-- The table lists nodes only; the edges are added afterwards. -/
theorem not_edge_fieldTable {a b : String} : ¬ d.fieldTable.graph.Edge a b := by
  refine FieldTable.fieldTable_induction (motive := fun table => ¬ table.graph.Edge a b) ?_ ?_ ?_ d
  · exact List.not_mem_nil
  · exact fun table type none => none
  · exact fun table type f none => mt Graph.edge_addNode.1 none

/-- The nodes are the declared fields in order of first declaration. -/
theorem nodes_fieldTable (d : Document) :
    d.fieldTable.graph.nodes = (distinct d.declaredIds).map FieldId.text := by
  have nodes : d.fieldTable.graph.nodes = (d.declaredIds.map FieldId.text).foldl insertLast [] :=
    FieldTable.nodes_foldl_addDefinition
  rw [nodes, foldl_insertLast_nil, distinct_map fun a b same => FieldId.text_injective same]

theorem nodup_infos_fieldsOf (d : Document) (type : Name) :
    ((d.fieldTable.fieldsOf type).infos.map (·.1)).Nodup := by
  rw [fieldsOf_fieldTable]
  exact TypeFields.nodup_keys_ofFields _

/-- The fields that are listed, each with the shape of its last declaration. -/
theorem mem_infos_fieldTable : (id, info) ∈ d.fieldTable.infos
    ↔ ∃ f, LastNamed (d.declarations id.type) id.field f ∧ FieldInfo.ofType f.type = info := by
  rw [FieldTable.mem_infos d.nodup_keys_types d.nodup_infos_fieldsOf, fieldsOf_fieldTable]
  exact TypeFields.valueAt?_infos_ofFields

/-- What stands behind a field of some shape are the promised fields of its base type. -/
theorem mem_readsBehind_fieldTable : id ∈ d.fieldTable.readsBehind info
    ↔ info.dependency? = some id.type ∧
      ∃ f ∈ d.declarations id.type, f.name = id.field ∧ f.type.isNonNull = true := by
  rw [FieldTable.mem_readsBehind, fieldsOf_fieldTable, TypeFields.mem_promised_ofFields]

end Document

end SchemaHealth
