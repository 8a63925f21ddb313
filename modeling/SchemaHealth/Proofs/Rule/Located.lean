import SchemaHealth.Proofs.BlastRadius.Affected
import SchemaHealth.Proofs.Cycle.Soundness
import SchemaHealth.Proofs.Rule.Isolation
import SchemaHealth.Proofs.Rule.Places
import SchemaHealth.Settings.Basic

/-!
# Violations are where they say

Some rules give the place of a declaration, others only a coordinate, which is split at its first
point. Names hold no point, so the parts are the type and the field that the coordinate was made of
(`FieldId.ofCoordinate_text`), and the analyses list fields and types of the schema only. So every
location in a report exists in the schema (`Document.locations_exist`).
-/

namespace SchemaHealth

/-! ## Coordinates -/

/-- The coordinate of a field is read back as the field and its type. -/
theorem FieldId.ofCoordinate_text (id : FieldId) : Location.ofCoordinate id.text
    = ⟨none, none, some id.field.text, some id.type.text, some id.text⟩ := by
  have chars : id.text.toList = id.type.text.toList ++ '.' :: id.field.text.toList := by
    simp [text, String.toList_append]
  simp only [Location.ofCoordinate, chars, Text.splitAtFirst_append id.type.point_not_mem,
    String.ofList_toList]

/-- The coordinate of a type is read back as the type. -/
theorem Name.ofCoordinate_text (name : Name) : Location.ofCoordinate name.text
    = ⟨none, none, none, some name.text, some name.text⟩ := by
  simp only [Location.ofCoordinate, Text.splitAtFirst_of_not_mem name.point_not_mem]

/-! ## Locations in a schema -/

/-- Whether an object or interface type is defined or extended. -/
def TypeDefinition.isObjectOrInterface (t : TypeDefinition) : Bool :=
  match t.body with
  | .object _ | .interface _ => true
  | _ => false

/-- A line and a column are those of a position, or both are missing. -/
def Position.Agrees (p : Position) (line column : Option UInt64) : Prop :=
  line = some p.line ∧ column = some p.column ∨ line = none ∧ column = none

/-- A location is that of a definition of some kind, or of a field declared in one. -/
inductive Location.Exists (d : Document) (kind : TypeDefinition → Bool) : Location → Prop
  | field {t : TypeDefinition} {f : FieldDefinition} {line column : Option UInt64} :
    t ∈ d.types → kind t = true → f ∈ t.fields → f.position.Agrees line column →
    Exists d kind ⟨line, column, some f.name.text, some t.name.text,
      some (t.name.text ++ "." ++ f.name.text)⟩
  | type {t : TypeDefinition} {line column : Option UInt64} :
    t ∈ d.types → kind t = true → t.position.Agrees line column →
    Exists d kind ⟨line, column, none, some t.name.text, some t.name.text⟩

variable {d : Document} {rule x : String} {places : List Location} {l : Location}

theorem TypeDefinition.isObjectOrInterface_of_isObject {t : TypeDefinition}
    (isObject : t.isObject = true) : t.isObjectOrInterface = true := by
  obtain ⟨_, body, _, _, _⟩ := t
  cases body with
  | object => rfl
  | scalar => cases isObject
  | interface => cases isObject
  | union => cases isObject
  | enum => cases isObject
  | inputObject => cases isObject

/-- Only object and interface types have fields. -/
theorem TypeDefinition.isObjectOrInterface_of_mem_fields {t : TypeDefinition} {f : FieldDefinition}
    (mem : f ∈ t.fields) : t.isObjectOrInterface = true := by
  obtain ⟨_, body, _, _, _⟩ := t
  cases body with
  | object => rfl
  | interface => rfl
  | scalar => cases mem
  | union => cases mem
  | enum => cases mem
  | inputObject => cases mem

namespace Location.Exists

theorem isObjectOrInterface (located : l.Exists d TypeDefinition.isObject) :
    l.Exists d TypeDefinition.isObjectOrInterface := by
  cases located with
  | field mem isObject declared agrees =>
      exact .field mem (TypeDefinition.isObjectOrInterface_of_isObject isObject) declared agrees
  | type mem isObject agrees =>
      exact .type mem (TypeDefinition.isObjectOrInterface_of_isObject isObject) agrees

theorem of_mem_fieldPlaces {kind : TypeDefinition → Bool}
    {fields : List (TypeDefinition × FieldDefinition)}
    (declared : ∀ field ∈ fields, field.1 ∈ d.types ∧ kind field.1 = true ∧
      field.2 ∈ field.1.fields)
    (mem : l ∈ Document.fieldPlaces fields) : l.Exists d kind := by
  obtain ⟨field, listed, rfl⟩ := List.mem_map.1 mem
  obtain ⟨type, isKind, declared⟩ := declared field listed
  exact .field type isKind declared (.inl ⟨rfl, rfl⟩)

theorem of_mem_fieldDefinitions (mem : l ∈ Document.fieldPlaces d.fieldDefinitions) :
    l.Exists d TypeDefinition.isObjectOrInterface := by
  refine of_mem_fieldPlaces (fun field listed => ?_) mem
  obtain ⟨type, declared⟩ := Document.mem_fieldDefinitions.1 listed
  exact ⟨type, TypeDefinition.isObjectOrInterface_of_mem_fields declared, declared⟩

theorem of_mem_objectFields (mem : l ∈ Document.fieldPlaces d.objectFields) :
    l.Exists d TypeDefinition.isObject := by
  refine of_mem_fieldPlaces (fun field listed => ?_) mem
  obtain ⟨object, declared⟩ := Document.mem_objectFields.1 listed
  obtain ⟨type, isObject⟩ := List.mem_filter.1 object
  exact ⟨type, isObject, declared⟩

/-- A cycle is reported at its least type, which is an object type. -/
theorem of_mem_cycles {c : Cycle} (mem : c ∈ d.references.cycles) :
    (ofCoordinate (c.path.head?.getD "")).Exists d TypeDefinition.isObject := by
  obtain ⟨first, head, onCycle, _⟩ :=
    (Graph.isCanonical_of_mem_cycles d.commaFree_references mem).least
  obtain ⟨t, object, rfl⟩ := Document.exists_object_of_mem_types mem onCycle
  obtain ⟨type, isObject⟩ := List.mem_filter.1 object
  rw [head, Option.getD_some, t.name.ofCoordinate_text]
  exact .type type isObject (.inr ⟨rfl, rfl⟩)

/-- The coordinate of a declared field names a field of an object type. -/
theorem of_mem_declaredIds {id : FieldId} (mem : id ∈ d.declaredIds) :
    (ofCoordinate id.text).Exists d TypeDefinition.isObject := by
  rw [Document.declaredIds_eq] at mem
  obtain ⟨field, listed, rfl⟩ := List.mem_map.1 mem
  obtain ⟨object, declared⟩ := Document.mem_objectFields.1 listed
  obtain ⟨type, isObject⟩ := List.mem_filter.1 object
  rw [FieldId.ofCoordinate_text]
  exact .field type isObject declared (.inr ⟨rfl, rfl⟩)

end Location.Exists

/-- Every node of the required reads is a declared field. -/
theorem Document.exists_declaredId (node : x ∈ d.requiredReads.nodes) :
    ∃ id ∈ d.declaredIds, id.text = x := by
  rw [nodes_requiredReads] at node
  obtain ⟨id, mem, rfl⟩ := List.mem_map.1 node
  exact ⟨id, mem_distinct.1 mem, rfl⟩

/-! ## Locations in a report -/

/-- The rules that are about object types only look at object types and their fields. -/
theorem Rule.LooksAt.exists_object (looks : LooksAt d rule places) (own : rule ∈ objectRules)
    (mem : l ∈ places) : l.Exists d TypeDefinition.isObject := by
  cases looks with
  | fields other => exact absurd own other
  | objectFields => exact .of_mem_objectFields mem
  | objects =>
      obtain ⟨t, object, rfl⟩ := List.mem_map.1 mem
      obtain ⟨type, isObject⟩ := List.mem_filter.1 object
      exact .type type isObject (.inl ⟨rfl, rfl⟩)
  | cycles =>
      obtain ⟨c, found, rfl⟩ := List.mem_map.1 mem
      exact .of_mem_cycles found
  | reads =>
      obtain ⟨x, node, rfl⟩ := List.mem_map.1 mem
      obtain ⟨id, declared, rfl⟩ := Document.exists_declaredId node
      exact .of_mem_declaredIds declared

/-- The places that a rule looks at are places of the schema. -/
theorem Rule.LooksAt.exists (looks : LooksAt d rule places) (mem : l ∈ places) :
    l.Exists d TypeDefinition.isObjectOrInterface := by
  by_cases own : rule ∈ objectRules
  · exact (looks.exists_object own mem).isObjectOrInterface
  · cases looks with
    | fields => exact .of_mem_fieldDefinitions mem
    | objectFields => exact absurd (by decide) own
    | objects => exact absurd (by decide) own
    | cycles => exact absurd (by decide) own
    | reads => exact absurd (by decide) own

/-- Every violation in a report is counted and stands at a definition of an object or interface
type, or at a field declared in one; four rules report object types only. The coordinates of the
fields of an analysis of blast radii name these fields. -/
theorem Document.locations_exist (d : Document) (s : Settings) (details : ReportDetails) :
    List.Forall₂ (fun (rule : Rule) (result : RuleResult) =>
        result.rule = rule.name ∧ result.findings.size = .ofNat result.findings.toList.length ∧
        ∀ v ∈ result.findings.toList,
          v.location.Exists d TypeDefinition.isObjectOrInterface ∧
          (rule.name ∈ objectRules → v.location.Exists d TypeDefinition.isObject))
      s.activeRules (d.report s.activeRules details).results ∧
    ∀ policy, ∀ r ∈ (d.blastAnalysis policy).results, ∃ id ∈ d.declaredIds, r.field = id.text ∧
      Location.ofCoordinate r.field
        = ⟨none, none, some id.field.text, some id.type.text, some r.field⟩ := by
  constructor
  · refine forall₂_results_report.2 fun rule active => ?_
    obtain ⟨names, size, places, looks, found⟩ := Rule.lists_run (List.mem_filter.1 active).1 d
    refine ⟨names, size, fun v mem => ?_⟩
    have place : v.location ∈ places := found.subset (List.mem_map_of_mem mem)
    exact ⟨looks.exists place, fun own => looks.exists_object own place⟩
  · intro policy r mem
    obtain ⟨x, node, rfl⟩ := List.mem_map.1 mem
    obtain ⟨id, declared, rfl⟩ := exists_declaredId node
    exact ⟨id, declared, rfl, id.ofCoordinate_text⟩

theorem locations_exist_mutualTypes :
    (Rule.cycleCounter.run mutualTypes).findings.toList
        = [⟨"Cycle of length 2: A → B → A", ⟨none, none, none, some "A", some "A"⟩⟩] ∧
      (⟨none, none, none, some "A", some "A"⟩ : Location).Exists mutualTypes
        TypeDefinition.isObject := by
  have found : (Rule.cycleCounter.run mutualTypes).findings.toList
      = [⟨"Cycle of length 2: A → B → A", ⟨none, none, none, some "A", some "A"⟩⟩] := by cbv
  have active : Rule.cycleCounter ∈ Settings.standard.activeRules :=
    List.mem_filter.2 ⟨by simp [battery], rfl⟩
  have member : ⟨"Cycle of length 2: A → B → A", ⟨none, none, none, some "A", some "A"⟩⟩
      ∈ (Rule.cycleCounter.run mutualTypes).findings.toList := by
    rw [found]
    exact List.mem_singleton_self _
  have located := Document.forall₂_results_report.1
    (mutualTypes.locations_exist .standard ⟨"", none, none⟩).1
  exact ⟨found, ((located _ active).2.2 _ member).2 (by decide)⟩

end SchemaHealth
