import SchemaHealth.Proofs.BlastRadius.Tiers
import SchemaHealth.Proofs.Graph.FieldTable
import SchemaHealth.Rule.Battery
import Mathlib.Data.List.Flatten

/-!
# Where rules find something

Each of the nine rules goes through a list of places: the fields of a schema, its object types, the
cycles or the fields that an analysis lists (`Rule.LooksAt`). What it finds stands at some of these
places, in their order (`Rule.lists_run`). So where a violation can be, and how many there can be,
are questions about the five lists of places and not about the nine rules.
-/

namespace SchemaHealth

/-! ## What is taken from a list -/

section Taken

variable {α β γ : Type} {f : α → Option β} {g : β → γ} {h : α → γ}

theorem sublist_map_filterMap (same : ∀ a b, f a = some b → g b = h a) (l : List α) :
    ((l.filterMap f).map g).Sublist (l.map h) := by
  induction l with
  | nil => exact .slnil
  | cons a l ih =>
      cases taken : f a with
      | none =>
          rw [List.filterMap_cons_none taken]
          exact ih.cons _
      | some b =>
          rw [List.filterMap_cons_some taken, List.map_cons, List.map_cons, same a b taken]
          exact ih.cons_cons _

end Taken

/-! ## Places -/

namespace Document

/-- Every field declaration of an object type with the definition it stands in. -/
def objectFields (d : Document) : List (TypeDefinition × FieldDefinition) :=
  d.objects.flatMap fun t => t.fields.map fun f => (t, f)

/-- The places of some field declarations. -/
def fieldPlaces (fields : List (TypeDefinition × FieldDefinition)) : List Location :=
  fields.map fun field => field.2.location field.1

variable {d : Document} {field : TypeDefinition × FieldDefinition}

/-- The field definitions are the fields of all definitions. -/
theorem mem_fieldDefinitions :
    field ∈ d.fieldDefinitions ↔ field.1 ∈ d.types ∧ field.2 ∈ field.1.fields := by
  obtain ⟨t, f⟩ := field
  simp [fieldDefinitions]

/-- The object fields are the fields of the object types. -/
theorem mem_objectFields :
    field ∈ d.objectFields ↔ field.1 ∈ d.objects ∧ field.2 ∈ field.1.fields := by
  obtain ⟨t, f⟩ := field
  simp [objectFields]

theorem declaredIds_eq (d : Document) :
    d.declaredIds = d.objectFields.map fun field => ⟨field.1.name, field.2.name⟩ := by
  simp only [declaredIds, objectFields, List.map_flatMap, List.map_map, Function.comp_def]

/-- The fields of object types are listed in the order of all fields. -/
theorem objectFields_sublist (d : Document) : d.objectFields.Sublist d.fieldDefinitions :=
  List.filter_sublist.flatMap _

end Document

/-- The rules that are about object types only. -/
def objectRules : List String :=
  ["Composite Keys", "Cycle Counter", "Null Blast Radius", "Problem Union"]

/-- A rule goes through some places of a schema, in order. -/
inductive Rule.LooksAt (d : Document) : String → List Location → Prop
  | fields {rule : String} : rule ∉ objectRules →
    LooksAt d rule (Document.fieldPlaces d.fieldDefinitions)
  | objectFields : LooksAt d "Problem Union" (Document.fieldPlaces d.objectFields)
  | objects : LooksAt d "Composite Keys" (d.objects.map fun t => .ofType t.name.text t.position)
  | cycles : LooksAt d "Cycle Counter"
    (d.references.cycles.map fun c => .ofCoordinate (c.path.head?.getD ""))
  | reads : LooksAt d "Null Blast Radius" (d.requiredReads.nodes.map .ofCoordinate)

/-- A result of a rule counts what it lists, and what it lists stands at places that the rule looks
at, in their order. -/
structure RuleResult.Lists (d : Document) (name : String) (r : RuleResult) : Prop where
  rule : r.rule = name
  size : r.findings.size = .ofNat r.findings.toList.length
  places : ∃ places, Rule.LooksAt d name places ∧
    (r.findings.toList.map (·.location)).Sublist places

/-! ## What the rules list -/

namespace Rule

variable {d : Document} {places : List Location}

theorem lists_ofViolations {name message : String} {violations : List Violation}
    (looks : LooksAt d name places) (found : (violations.map (·.location)).Sublist places) :
    (RuleResult.ofViolations name violations message).Lists d name :=
  ⟨rfl, rfl, places, looks, found⟩

theorem lists_infallible {name description : String} {weight : Float}
    {find : Document → List Violation} {message : List Violation → String}
    (looks : LooksAt d name places) (found : ((find d).map (·.location)).Sublist places) :
    ((infallible name weight description find message).run d).Lists d name :=
  lists_ofViolations looks found

theorem lists_failed (name error : String) (looks : LooksAt d name places) :
    (RuleResult.failed name error).Lists d name :=
  ⟨rfl, rfl, places, looks, List.nil_sublist _⟩

/-- A rule on fields finds violations at fields only, in their order and at most one each. -/
theorem fieldViolations_sublist (d : Document)
    (complaint? : TypeDefinition → FieldDefinition → Option String) :
    ((d.fieldViolations complaint?).map (·.location)).Sublist
      (Document.fieldPlaces d.fieldDefinitions) := by
  refine sublist_map_filterMap (fun field v complaint => ?_) _
  obtain ⟨message, _, rfl⟩ := Option.map_eq_some_iff.1 complaint
  rfl

/-- The rule on mutations lists fields of the type of mutations. -/
theorem lists_problemUnion (d : Document) :
    (problemUnion.run d).Lists d "Problem Union" := by
  refine lists_infallible .objectFields ?_
  rw [Document.fieldPlaces, Document.objectFields, List.map_flatMap, List.map_flatMap]
  simp only [List.map_map]
  have lacking : ∀ t ∈ d.objects.filter fun t => t.name.text = "Mutation",
      ((t.fields.filter lacksResult).map fun f => f.location t).Sublist
        (t.fields.map fun f => f.location t) := fun t _ => List.filter_sublist.map _
  exact (List.Sublist.flatMap_right _ lacking).trans (List.filter_sublist.flatMap _)

/-- The rule on keys lists object types. -/
theorem lists_compositeKeys (d : Document) (limit : Nat) :
    ((compositeKeys limit).run d).Lists d "Composite Keys" := by
  refine lists_infallible .objects ?_
  rw [List.map_map]
  exact List.filter_sublist.map _

/-- The rule on cycles lists one place for each cycle. -/
theorem lists_cycleCounter (d : Document) : (cycleCounter.run d).Lists d "Cycle Counter" := by
  refine lists_infallible .cycles ?_
  rw [List.map_map]
  exact List.Sublist.refl _

/-- The objections are to nodes of the graph, in their order. -/
theorem objections_sublist (g : Graph) (policy : BlastPolicy) :
    ((BlastAnalysis.ofGraph g policy).violations.map (·.field)).Sublist g.nodes := by
  have violations : (BlastAnalysis.ofGraph g policy).violations = g.nodes.filterMap fun field =>
      BlastAnalysis.objection? policy (BlastAnalysis.measure g policy field) := List.filterMap_map
  have own : ∀ field v,
      BlastAnalysis.objection? policy (BlastAnalysis.measure g policy field) = some v →
        v.field = field := fun field _ objection =>
    (BlastAnalysis.repeats_of_objection? (BlastAnalysis.records_measure field) objection).field
  have fields := sublist_map_filterMap own g.nodes
  rwa [← violations, List.map_id'] at fields

/-- The rule on blast radii lists declared fields, or nothing when its check fails. -/
theorem lists_nullBlastRadius (d : Document) (policy : BlastPolicy) :
    ((nullBlastRadius policy).run d).Lists d "Null Blast Radius" := by
  -- Under a policy that is not valid the rule fails and lists nothing.
  cases valid : policy.validate with
  | error failure =>
      simp only [run, nullBlastRadius, valid]
      exact lists_failed _ _ .reads
  | ok _ =>
      simp only [run, nullBlastRadius, valid]
      refine lists_ofViolations .reads ?_
      have fields := (objections_sublist d.requiredReads policy).map Location.ofCoordinate
      rw [List.map_map] at fields ⊢
      exact fields

/-- Every rule lists places that it looks at. -/
theorem lists_run {keyLimit : Nat} {policy : BlastPolicy} {rule : Rule}
    (mem : rule ∈ battery keyLimit policy) (d : Document) : (rule.run d).Lists d rule.name := by
  have onFields : ∀ {name description : String} {weight : Float}
      {complaint? : TypeDefinition → FieldDefinition → Option String}
      {message : List Violation → String}, name ∉ objectRules →
      ((infallible name weight description (fun d => d.fieldViolations complaint?) message).run
        d).Lists d name := fun other =>
    lists_infallible (.fields other) (fieldViolations_sublist d _)
  simp only [battery, List.mem_cons, List.not_mem_nil, or_false] at mem
  rcases mem with rfl | rfl | rfl | rfl | rfl | rfl | rfl | rfl | rfl
  · exact onFields (by decide)
  · exact lists_compositeKeys d keyLimit
  · exact lists_cycleCounter d
  · exact lists_nullBlastRadius d policy
  · exact onFields (by decide)
  · exact lists_problemUnion d
  · exact onFields (by decide)
  · exact onFields (by decide)
  · exact onFields (by decide)

/-- No rule fails under a valid policy. -/
theorem isFailure_run {keyLimit : Nat} {policy : BlastPolicy} {rule : Rule}
    (mem : rule ∈ battery keyLimit policy) (valid : policy.validate = .ok ()) (d : Document) :
    (rule.run d).isFailure = false := by
  simp only [battery, List.mem_cons, List.not_mem_nil, or_false] at mem
  rcases mem with rfl | rfl | rfl | rfl | rfl | rfl | rfl | rfl | rfl
  · rfl
  · rfl
  · rfl
  · simp only [run, nullBlastRadius, valid]
    rfl
  · rfl
  · rfl
  · rfl
  · rfl
  · rfl

end Rule

end SchemaHealth
