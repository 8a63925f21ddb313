import SchemaHealth.Proofs.Rule.Located
import Mathlib.Logic.Relation

/-!
# Definitions that nothing looks at

Both analyses take from a schema the definitions of its object types, and the rules besides these
the fields that are declared in it. So definitions of other kinds may be inserted and removed
anywhere, whatever their names are and whoever refers to them (`Document.DiffersIn`): without
fields they change nothing in a report, and interfaces, whose fields count, change nothing in the
analyses (`Document.ignores`).
-/

namespace SchemaHealth

namespace Document

/-- A definition of some kind is inserted anywhere in a schema. -/
inductive Inserts (kind : TypeDefinition → Bool) : Document → Document → Prop
  | insert {before after : List TypeDefinition} {t : TypeDefinition} :
    kind t = true → Inserts kind ⟨before ++ after⟩ ⟨before ++ t :: after⟩

/-- Two schemas differ in definitions of some kind: any number were inserted and removed. -/
def DiffersIn (kind : TypeDefinition → Bool) : Document → Document → Prop :=
  Relation.EqvGen (Inserts kind)

variable {α : Type} {d d' : Document} {kind : TypeDefinition → Bool}

/-! ## What stays -/

/-- Definitions that are no object types leave the object types as they are. -/
theorem Inserts.objects_eq (inserts : d.Inserts kind d')
    (noObject : ∀ t, kind t = true → t.isObject = false) : d'.objects = d.objects := by
  cases inserts with
  | @insert before after t isKind =>
      have dropped : ¬ t.isObject = true := by simp [noObject t isKind]
      rw [objects, objects, List.filter_append, List.filter_cons_of_neg dropped,
        List.filter_append]

/-- Definitions without fields leave the fields as they are. -/
theorem Inserts.fieldDefinitions_eq (inserts : d.Inserts kind d')
    (noFields : ∀ t, kind t = true → t.fields = []) :
    d'.fieldDefinitions = d.fieldDefinitions := by
  cases inserts with
  | @insert before after t isKind =>
      simp [fieldDefinitions, noFields t isKind]

/-- What no insertion changes is the same in schemas that differ in insertions and removals. -/
theorem DiffersIn.view_eq {view : Document → α}
    (kept : ∀ d d' : Document, d.Inserts kind d' → view d' = view d)
    (differs : d.DiffersIn kind d') : view d' = view d := by
  induction differs with
  | rel d d' inserts => exact kept d d' inserts
  | refl d => rfl
  | symm d d' _ ih => exact ih.symm
  | trans d d' d'' _ _ first second => exact second.trans first

/-! ## What depends on it -/

/-- The cycles depend on the object types alone. -/
theorem cycleReport_congr (objects : d'.objects = d.objects) : d'.cycleReport = d.cycleReport := by
  rw [cycleReport, cycleReport, references, references, objects]

/-- The blast radii depend on the object types alone. -/
theorem blastAnalysis_congr (objects : d'.objects = d.objects) (policy : BlastPolicy) :
    d'.blastAnalysis policy = d.blastAnalysis policy := by
  rw [blastAnalysis, blastAnalysis, requiredReads, requiredReads, fieldTable, fieldTable, objects]

theorem fieldViolations_congr (fields : d'.fieldDefinitions = d.fieldDefinitions)
    (complaint? : TypeDefinition → FieldDefinition → Option String) :
    d'.fieldViolations complaint? = d.fieldViolations complaint? := by
  rw [fieldViolations, fieldViolations, fields]

theorem run_infallible_congr {name description : String} {weight : Float}
    {find : Document → List Violation} {message : List Violation → String}
    (found : find d' = find d) :
    (Rule.infallible name weight description find message).run d'
      = (Rule.infallible name weight description find message).run d := by
  simp only [Rule.run, Rule.infallible, found]

/-- The rules look at the definitions of object types and at the declared fields only. -/
theorem run_congr (objects : d'.objects = d.objects)
    (fields : d'.fieldDefinitions = d.fieldDefinitions) {keyLimit : Nat} {policy : BlastPolicy}
    {rule : Rule} (mem : rule ∈ battery keyLimit policy) : rule.run d' = rule.run d := by
  simp only [battery, List.mem_cons, List.not_mem_nil, or_false] at mem
  rcases mem with rfl | rfl | rfl | rfl | rfl | rfl | rfl | rfl | rfl
  · exact run_infallible_congr (fieldViolations_congr fields _)
  · apply run_infallible_congr
    rw [objects]
  · apply run_infallible_congr
    rw [cycleReport_congr objects]
  · simp only [Rule.run, Rule.nullBlastRadius, blastAnalysis_congr objects]
  · exact run_infallible_congr (fieldViolations_congr fields _)
  · apply run_infallible_congr
    rw [objects]
  · exact run_infallible_congr (fieldViolations_congr fields _)
  · exact run_infallible_congr (fieldViolations_congr fields _)
  · exact run_infallible_congr (fieldViolations_congr fields _)

/-- A report depends on the number of fields and on what the rules give. -/
theorem report_eq {rules : List Rule} (fields : d'.totalFields = d.totalFields)
    (runs : ∀ rule ∈ rules, rule.run d' = rule.run d) (details : ReportDetails) :
    d'.report rules details = d.report rules details := by
  have outcomes : (rules.map fun rule => (rule, rule.run d'))
      = rules.map fun rule => (rule, rule.run d) :=
    List.map_congr_left fun rule mem => congrArg (Prod.mk rule) (runs rule mem)
  rw [report, report, outcomes, fields]

/-- Scalars, unions, enums and input types change nothing, interfaces nothing in the analyses. -/
theorem ignores (d d' : Document) :
    (d.DiffersIn (fun t => !t.isObjectOrInterface) d' →
      d'.cycleReport = d.cycleReport ∧
      (∀ policy, d'.blastAnalysis policy = d.blastAnalysis policy) ∧
      d'.totalFields = d.totalFields ∧
      (∀ keyLimit policy, ∀ rule ∈ battery keyLimit policy, rule.run d' = rule.run d) ∧
      ∀ (settings : Settings) (details : ReportDetails),
        d'.report settings.activeRules details = d.report settings.activeRules details) ∧
    (d.DiffersIn (fun t => !t.isObject) d' →
      d'.cycleReport = d.cycleReport ∧
      ∀ policy, d'.blastAnalysis policy = d.blastAnalysis policy) := by
  have noObject : ∀ t : TypeDefinition, (!t.isObject) = true → t.isObject = false := by simp
  constructor
  · intro differs
    have objects : d'.objects = d.objects := differs.view_eq fun _ _ inserts => by
      apply inserts.objects_eq
      intro t other
      cases object : t.isObject with
      | false => rfl
      | true => simp [TypeDefinition.isObjectOrInterface_of_isObject object] at other
    have fields : d'.fieldDefinitions = d.fieldDefinitions :=
      differs.view_eq fun _ _ inserts => by
        apply inserts.fieldDefinitions_eq
        intro t other
        apply List.eq_nil_iff_forall_not_mem.2
        intro f declared
        simp [TypeDefinition.isObjectOrInterface_of_mem_fields declared] at other
    have total : d'.totalFields = d.totalFields := congrArg List.length fields
    refine ⟨cycleReport_congr objects, blastAnalysis_congr objects, total,
      fun _ _ _ mem => run_congr objects fields mem, fun settings details => ?_⟩
    apply report_eq total
    intro rule active
    exact run_congr objects fields (List.mem_filter.1 active).1
  · intro differs
    have objects : d'.objects = d.objects :=
      differs.view_eq fun _ _ inserts => inserts.objects_eq noObject
    exact ⟨cycleReport_congr objects, blastAnalysis_congr objects⟩

end Document

/-- Tickets that are in some phase and may be parts of others. -/
def ticket : TypeDefinition where
  name := ⟨"Ticket", by decide⟩
  body := .object
    [⟨⟨"phase", by decide⟩, .nonNull (.named ⟨"Phase", by decide⟩), [], .start⟩,
      ⟨⟨"whole", by decide⟩, .named ⟨"Ticket", by decide⟩, [], .start⟩]
  isExtension := false
  directives := []
  position := .start

/-- The phases of a ticket, whatever they are. -/
def phase (body : TypeBody) : TypeDefinition := ⟨⟨"Phase", by decide⟩, body, false, [], .start⟩

theorem ignores_tickets :
    let d : Document := ⟨[phase .union, ticket]⟩
    let d' : Document := ⟨[ticket, phase .enum]⟩
    let d'' : Document := ⟨[ticket, phase (.interface ticket.fields)]⟩
    ticket.fields.map (fun f => f.type.base) = [⟨"Phase", by decide⟩, ⟨"Ticket", by decide⟩] ∧
      d.DiffersIn (fun t => !t.isObjectOrInterface) d' ∧
      d'.cycleReport = d.cycleReport ∧
      (∀ (settings : Settings) (details : ReportDetails),
        d'.report settings.activeRules details = d.report settings.activeRules details) ∧
      d.DiffersIn (fun t => !t.isObject) d'' ∧
      ∀ policy, d''.blastAnalysis policy = d.blastAnalysis policy := by
  intro d d' d''
  have removed (kind : TypeDefinition → Bool) (isKind : kind (phase .union) = true) :
      d.DiffersIn kind ⟨[ticket]⟩ := by
    have inserts : Document.Inserts kind ⟨[] ++ [ticket]⟩ ⟨[] ++ phase .union :: [ticket]⟩ :=
      .insert isKind
    exact .symm _ _ (.rel _ _ inserts)
  have inserted (kind : TypeDefinition → Bool) (body : TypeBody)
      (isKind : kind (phase body) = true) :
      Document.DiffersIn kind ⟨[ticket]⟩ ⟨[ticket, phase body]⟩ := by
    have inserts : Document.Inserts kind ⟨[ticket] ++ []⟩ ⟨[ticket] ++ phase body :: []⟩ :=
      .insert isKind
    exact .rel _ _ inserts
  have differs : d.DiffersIn (fun t => !t.isObjectOrInterface) d' :=
    .trans _ _ _ (removed _ rfl) (inserted _ .enum rfl)
  have differs' : d.DiffersIn (fun t => !t.isObject) d'' :=
    .trans _ _ _ (removed _ rfl) (inserted _ (.interface ticket.fields) rfl)
  obtain ⟨cycles, _, _, _, reports⟩ := (d.ignores d').1 differs
  obtain ⟨_, blast⟩ := (d.ignores d'').2 differs'
  exact ⟨by decide, differs, cycles, reports, differs', blast⟩

end SchemaHealth
