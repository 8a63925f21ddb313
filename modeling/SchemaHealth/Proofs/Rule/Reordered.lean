import SchemaHealth.Proofs.Schema.Reordered
import SchemaHealth.Rule.Score
import SchemaHealth.Settings.Basic

/-!
# Rules and the order of declarations

On a schema with its declarations in another order, every rule but the one on cycles finds the same,
maybe in another order (`Document.Reordered.run_agrees`). Rules look at the definitions one by one,
and the rule on blast radii at what an analysis says field by field.

Where all rules agree, so do the costs and the score (`Document.report_congr`). So the order of
declarations matters to the cycles alone (`Document.reports_reordered`).
-/

namespace SchemaHealth

/-! ## Results that agree -/

/-- The same outcome of the same rule, with the same findings in some order. -/
structure RuleResult.Agrees (r s : RuleResult) : Prop where
  rule : r.rule = s.rule
  violations : r.findings.toList.Perm s.findings.toList
  size : r.findings.size = s.findings.size
  error : r.error = s.error

namespace RuleResult

theorem Agrees.refl (r : RuleResult) : r.Agrees r := ⟨rfl, .refl _, rfl, rfl⟩

/-- Results with the same violations in another order agree. -/
theorem agrees_ofViolations {vs ws : List Violation} (perm : vs.Perm ws)
    (rule message message' : String) :
    (ofViolations rule vs message).Agrees (ofViolations rule ws message') where
  rule := rfl
  violations := perm
  size := congrArg UInt64.ofNat perm.length_eq
  error := rfl

end RuleResult

theorem Rule.agrees_infallible {d d' : Document} {name description : String} {weight : Float}
    {find : Document → List Violation} {message : List Violation → String}
    (perm : (find d').Perm (find d)) :
    ((infallible name weight description find message).run d').Agrees
      ((infallible name weight description find message).run d) :=
  RuleResult.agrees_ofViolations perm name _ _

/-! ## The rules on a schema in another order -/

namespace Document

variable {d d' : Document}

theorem fieldViolations_eq (d : Document) (complaint? : FieldDefinition → Option String) :
    d.fieldViolations (fun _ f => complaint? f) = d.types.flatMap fun t =>
      t.fields.filterMap fun f => (complaint? f).map fun message => ⟨message, f.location t⟩ := by
  rw [fieldViolations, fieldDefinitions, List.filterMap_flatMap]
  simp only [List.filterMap_map, Function.comp_def]

namespace Reordered

/-- Reordering a schema only reorders the violations of a rule on fields. -/
theorem fieldViolations_perm (reordered : d.Reordered d')
    (complaint? : FieldDefinition → Option String) :
    (d'.fieldViolations fun _ f => complaint? f).Perm
      (d.fieldViolations fun _ f => complaint? f) := by
  rw [fieldViolations_eq, fieldViolations_eq]
  refine ReorderedTypes.flatMap_perm reordered fun t t' paired => ?_
  simp only [FieldDefinition.location, paired.name]
  exact paired.fields_perm.filterMap _

theorem run_problemUnion (reordered : d.Reordered d') :
    (Rule.problemUnion.run d').Agrees (Rule.problemUnion.run d) := by
  refine Rule.agrees_infallible ?_
  have mutations := reordered.objects.filter (p := fun t => t.name.text = "Mutation")
    fun t t' paired => by rw [paired.name]
  refine mutations.flatMap_perm fun t t' paired => ?_
  simp only [FieldDefinition.location, paired.name]
  exact (paired.fields_perm.filter _).map _

theorem run_compositeKeys (reordered : d.Reordered d') (limit : Nat) :
    ((Rule.compositeKeys limit).run d').Agrees ((Rule.compositeKeys limit).run d) := by
  refine Rule.agrees_infallible ?_
  have crowded := reordered.objects.filter (p := fun t => limit < t.directiveCount "key")
    fun t t' paired => by rw [paired.directiveCount_eq]
  rw [List.map_eq_flatMap, List.map_eq_flatMap]
  refine crowded.flatMap_perm fun t t' paired => ?_
  rw [paired.name, paired.position, paired.directiveCount_eq]

theorem run_nullBlastRadius (reordered : d.Reordered d') (once : d.DeclaresOnce)
    (policy : BlastPolicy) :
    ((Rule.nullBlastRadius policy).run d').Agrees ((Rule.nullBlastRadius policy).run d) := by
  -- The policy alone decides whether the check fails.
  cases valid : policy.validate with
  | error failure =>
      have same : (Rule.nullBlastRadius policy).run d' = (Rule.nullBlastRadius policy).run d := by
        simp only [Rule.run, Rule.nullBlastRadius, valid]
      rw [same]
      exact .refl _
  | ok _ =>
      simp only [Rule.run, Rule.nullBlastRadius, valid]
      have found := (reordered.blastAnalysis once policy).violations
      exact RuleResult.agrees_ofViolations (found.map _) _ _ _

/-- Every rule but the one on cycles finds the same. -/
theorem run_agrees (reordered : d.Reordered d') (once : d.DeclaresOnce) {keyLimit : Nat}
    {policy : BlastPolicy} {rule : Rule} (mem : rule ∈ battery keyLimit policy)
    (other : rule.name ≠ Rule.cycleCounter.name) : (rule.run d').Agrees (rule.run d) := by
  simp only [battery, List.mem_cons, List.not_mem_nil, or_false] at mem
  rcases mem with rfl | rfl | rfl | rfl | rfl | rfl | rfl | rfl | rfl
  · exact Rule.agrees_infallible (reordered.fieldViolations_perm _)
  · exact reordered.run_compositeKeys keyLimit
  · exact absurd rfl other
  · exact reordered.run_nullBlastRadius once policy
  · exact Rule.agrees_infallible (reordered.fieldViolations_perm _)
  · exact reordered.run_problemUnion
  · exact Rule.agrees_infallible (reordered.fieldViolations_perm _)
  · exact Rule.agrees_infallible (reordered.fieldViolations_perm _)
  · exact Rule.agrees_infallible (reordered.fieldViolations_perm _)

end Reordered

/-! ## Reports -/

/-- Results that agree cost the same. -/
theorem totalCost_congr {rules : List Rule}
    (agree : ∀ rule ∈ rules, (rule.run d').Agrees (rule.run d)) :
    totalCost (rules.map fun rule => (rule, rule.run d'))
      = totalCost (rules.map fun rule => (rule, rule.run d)) := by
  rw [totalCost, totalCost, List.foldl_map, List.foldl_map]
  refine List.foldl_ext _ _ _ fun total rule mem => ?_
  have same := agree rule mem
  have failure : (rule.run d').isFailure = (rule.run d).isFailure := by
    rw [RuleResult.isFailure, RuleResult.isFailure, same.error]
  rw [failure, same.size]

/-- Schemas with as many fields, on which all rules agree, get the same score. -/
theorem report_congr {rules : List Rule} (fields : d'.totalFields = d.totalFields)
    (agree : ∀ rule ∈ rules, (rule.run d').Agrees (rule.run d)) (details : ReportDetails) :
    (d'.report rules details).totalFields = (d.report rules details).totalFields ∧
      (d'.report rules details).weightedViolations
        = (d.report rules details).weightedViolations ∧
      (d'.report rules details).score = (d.report rules details).score := by
  have cost := totalCost_congr agree
  simp only [report, fields, cost, and_self]

/-- Where no field is declared twice, the order of declarations matters to the cycles alone. -/
theorem reports_reordered (once : d.DeclaresOnce) (reordered : d.Reordered d') :
    d'.cycleReport.groups = d.cycleReport.groups ∧
    (d'.cycleReport.cycles = [] ↔ d.cycleReport.cycles = []) ∧
    (∀ policy, (d'.blastAnalysis policy).Agrees (d.blastAnalysis policy)) ∧
    (∀ keyLimit policy, ∀ rule ∈ battery keyLimit policy, rule.name ≠ Rule.cycleCounter.name →
      (rule.run d').Agrees (rule.run d)) ∧
    ∀ settings : Settings, settings.isEnabled Rule.cycleCounter.name = false → ∀ details,
      let report := d.report settings.activeRules details
      let report' := d'.report settings.activeRules details
      report'.totalFields = report.totalFields ∧
        report'.weightedViolations = report.weightedViolations ∧
        report'.score = report.score := by
  refine ⟨reordered.groups_eq, reordered.cycles_eq_nil_iff, reordered.blastAnalysis once,
    fun _ _ _ mem other => reordered.run_agrees once mem other, fun settings off details => ?_⟩
  refine report_congr reordered.totalFields_eq (fun rule active => ?_) details
  obtain ⟨mem, enabled⟩ := List.mem_filter.1 active
  refine reordered.run_agrees once mem fun counter => ?_
  rw [counter, off] at enabled
  cases enabled

end Document

/-- An object type with required fields, each with its type. -/
def requiring (name : Name) (fields : List (Name × Name)) : TypeDefinition where
  name := name
  body := .object (fields.map fun (field, type) => ⟨field, .nonNull (.named type), [], .start⟩)
  isExtension := false
  directives := []
  position := .start

/-- Three types in a circle, with a way past the second one. -/
def circle : Document where
  types :=
    [requiring ⟨"X", by decide⟩
        [(⟨"y", by decide⟩, ⟨"Y", by decide⟩), (⟨"z", by decide⟩, ⟨"Z", by decide⟩)],
      requiring ⟨"Y", by decide⟩ [(⟨"z", by decide⟩, ⟨"Z", by decide⟩)],
      requiring ⟨"Z", by decide⟩ [(⟨"x", by decide⟩, ⟨"X", by decide⟩)]]

/-- The same with the way past the second type declared first. -/
def circlePast : Document where
  types :=
    [requiring ⟨"X", by decide⟩
        [(⟨"z", by decide⟩, ⟨"Z", by decide⟩), (⟨"y", by decide⟩, ⟨"Y", by decide⟩)],
      requiring ⟨"Z", by decide⟩ [(⟨"x", by decide⟩, ⟨"X", by decide⟩)],
      requiring ⟨"Y", by decide⟩ [(⟨"z", by decide⟩, ⟨"Z", by decide⟩)]]

theorem reordered_circle : circle.Reordered circlePast := by
  refine ⟨_, (List.Perm.swap _ _ []).cons _, .cons ?_ (.cons ?_ (.cons ?_ .nil))⟩
  · exact ⟨rfl, .object (.swap _ _ _), rfl, rfl, rfl⟩
  · exact ⟨rfl, .object (.refl _), rfl, rfl, rfl⟩
  · exact ⟨rfl, .object (.refl _), rfl, rfl, rfl⟩

theorem reports_reordered_circle :
    let settings := Settings.standard.disable "Cycle Counter"
    circle.DeclaresOnce ∧ circle.Reordered circlePast ∧
      circle.cycleReport.cycles = [⟨["X", "Y", "Z", "X"]⟩] ∧
      circlePast.cycleReport.cycles = [⟨["X", "Z", "X"]⟩] ∧
      circlePast.cycleReport.groups = circle.cycleReport.groups ∧
      settings.isEnabled "Cycle Counter" = false ∧
      ∀ details, (circlePast.report settings.activeRules details).score
        = (circle.report settings.activeRules details).score := by
  intro settings
  have once : circle.DeclaresOnce := by unfold Document.DeclaresOnce; decide
  have off : settings.isEnabled "Cycle Counter" = false := Settings.standard.isEnabled_disable _
  obtain ⟨groups, _, _, _, reports⟩ := Document.reports_reordered once reordered_circle
  refine ⟨once, reordered_circle, by cbv, by cbv, groups, off, fun details => ?_⟩
  exact (reports settings off details).2.2

end SchemaHealth
