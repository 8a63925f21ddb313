import SchemaHealth.Proofs.BlastRadius.Monotone
import SchemaHealth.Proofs.BlastRadius.Projection

/-!
# Findings spread to the fields before them

Every field of an analysis is measured by a walk of its own, which knows nothing of the others. The
measures fit together all the same, whatever the graph and the thresholds: a field that affects
another one affects all that the other one affects (`BlastAnalysis.covers_measure`), and two fields
that affect each other affect the same fields (`BlastAnalysis.perm_affected`). So a critical finding
makes a critical finding of every field that affects it (`BlastAnalysis.findings_spread`).
-/

namespace SchemaHealth

/-- One result counts all that another one does, and so is in no lower tier. -/
structure BlastResult.Covers (r r' : BlastResult) : Prop where
  affected : r'.affected ⊆ r.affected
  radius : r'.radius ≤ r.radius
  severity : r'.severity.rank ≤ r.severity.rank

/-- Nothing ranks above critical. -/
theorem Severity.eq_critical_of_rank_le {s : Severity} (le : critical.rank ≤ s.rank) :
    s = critical := by
  cases s with
  | info => exact absurd le (by decide)
  | warning => exact absurd le (by decide)
  | critical => rfl

theorem BlastPolicy.Tightened.refl (p : BlastPolicy) : p.Tightened p :=
  ⟨Nat.le_refl _, Nat.le_refl _, fun _ mem => mem⟩

namespace BlastAnalysis

variable {g : Graph} {policy : BlastPolicy} {r r' : BlastResult} {v : BlastViolation}

/-! ## Results of one graph -/

/-- Every result of an analysis is the measure of its field. -/
theorem eq_measure (mem : r ∈ (ofGraph g policy).results) : r = measure g policy r.field := by
  obtain ⟨x, _, rfl⟩ := List.mem_map.1 mem
  rfl

theorem records_of_mem_results (mem : r ∈ (ofGraph g policy).results) : r.Records policy := by
  rw [eq_measure mem]
  exact records_measure r.field

/-- A field that affects another one covers it. -/
theorem covers_measure {x y : String} (mem : y ∈ g.reach x) :
    (measure g policy x).Covers (measure g policy y) := by
  have affected : g.reach y ⊆ g.reach x := Graph.reach_subset_of_mem mem
  have radius : (g.reach y).length ≤ (g.reach x).length :=
    ((g.nodup_reach y).subperm affected).length_le
  exact ⟨affected, radius, (BlastPolicy.Tightened.refl policy).rank_severity_le radius⟩

/-- A field that affects another one covers it, when both are results of one analysis. -/
theorem covers_of_mem_affected (mem : r ∈ (ofGraph g policy).results)
    (mem' : r' ∈ (ofGraph g policy).results) (affects : r'.field ∈ r.affected) : r.Covers r' := by
  rw [eq_measure mem, eq_measure mem']
  rw [eq_measure mem] at affects
  exact covers_measure affects

/-- Fields that affect each other affect the same fields. -/
theorem perm_affected (mem : r ∈ (ofGraph g policy).results)
    (mem' : r' ∈ (ofGraph g policy).results) (affects : r'.field ∈ r.affected)
    (affects' : r.field ∈ r'.affected) : r'.affected.Perm r.affected := by
  have nodup : ∀ s ∈ (ofGraph g policy).results, s.affected.Nodup := by
    intro s listed
    rw [eq_measure listed]
    exact g.nodup_reach s.field
  have forward := (covers_of_mem_affected mem mem' affects).affected
  have backward := (covers_of_mem_affected mem' mem affects').affected
  exact (List.perm_ext_iff_of_nodup (nodup r' mem') (nodup r mem)).2 fun _ =>
    ⟨fun here => forward here, fun there => backward there⟩

/-! ## Critical objections -/

/-- The objection is to a result that repeats it. -/
theorem exists_result (mem : v ∈ (ofGraph g policy).violations) :
    ∃ r ∈ (ofGraph g policy).results, v.Repeats r := by
  obtain ⟨r, listed, objection⟩ := List.mem_filterMap.1 mem
  exact ⟨r, listed, repeats_of_objection? (records_of_mem_results listed) objection⟩

/-- Every critical field is objected to. -/
theorem exists_critical_objection (mem : r ∈ (ofGraph g policy).results)
    (critical : r.severity = .critical) :
    ∃ v ∈ (ofGraph g policy).violations, v.field = r.field ∧ v.severity = .critical := by
  have records := records_of_mem_results mem
  have objectionable : (objection? policy r).isSome = true := by
    rw [isSome_objection? records, BlastResult.isObjectionable_eq, critical]
  obtain ⟨v, objection⟩ := Option.isSome_iff_exists.1 objectionable
  have repeats := repeats_of_objection? records objection
  exact ⟨v, List.mem_filterMap.2 ⟨r, mem, objection⟩, repeats.field,
    repeats.severity.trans critical⟩

/-- A field that affects another one affects all that the other one does, and it is in no lower
tier; if each affects the other, the affected fields are the same, and so are radius and tier. Where
a field is critical, there is a critical objection to every field that affects it. -/
theorem findings_spread (g : Graph) (policy : BlastPolicy) :
    (∀ r ∈ (ofGraph g policy).results, ∀ r' ∈ (ofGraph g policy).results,
      r'.field ∈ r.affected → r.Covers r' ∧
        (r.field ∈ r'.affected →
          r'.affected.Perm r.affected ∧ r'.radius = r.radius ∧ r'.severity = r.severity)) ∧
    ∀ v ∈ (ofGraph g policy).violations, v.severity = .critical →
      ∀ r ∈ (ofGraph g policy).results, v.field ∈ r.affected →
        ∃ w ∈ (ofGraph g policy).violations, w.field = r.field ∧ w.severity = .critical := by
  refine ⟨fun r mem r' mem' affects => ?_, fun v mem critical r listed affects => ?_⟩
  · refine ⟨covers_of_mem_affected mem mem' affects, fun affects' => ?_⟩
    have perm := perm_affected mem mem' affects affects'
    have radius : r'.radius = r.radius := perm.length_eq
    refine ⟨perm, radius, ?_⟩
    rw [(records_of_mem_results mem').severity, (records_of_mem_results mem).severity, radius]
  · obtain ⟨r', listed', repeats⟩ := exists_result mem
    rw [repeats.field] at affects
    rw [repeats.severity] at critical
    have covers := covers_of_mem_affected listed listed' affects
    have tier : Severity.critical.rank ≤ r.severity.rank := critical ▸ covers.severity
    exact exists_critical_objection listed (Severity.eq_critical_of_rank_le tier)

end BlastAnalysis

/-- A user and an account that refer to each other, and a session that is read through the user. -/
def sessions : Graph :=
  ((Graph.empty.addEdge "U.account" "A.user").addEdge "A.user" "U.account").addEdge "S.user"
    "U.account"

theorem findings_spread_sessions :
    let analysis := BlastAnalysis.ofGraph sessions ⟨2, 3, []⟩
    let measured := BlastAnalysis.measure sessions ⟨2, 3, []⟩
    (measured "S.user").affected = ["S.user", "U.account", "A.user"] ∧
      (measured "U.account").affected = ["U.account", "A.user"] ∧
      (measured "S.user").Covers (measured "U.account") ∧
      (measured "A.user").affected.Perm (measured "U.account").affected ∧
      ∃ w ∈ analysis.violations, w.field = "S.user" ∧ w.severity = .critical := by
  intro analysis measured
  have rows : sessions.rows
      = [("U.account", ["A.user"]), ("A.user", ["U.account"]), ("S.user", ["U.account"])] := by cbv
  have affected : (measured "S.user").affected = ["S.user", "U.account", "A.user"] ∧
      (measured "U.account").affected = ["U.account", "A.user"] ∧
      (measured "A.user").affected = ["A.user", "U.account"] := by
    simp [measured, BlastAnalysis.measure, Graph.reach, Graph.reachFrom, Graph.walk,
      Visited.contains_eq_decide, Graph.Table.targets_eq_targets, Graph.targets, Graph.targets?,
      Graph.listed?, rows]
  obtain ⟨session, user, account⟩ := affected
  have listed : ∀ x ∈ ["U.account", "A.user", "S.user"], measured x ∈ analysis.results := by
    intro x mem
    refine List.mem_map_of_mem ?_
    rw [Graph.nodes, rows]
    exact mem
  have sessionListed := listed "S.user" (by decide)
  have userListed := listed "U.account" (by decide)
  have accountListed := listed "A.user" (by decide)
  have affects : "U.account" ∈ (measured "S.user").affected := by
    rw [session]
    decide
  have there : "A.user" ∈ (measured "U.account").affected := by
    rw [user]
    decide
  have back : "U.account" ∈ (measured "A.user").affected := by
    rw [account]
    decide
  have tier : (measured "U.account").severity = .critical := by
    rw [(BlastAnalysis.records_of_mem_results userListed).severity, BlastResult.radius, user]
    rfl
  obtain ⟨v, objected, field, severity⟩ :=
    BlastAnalysis.exists_critical_objection userListed tier
  obtain ⟨spread, critical⟩ := BlastAnalysis.findings_spread sessions ⟨2, 3, []⟩
  refine ⟨session, user, (spread _ sessionListed _ userListed affects).1,
    ((spread _ userListed _ accountListed there).2 back).1, ?_⟩
  refine critical v objected severity _ sessionListed ?_
  rw [field]
  exact affects

end SchemaHealth
