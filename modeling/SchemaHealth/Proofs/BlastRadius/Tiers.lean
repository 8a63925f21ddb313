import SchemaHealth.BlastRadius.Analysis
import Mathlib.Data.List.Forall2

/-!
# Objections, statistics and tiers

A result of a blast-radius analysis records a tier. The objections to the results and the statistics
are worked out on their own; `BlastAnalysis.consistent_ofGraph` says that they agree with the tiers,
for every graph and whatever the thresholds.
-/

namespace SchemaHealth

/-! ## Lists taken from lists -/

section Lists

variable {α β : Type} {R : α → β → Prop} {f : β → Option α} {p : α → Bool} {q : β → Bool}
  {xs : List α} {ys : List β}

theorem forall₂_filterMap (related : ∀ b ∈ ys, ∀ a, f b = some a → R a b)
    (same : ∀ b ∈ ys, (f b).isSome = q b) : List.Forall₂ R (ys.filterMap f) (ys.filter q) := by
  induction ys with
  | nil => exact .nil
  | cons b ys ih =>
      have rest := ih (fun b' mem => related b' (List.mem_cons_of_mem _ mem))
        (fun b' mem => same b' (List.mem_cons_of_mem _ mem))
      have here := same b List.mem_cons_self
      cases taken : f b with
      | none =>
          rw [taken] at here
          rwa [List.filterMap_cons_none taken, List.filter_cons_of_neg (by simp [← here])]
      | some a =>
          rw [taken] at here
          rw [List.filterMap_cons_some taken, List.filter_cons_of_pos here.symm]
          exact .cons (related b List.mem_cons_self a taken) rest

/-- Lists that are related one for one hold as many items with a property that the relation
keeps. -/
theorem countP_eq_of_forall₂ (related : List.Forall₂ R xs ys) (same : ∀ a b, R a b → p a = q b) :
    xs.countP p = ys.countP q := by
  induction related with
  | nil => rfl
  | cons head _ ih => rw [List.countP_cons, List.countP_cons, ih, same _ _ head]

/-- The largest number of a list, zero if there is none. -/
def IsLargest (n : Nat) (l : List Nat) : Prop := (∀ m ∈ l, m ≤ n) ∧ (n ∈ l ∨ l = [] ∧ n = 0)

/-- A running maximum ends with the largest number. -/
theorem isLargest_foldl_max (l : List Nat) : IsLargest (l.foldl max 0) l := by
  rw [List.foldl_max, Nat.zero_max]
  cases found : l.max? with
  | none =>
      rw [List.max?_eq_none_iff] at found
      rw [found]
      exact ⟨fun m mem => absurd mem List.not_mem_nil, .inr ⟨rfl, rfl⟩⟩
  | some n =>
      obtain ⟨mem, bound⟩ := List.max?_eq_some_iff.1 found
      exact ⟨bound, .inl mem⟩

end Lists

/-! ## Tiers -/

namespace BlastPolicy

variable {policy : BlastPolicy} {radius : Nat}

/-- A radius is critical from the maximum on. -/
theorem severity_eq_critical_iff :
    policy.severity radius = .critical ↔ policy.maxRadius ≤ radius := by
  unfold severity
  by_cases critical : policy.maxRadius ≤ radius
  · simp [critical]
  · by_cases warning : policy.warningRadius ≤ radius <;> simp [critical, warning]

/-- A radius is a warning from the warning threshold up to the maximum. -/
theorem severity_eq_warning_iff : policy.severity radius = .warning
    ↔ ¬ policy.maxRadius ≤ radius ∧ policy.warningRadius ≤ radius := by
  unfold severity
  by_cases critical : policy.maxRadius ≤ radius
  · simp [critical]
  · by_cases warning : policy.warningRadius ≤ radius <;> simp [critical, warning]

end BlastPolicy

/-- Every tier is counted once. -/
theorem SeverityCounts.sum_of (tiers : List Severity) :
    (of tiers).critical + (of tiers).warning + (of tiers).info = tiers.length := by
  unfold of
  induction tiers with
  | nil => rfl
  | cons tier tiers ih =>
      rw [List.length_cons, ← ih]
      cases tier <;> simp <;> omega

/-- Critical fields are objectionable, and warnings on a critical path. -/
def BlastResult.isObjectionable (r : BlastResult) : Bool :=
  r.severity = .critical ∨ r.severity = .warning ∧ r.onCriticalPath

theorem BlastResult.isObjectionable_eq (r : BlastResult) : r.isObjectionable =
    match r.severity with
    | .critical => true
    | .warning => r.onCriticalPath
    | .info => false := by
  unfold isObjectionable
  cases r.severity <;> simp

/-- The objection is to the field of a result and repeats its radius and its tier. -/
structure BlastViolation.Repeats (v : BlastViolation) (r : BlastResult) : Prop where
  field : v.field = r.field
  radius : v.radius = r.radius
  severity : v.severity = r.severity

/-- A result records the tier of its radius, and whether its field is on a critical path. -/
structure BlastResult.Records (policy : BlastPolicy) (r : BlastResult) : Prop where
  severity : r.severity = policy.severity r.radius
  onCriticalPath : r.onCriticalPath = policy.isCriticalPath r.field

namespace BlastAnalysis

variable {g : Graph} {policy : BlastPolicy} {r : BlastResult} {v : BlastViolation}
  {results : List BlastResult}

/-- A result is objectionable by its radius: from the maximum on, or from the warning threshold on
if it is on a critical path. -/
theorem isObjectionable_iff (records : r.Records policy) : r.isObjectionable = true
    ↔ policy.maxRadius ≤ r.radius ∨ policy.warningRadius ≤ r.radius ∧ r.onCriticalPath = true := by
  rw [BlastResult.isObjectionable, decide_eq_true_iff, records.severity,
    BlastPolicy.severity_eq_critical_iff, BlastPolicy.severity_eq_warning_iff]
  tauto

/-- There is an objection to just the objectionable results. -/
theorem isSome_objection? (records : r.Records policy) :
    (objection? policy r).isSome = r.isObjectionable := by
  rw [Bool.eq_iff_iff, isObjectionable_iff records, objection?]
  split
  next critical => simp [critical]
  next small =>
    split
    next warning => simp [warning]
    next fine => simpa [small] using fine

/-- An objection repeats the radius and the tier of its result. -/
theorem repeats_of_objection? (records : r.Records policy)
    (objection : objection? policy r = some v) : v.Repeats r := by
  unfold objection? at objection
  split at objection
  next critical =>
    cases objection
    have tier := BlastPolicy.severity_eq_critical_iff.2 critical
    exact ⟨rfl, rfl, (records.severity.trans tier).symm⟩
  next small =>
    split at objection
    next warning =>
      cases objection
      have tier := BlastPolicy.severity_eq_warning_iff.2 ⟨small, warning.1⟩
      exact ⟨rfl, rfl, (records.severity.trans tier).symm⟩
    next => cases objection

/-- The objections are to the objectionable results, in their order. -/
theorem forall₂_objections (records : ∀ r ∈ results, r.Records policy) :
    List.Forall₂ (fun v r => r ∈ results ∧ v.Repeats r) (results.filterMap (objection? policy))
      (results.filter BlastResult.isObjectionable) :=
  forall₂_filterMap
    (fun r mem _ objection => ⟨mem, repeats_of_objection? (records r mem) objection⟩)
    fun r mem => isSome_objection? (records r mem)

/-- The objections in a tier are as many as the objectionable results in it. -/
theorem count_objections (records : ∀ r ∈ results, r.Records policy) (tier : Severity) :
    ((results.filterMap (objection? policy)).map (·.severity)).count tier
      = results.countP fun r => r.severity == tier && r.isObjectionable := by
  rw [List.count, List.countP_map, ← List.countP_filter]
  refine countP_eq_of_forall₂ (forall₂_objections records) fun v r both => ?_
  rw [Function.comp_apply, both.2.severity]

/-- The objections on critical paths are as many as the objectionable results on them. -/
theorem countP_onCriticalPath (records : ∀ r ∈ results, r.Records policy) :
    ((results.filterMap (objection? policy)).countP fun v =>
        results.any fun r => r.field = v.field ∧ r.onCriticalPath)
      = results.countP fun r => r.onCriticalPath && r.isObjectionable := by
  rw [← List.countP_filter]
  refine countP_eq_of_forall₂ (forall₂_objections records) fun v r both => ?_
  obtain ⟨mem, repeats⟩ := both
  rw [Bool.eq_iff_iff, List.any_eq_true]
  simp only [decide_eq_true_eq, repeats.field]
  constructor
  · rintro ⟨other, mem', same, onPath⟩
    rw [(records other mem').onCriticalPath, same] at onPath
    rwa [(records r mem).onCriticalPath]
  · exact fun onPath => ⟨r, mem, rfl, onPath⟩

/-! ## The whole analysis -/

/-- The parts of an analysis agree with the tiers that are recorded. -/
structure Consistent (policy : BlastPolicy) (a : BlastAnalysis) : Prop where
  nodup : (a.results.map (·.field)).Nodup
  records : ∀ r ∈ a.results, r.Records policy
  violations : List.Forall₂ BlastViolation.Repeats a.violations
    (a.results.filter BlastResult.isObjectionable)
  total : a.summary.totalFields = a.results.length
  tiers : a.summary.fieldTiers.critical + a.summary.fieldTiers.warning + a.summary.fieldTiers.info
    = a.summary.totalFields
  critical : a.summary.violationTiers.critical = a.summary.fieldTiers.critical
  warning : a.summary.violationTiers.warning
    = a.results.countP fun r => r.severity = .warning ∧ r.onCriticalPath
  info : a.summary.violationTiers.info = 0
  onCriticalPath : a.summary.criticalPathsAffected
    = a.results.countP fun r => r.onCriticalPath && r.isObjectionable
  largest : IsLargest a.summary.maxRadius (a.results.map (·.radius))

theorem records_measure (field : String) : (measure g policy field).Records policy := ⟨rfl, rfl⟩

/-- The objections and the statistics of an analysis agree with the tiers of its results, whatever
the graph and the thresholds. There is one objection for each critical field and for each warning
on a critical path, in the order of the results, and every number of the summary counts what its
name says. -/
theorem consistent_ofGraph (g : Graph) (policy : BlastPolicy) :
    (ofGraph g policy).Consistent policy := by
  have records : ∀ r ∈ g.nodes.map (measure g policy), r.Records policy := by
    intro r mem
    obtain ⟨field, _, rfl⟩ := List.mem_map.1 mem
    exact records_measure field
  have fields : (g.nodes.map (measure g policy)).map (·.field) = g.nodes := by
    rw [List.map_map]
    exact List.map_id _
  constructor
  case nodup =>
    show ((g.nodes.map (measure g policy)).map (·.field)).Nodup
    rw [fields]
    exact g.nodup_nodes
  case records => exact records
  case violations => exact (forall₂_objections records).imp fun _ _ both => both.2
  case total => rfl
  case tiers => exact (SeverityCounts.sum_of _).trans (List.length_map _)
  case critical =>
    have fieldTier : (ofGraph g policy).summary.fieldTiers.critical
        = (g.nodes.map (measure g policy)).countP fun r => r.severity == .critical :=
      List.countP_map
    rw [fieldTier]
    refine (count_objections records .critical).trans (List.countP_congr fun r _ => ?_)
    rw [r.isObjectionable_eq]
    cases r.severity <;> simp
  case warning =>
    refine (count_objections records .warning).trans (List.countP_congr fun r _ => ?_)
    rw [r.isObjectionable_eq]
    cases r.severity <;> simp
  case info =>
    refine (count_objections records .info).trans (List.countP_eq_zero.2 fun r _ => ?_)
    rw [r.isObjectionable_eq]
    cases r.severity <;> simp
  case onCriticalPath => exact countP_onCriticalPath records
  case largest => exact isLargest_foldl_max _

end BlastAnalysis

/-- Four fields, each of which but the last is read through the next. -/
def readChain : Graph :=
  (((Graph.empty.addEdge "A.b" "B.c").addEdge "B.c" "C.d").addEdge "C.d" "D.value").addNode
    "D.value"

/-- Of the two warnings in the chain only the one on the critical path is objected to. -/
theorem consistent_ofGraph_readChain :
    let a := BlastAnalysis.ofGraph readChain ⟨4, 2, ["C."]⟩
    a.results.map (fun r => (r.field, r.radius, r.severity)) =
        [("A.b", 4, .critical), ("B.c", 3, .warning), ("C.d", 2, .warning),
          ("D.value", 1, .info)] ∧
      a.violations.map (·.field) = ["A.b", "C.d"] ∧ a.summary.violationTiers = ⟨1, 1, 0⟩ ∧
      a.summary.criticalPathsAffected = 1 ∧ a.summary.maxRadius = 4 := by
  intro a
  have rows : readChain.rows = [("A.b", ["B.c"]), ("B.c", ["C.d"]), ("C.d", ["D.value"]),
      ("D.value", [])] := by decide
  have results : a.results = [
      ⟨"A.b", ["A.b", "B.c", "C.d", "D.value"], .critical, false⟩,
      ⟨"B.c", ["B.c", "C.d", "D.value"], .warning, false⟩,
      ⟨"C.d", ["C.d", "D.value"], .warning, true⟩, ⟨"D.value", ["D.value"], .info, false⟩] := by
    simp [a, BlastAnalysis.ofGraph, BlastAnalysis.measure, Graph.nodes, Graph.reach,
      Graph.reachFrom, Graph.walk, Visited.contains_eq_decide, Graph.Table.targets_eq_targets,
      Graph.targets, Graph.targets?, Graph.listed?, rows, BlastPolicy.severity,
      BlastPolicy.isCriticalPath]
    decide
  have consistent := BlastAnalysis.consistent_ofGraph readChain ⟨4, 2, ["C."]⟩
  have objected : a.violations.map (·.field)
      = (a.results.filter BlastResult.isObjectionable).map (·.field) := by
    rw [← List.forall₂_eq_eq_eq, List.forall₂_map_left_iff, List.forall₂_map_right_iff]
    exact consistent.violations.imp fun _ _ repeats => repeats.field
  have tiers : a.summary.violationTiers =
      ⟨(SeverityCounts.of (a.results.map (·.severity))).critical,
        a.results.countP fun r => r.severity = .warning ∧ r.onCriticalPath, 0⟩ := by
    have fieldTiers : SeverityCounts.of (a.results.map (·.severity)) = a.summary.fieldTiers := rfl
    rw [fieldTiers, ← consistent.critical, ← consistent.warning, ← consistent.info]
  have largest : IsLargest a.summary.maxRadius [4, 3, 2, 1] := by
    have radii : a.results.map (·.radius) = [4, 3, 2, 1] := by rw [results]; rfl
    rw [← radii]
    exact consistent.largest
  have affected := consistent.onCriticalPath
  rw [results] at objected tiers affected ⊢
  refine ⟨rfl, objected, tiers, affected, ?_⟩
  obtain ⟨bound, mem | ⟨none, -⟩⟩ := largest
  · have least := bound 4 (by decide)
    simp only [List.mem_cons, List.not_mem_nil, or_false] at mem
    omega
  · cases none

end SchemaHealth
