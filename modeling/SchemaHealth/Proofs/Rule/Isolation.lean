import SchemaHealth.Rule.Battery
import SchemaHealth.Rule.Score
import Mathlib.Data.List.Forall2

/-!
# Rules that fail

A rule may fail, by an error or by a panic. The report then holds a failed result under its name, at
its place among the results (`Rule.gives_run`), and nothing else in the report can tell: what the
rules cost is summed over the results that are no failures (`totalCost_eq`), so the report without
the rules that failed has the other results and the same score (`Document.report_isolates`).
-/

namespace SchemaHealth

/-! ## Lists with some places left out -/

section Places

variable {α β : Type} {keep : Nat → Bool} {l : List α}

/-- What stands at the places to keep, in order. -/
def keptAt (keep : Nat → Bool) : List α → List α
  | [] => []
  | a :: l =>
    let rest := keptAt (fun i => keep (i + 1)) l
    if keep 0 then a :: rest else rest

theorem keptAt_map (f : α → β) (keep : Nat → Bool) (l : List α) :
    keptAt keep (l.map f) = (keptAt keep l).map f := by
  induction l generalizing keep with
  | nil => rfl
  | cons a l ih =>
      rw [List.map_cons, keptAt, keptAt, ih]
      cases keep 0 <;> rfl

/-- A filter does not see places that are left out when it discards what stands there. -/
theorem filter_keptAt {p : α → Bool}
    (dropped : ∀ (i : Nat) (a : α), l[i]? = some a → keep i = false → p a = false) :
    (keptAt keep l).filter p = l.filter p := by
  -- Behind the first element places count from one less, so `keep` changes with the list.
  induction l generalizing keep with
  | nil => rfl
  | cons a l ih =>
      have rest : (keptAt (fun i => keep (i + 1)) l).filter p = l.filter p :=
        ih fun i b place gone => dropped (i + 1) b place gone
      rw [keptAt]
      cases first : keep 0 with
      | true => simp only [if_true, List.filter_cons, rest]
      | false =>
          have discarded : p a = false := dropped 0 a rfl first
          rw [List.filter_cons_of_neg (by simp [discarded]), ← rest]
          rfl

end Places

/-! ## Results and costs -/

/-- What is kept of a rule that ran on a schema: its own result, or, if it came to nothing, that it
failed and why. -/
inductive Rule.Gives (rule : Rule) (d : Document) : RuleResult → Prop
  | own {result : RuleResult} : rule.check d = .ok result → Gives rule d result
  | failed {failure : RuleFailure} {result : RuleResult} : rule.check d = .error failure →
    result.rule = rule.name → result.findings = .count 0 → result.error = some failure.text →
    Gives rule d result

/-- A run of a rule gives what its check says, or the failure of the check. -/
theorem Rule.gives_run (rule : Rule) (d : Document) : rule.Gives d (rule.run d) := by
  cases outcome : rule.check d with
  | ok result =>
      rw [run, outcome]
      exact .own outcome
  | error failure =>
      rw [run, outcome]
      exact .failed outcome rfl rfl rfl

/-- The cost is summed over the results that are no failures, in order. -/
theorem totalCost_eq (outcomes : List (Rule × RuleResult)) :
    totalCost outcomes = (outcomes.filter fun outcome => !outcome.2.isFailure).foldl
      (fun total outcome => total + cost outcome.1.weight outcome.2.findings.size) 0 := by
  rw [totalCost, List.foldl_filter]
  refine List.foldl_ext _ _ _ fun total outcome _ => ?_
  cases outcome.2.isFailure <;> rfl

namespace Document

variable {d : Document} {rules : List Rule} {keep : Nat → Bool}

/-- A report has one result for each rule, in the order of the rules. -/
theorem results_report (d : Document) (rules : List Rule) (details : ReportDetails) :
    (d.report rules details).results = rules.map fun rule => rule.run d := by
  rw [report, List.map_map]
  rfl

/-- What relates every rule to its own result relates the rules of a report to its results. -/
theorem forall₂_results_report {R : Rule → RuleResult → Prop} {details : ReportDetails} :
    List.Forall₂ R rules (d.report rules details).results
      ↔ ∀ rule ∈ rules, R rule (rule.run d) := by
  rw [results_report, List.forall₂_map_right_iff, List.forall₂_same]

/-- Results that failed cost nothing, so leaving them out leaves the cost as it is. -/
theorem totalCost_keptAt
    (failing : ∀ (i : Nat) (rule : Rule), rules[i]? = some rule → keep i = false →
      (rule.run d).isFailure = true) :
    totalCost ((keptAt keep rules).map fun rule => (rule, rule.run d))
      = totalCost (rules.map fun rule => (rule, rule.run d)) := by
  rw [← keptAt_map, totalCost_eq, totalCost_eq, filter_keptAt]
  intro i outcome place gone
  rw [List.getElem?_map, Option.map_eq_some_iff] at place
  obtain ⟨rule, place, rfl⟩ := place
  rw [failing i rule place gone]
  rfl

/-- Every rule has its result in the report, and failing rules touch nothing else in it: neither the
cost nor the score, nor the results of other rules when they are left out. -/
theorem report_isolates (d : Document) (rules : List Rule) (details : ReportDetails) :
    let report := d.report rules details
    List.Forall₂ (fun rule result => rule.Gives d result) rules report.results ∧
    report.weightedViolations
      = ((rules.zip report.results).filter fun outcome => !outcome.2.isFailure).foldl
          (fun total outcome => total + cost outcome.1.weight outcome.2.findings.size) 0 ∧
    report.totalFields = .ofNat d.totalFields ∧
    report.score = scoreOf report.totalFields report.weightedViolations ∧
    ∀ keep : Nat → Bool,
      (∀ (i : Nat) (rule : Rule), rules[i]? = some rule → keep i = false →
        (rule.run d).isFailure = true) →
      let rest := d.report (keptAt keep rules) details
      rest.results = keptAt keep report.results ∧
        rest.weightedViolations = report.weightedViolations ∧
        rest.totalFields = report.totalFields ∧ rest.score = report.score := by
  intro report
  have results : report.results = rules.map fun rule => rule.run d := d.results_report rules details
  refine ⟨?_, ?_, rfl, rfl, fun keep failing => ?_⟩
  · rw [results, List.forall₂_map_right_iff]
    exact List.forall₂_same.2 fun rule _ => rule.gives_run d
  · rw [results, ← List.map_prod_left_eq_zip, ← totalCost_eq]
    rfl
  · have same := totalCost_keptAt failing
    refine ⟨?_, same, rfl, congrArg (scoreOf _) same⟩
    rw [results_report, results, keptAt_map]

end Document

/-- A rule that fails on every schema. -/
def brokenRule (name : String) (failure : RuleFailure) : Rule :=
  ⟨name, 10, "Fails", fun _ => .error failure⟩

/-- A shop that says with a wrong name whether it is open. -/
def shop : Document where
  types :=
    [ { name := ⟨"Shop", by decide⟩
        body := .object
          [⟨⟨"isOpen", by decide⟩, .named ⟨"Boolean", by decide⟩, [], .start⟩]
        isExtension := false
        directives := []
        position := .start } ]

theorem report_isolates_shop :
    let rules := [brokenRule "First" (.error "no settings"), Rule.booleanPrefix,
      brokenRule "Last" (.panic "out of range")]
    let details : ReportDetails := ⟨"", none, none⟩
    let report := shop.report rules details
    let rest := shop.report [Rule.booleanPrefix] details
    report.results.map (fun result => (result.rule, result.findings.size, result.error))
        = [("First", 0, some "no settings"), ("Boolean Prefix", 1, none),
          ("Last", 0, some "Panic: out of range")] ∧
      rest.weightedViolations = report.weightedViolations ∧ rest.score = report.score := by
  intro rules details report rest
  have failing : ∀ (i : Nat) (rule : Rule), rules[i]? = some rule → (i == 1) = false →
      (rule.run shop).isFailure = true := by
    rintro (_ | _ | _ | i) rule place gone
    · cases place
      rfl
    · cases gone
    · cases place
      rfl
    · cases place
  obtain ⟨_, _, _, _, isolated⟩ := shop.report_isolates rules details
  obtain ⟨_, cost, _, score⟩ := isolated (· == 1) failing
  exact ⟨by decide, cost, score⟩

end SchemaHealth
