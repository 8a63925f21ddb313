import SchemaHealth.Proofs.Report.RoundTrip
import SchemaHealth.Render.ReportText
import Mathlib.Algebra.BigOperators.Group.List.Basic
import Mathlib.Algebra.GroupWithZero.Nat

/-!
# What a report for the terminal accounts for

Above the rules stands the number of all violations, then come the lines of each rule: one with its
count, the first of its violations, and a note on how many are left out.

* `RuleResult.accountedBy_lines`: the violations that are listed and those that are left out are as
  many as the count of the rule says.
* `Report.toNat_totalViolations`: the number above the rules is the sum of the counts up to a
  multiple of `UInt64.size`, since the counts are added as words.
* `ReportLine.showsNumbers`: the numbers that the lines give are the ones that are printed.
* `Report.lines_account`: all this for the layout as a whole. So the number above the rules is
  right just where the sum is a word.
-/

namespace SchemaHealth

open Render (painted)

/-! ## What lines say -/

namespace ReportLine

/-- The number of all violations, where a line gives it. -/
def total? : ReportLine → Option Nat
  | rules total => some total.toNat
  | _ => none

/-- The name, the count and the message of a rule, and whether it failed, if a line gives them. -/
def ruleLine? : ReportLine → Option (String × UInt64 × String × Bool)
  | rule name count message isFailure => some (name, count, message, isFailure)
  | _ => none

/-- The count of a rule, where a line gives it. -/
def count? (line : ReportLine) : Option Nat := line.ruleLine?.map fun said => said.2.1.toNat

/-- The place and the message of a violation, where a line gives them. -/
def listed? : ReportLine → Option (String × String)
  | violation place message => some (place, message)
  | _ => none

/-- How many violations a line says are left out. -/
def left : ReportLine → Nat
  | leftOut n => n
  | _ => 0

/-- The text of a line shows the numbers that the line gives: that of all violations behind the
title of the rules, the count of a rule behind its name, and how many violations are left out. -/
structure ShowsNumbers (line : ReportLine) : Prop where
  total : ∀ n, line.total? = some n →
    line.text = painted [.bold] "RULES" ++ " (" ++ toString n ++ " violations)\n"
  count : ∀ name count message isFailure,
    line.ruleLine? = some (name, count, message, isFailure) →
    line.text = "  " ++ mark count isFailure ++ " " ++ Text.padRight 20 name ++ " " ++
      Text.padLeft 4 (toString count.toNat) ++ "  " ++ painted [.dim] message ++ "\n"
  left : 0 < line.left → line.text
    = "      " ++ painted [.dim] ("...and " ++ toString line.left ++ " more (use --format json)") ++
      "\n"

/-- No line gives a number that its text does not show. -/
theorem showsNumbers (line : ReportLine) : line.ShowsNumbers where
  total n given := by
    cases line with
    | rules total =>
        cases given
        rfl
    | _ => cases given
  count name count message isFailure given := by
    cases line with
    | rule =>
        cases given
        rfl
    | _ => cases given
  left positive := by
    cases line with
    | leftOut n => rfl
    | _ => cases positive

end ReportLine

open ReportLine

/-! ## The lines of one rule -/

namespace RuleResult

/-- The line of a rule says this of its result. -/
def summary (r : RuleResult) : String × UInt64 × String × Bool :=
  (r.rule, r.findings.size, r.message, r.isFailure)

/-- Some lines account for the result of a rule: one line, the first, is about the rule, the first
violations are listed in order, and if the findings are itemised, then those listed and those left
out are as many as the count says. Of a bare count nothing more is said. -/
structure AccountedBy (r : RuleResult) (block : List ReportLine) : Prop where
  head : block.head?.bind ruleLine? = some r.summary
  summaries : block.filterMap ruleLine? = [r.summary]
  totals : block.filterMap total? = []
  listed : block.filterMap listed?
    = (r.findings.toList.take shown).map fun v => (v.location.place, v.message)
  counted : ∀ violations, r.findings = .items violations →
    (block.filterMap listed?).length + (block.map left).sum = r.findings.size.toNat
  bare : ∀ n, r.findings = .count n → block.length = 1

variable {violations : List Violation}

/-- The lines about violations list one each, or say how many are left out. -/
theorem mem_violationLines {line : ReportLine} (mem : line ∈ violationLines violations) :
    (∃ place message, line = .violation place message) ∨ ∃ n, line = .leftOut n := by
  rcases List.mem_append.1 mem with listed | note
  · obtain ⟨v, _, rfl⟩ := List.mem_map.1 listed
    exact .inl ⟨_, _, rfl⟩
  · split at note
    · exact .inr ⟨_, List.mem_singleton.1 note⟩
    · cases note

theorem summaries_lines (r : RuleResult) : r.lines.filterMap ruleLine? = [r.summary] := by
  have others : (violationLines r.findings.toList).filterMap ruleLine? = [] := by
    refine List.filterMap_eq_nil_iff.2 fun line mem => ?_
    obtain ⟨_, _, rfl⟩ | ⟨_, rfl⟩ := mem_violationLines mem <;> rfl
  have first : ruleLine? (.rule r.rule r.findings.size r.message r.isFailure) = some r.summary :=
    rfl
  rw [lines, List.filterMap_cons, first, others]

theorem totals_lines (r : RuleResult) : r.lines.filterMap total? = [] := by
  refine List.filterMap_eq_nil_iff.2 fun line mem => ?_
  rcases List.mem_cons.1 mem with rfl | later
  · rfl
  · obtain ⟨_, _, rfl⟩ | ⟨_, rfl⟩ := mem_violationLines later <;> rfl

/-- The first violations are listed in order, each with its place and its message. -/
theorem listed_lines (r : RuleResult) : r.lines.filterMap listed?
    = (r.findings.toList.take shown).map fun v => (v.location.place, v.message) := by
  have note : (if shown < r.findings.toList.length then
      [ReportLine.leftOut (r.findings.toList.length - shown)] else []).filterMap listed? = [] := by
    split <;> rfl
  rw [lines, List.filterMap_cons_none rfl, violationLines, List.filterMap_append, note,
    List.append_nil, List.filterMap_map, ← List.filterMap_eq_map]
  rfl

/-- The note says how many violations are not listed. -/
theorem sum_left_lines (r : RuleResult) :
    (r.lines.map left).sum = r.findings.toList.length - shown := by
  have listed : (((r.findings.toList.take shown).map fun v =>
      ReportLine.violation v.location.place v.message).map left).sum = 0 := by
    rw [List.map_map]
    exact List.sum_map_zero
  rw [lines, List.map_cons, List.sum_cons, violationLines, List.map_append, List.sum_append, listed]
  split
  next more => simp [left]
  next all => simp only [List.map_nil, List.sum_nil, left]; omega

/-- The lines of a rule account for its result, if its violations can be counted by a word. -/
theorem accountedBy_lines {r : RuleResult} (fits : r.findings.toList.length < UInt64.size) :
    r.AccountedBy r.lines where
  head := rfl
  summaries := r.summaries_lines
  totals := r.totals_lines
  listed := r.listed_lines
  counted violations items := by
    have size : r.findings.size.toNat = r.findings.toList.length := by
      rw [items] at fits ⊢
      exact UInt64.toNat_ofNat'.trans (Nat.mod_eq_of_lt fits)
    rw [r.listed_lines, r.sum_left_lines, size, List.length_map, List.length_take]
    omega
  bare n count := by
    rw [lines, count]
    rfl

end RuleResult

/-! ## The report as a whole -/

namespace Report

/-- Counts are added as words. -/
theorem toNat_foldl_size (results : List RuleResult) (start : UInt64) :
    (results.foldl (fun total result => total + result.findings.size) start).toNat
      = (start.toNat + (results.map fun result => result.findings.size.toNat).sum)
          % UInt64.size := by
  induction results generalizing start with
  | nil => exact (Nat.mod_eq_of_lt start.toNat_lt).symm
  | cons result results ih =>
      rw [List.foldl_cons, ih, UInt64.toNat_add, List.map_cons, List.sum_cons, ← Nat.add_assoc]
      exact Nat.mod_add_mod _ _ _

/-- The total is the sum of the counts up to a multiple of the number of words. -/
theorem toNat_totalViolations (r : Report) : r.totalViolations.toNat
    = (r.results.map fun result => result.findings.size.toNat).sum % UInt64.size := by
  rw [totalViolations, toNat_foldl_size, UInt64.toNat_zero, Nat.zero_add]

variable {r : Report}

theorem summaries_lines (r : Report) :
    r.lines.filterMap ruleLine? = r.results.map RuleResult.summary := by
  have rules : (r.results.flatMap RuleResult.lines).filterMap ruleLine?
      = r.results.map RuleResult.summary := by
    rw [List.filterMap_flatMap, ← List.flatMap_pure_eq_map]
    exact congrArg (r.results.flatMap ·) (funext RuleResult.summaries_lines)
  rw [lines, List.filterMap_append, List.filterMap_append, rules]
  exact List.append_nil _

theorem totals_lines (r : Report) : r.lines.filterMap total? = [r.totalViolations.toNat] := by
  have rules : (r.results.flatMap RuleResult.lines).filterMap total? = [] := by
    rw [List.filterMap_flatMap]
    exact List.flatMap_eq_nil_iff.2 fun result _ => result.totals_lines
  rw [lines, List.filterMap_append, List.filterMap_append, rules]
  rfl

/-- The counts that the lines give are those of the results. -/
theorem counts_lines (r : Report) : r.lines.filterMap count?
    = r.results.map fun result => result.findings.size.toNat := by
  have counts : r.lines.filterMap count?
      = (r.lines.filterMap ruleLine?).map fun said => said.2.1.toNat :=
    List.map_filterMap.symm
  rw [counts, summaries_lines, List.map_map]
  rfl

/-- The findings of every rule can be counted by a word. -/
def IsCountable (r : Report) : Prop :=
  ∀ result ∈ r.results, result.findings.toList.length < UInt64.size

/-- The number above the rules is the sum of the counts on the lines below up to a multiple of the
number of words; so it is the sum itself just where that is a word. Every rule has one line, in
order, and its lines account for its result. The report is printed line by line, and each line
shows its numbers. -/
theorem lines_account (r : Report) (countable : r.IsCountable) :
    r.lines.filterMap total? = [(r.lines.filterMap count?).sum % UInt64.size] ∧
    (r.lines.filterMap total? = [(r.lines.filterMap count?).sum]
      ↔ (r.lines.filterMap count?).sum < UInt64.size) ∧
    r.lines.filterMap ruleLine? = r.results.map RuleResult.summary ∧
    ∃ blocks, r.lines = [.heading r.subgraph,
        .figures r.score r.grade r.totalFields r.weightedViolations, .rules r.totalViolations]
          ++ blocks.flatten ++ [.blank] ∧
      List.Forall₂ RuleResult.AccountedBy r.results blocks ∧
    r.text = String.join (r.lines.map ReportLine.text) ∧
    ∀ line ∈ r.lines, line.ShowsNumbers := by
  have total : r.lines.filterMap total? = [(r.lines.filterMap count?).sum % UInt64.size] := by
    rw [totals_lines, toNat_totalViolations, counts_lines]
  refine ⟨total, ?_, r.summaries_lines, r.results.map RuleResult.lines, ?_, ?_, rfl,
    fun line _ => line.showsNumbers⟩
  · rw [total, List.singleton_inj]
    exact Nat.mod_eq_iff_lt (by decide)
  · rw [← List.flatMap_def]
    rfl
  · rw [List.forall₂_map_right_iff, List.forall₂_same]
    exact fun result mem => RuleResult.accountedBy_lines (countable result mem)

end Report

/-! ## A total that is no word -/

/-- A report of which the counts add up to more than a word holds. -/
def flooded : Report where
  timestamp := "2025-01-01T00:00:00.000Z"
  subgraph := none
  score := 0
  totalFields := 9
  weightedViolations := 0
  results := [⟨"cycles", .count 18446744073709551615, "Found", none⟩,
    .ofViolations "naming" (List.replicate 6 ⟨"Bad name", .unknown⟩) "Found"]
  metadata := none

/-- The report can be read from JSON. Its counts add up to `2 ^ 64 + 5`, and yet the number above
the rules is 5. -/
theorem total_overflows :
    Report.ofJson? flooded.toJson = some flooded ∧
    (flooded.lines.filterMap count?).sum = 18446744073709551621 ∧
    flooded.lines.filterMap total? = [5] ∧
    (ReportLine.rules flooded.totalViolations).text = "\x1b[1mRULES\x1b[0m (5 violations)\n" :=
  ⟨flooded.ofJson?_toJson (by decide) (by decide), by decide, by decide, by decide +kernel⟩

theorem lines_account_flooded :
    flooded.IsCountable ∧
    flooded.lines.filterMap total? = [(flooded.lines.filterMap count?).sum % UInt64.size] ∧
    flooded.lines.filterMap ruleLine? = flooded.results.map RuleResult.summary := by
  have countable : flooded.IsCountable := by
    intro result mem
    rcases List.mem_pair.1 mem with rfl | rfl <;> decide
  have account := flooded.lines_account countable
  exact ⟨countable, account.1, account.2.2.1⟩

end SchemaHealth
