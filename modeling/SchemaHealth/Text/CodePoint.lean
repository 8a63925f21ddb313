/-!
# Sets of code points

The character tables of this library are lists of code-point ranges, or of runs that take every
code point or every second one. Membership is a plain scan of the list.
-/

namespace SchemaHealth.Text

/-- Whether a code point lies in one of the given closed ranges. -/
def inRanges (ranges : List (Nat × Nat)) (n : Nat) : Bool :=
  ranges.any fun (first, last) => first ≤ n && n ≤ last

/-- Whether a code point lies on a run: from the first to the last code point, by the stride. -/
def inRun (run : Nat × Nat × Nat) (n : Nat) : Bool :=
  run.1 ≤ n && n ≤ run.2.1 && (n - run.1) % run.2.2 == 0

/-- Whether a code point lies on one of the given runs. -/
def inRuns (runs : List (Nat × Nat × Nat)) (n : Nat) : Bool :=
  runs.any fun run => inRun run n

theorem inRanges_iff {ranges : List (Nat × Nat)} {n : Nat} :
    inRanges ranges n ↔ ∃ range ∈ ranges, range.1 ≤ n ∧ n ≤ range.2 := by
  simp [inRanges]

end SchemaHealth.Text
