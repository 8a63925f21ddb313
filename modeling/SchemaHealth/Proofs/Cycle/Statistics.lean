import SchemaHealth.Cycle.Report
import SchemaHealth.Proofs.Cycle.Loops
import SchemaHealth.Proofs.DictionaryCounts

/-!
# What the statistics of a cycle report say

The statistics are gathered from the list of cycles one by one; here they are said of the list as a
whole and, where the search allows it, of the schema.

* `CycleSummary.countAt_byLength`, `CycleSummary.total_byLength`: the counts by length are those of
  the list and add up to its length. Those of length one are known from the schema alone.
* `CycleSummary.countAt_involvement`: a name counts once for each cycle that it is on and once more
  for each cycle that starts at it; these are the cycles of which it is the least name.
* `Cycle.isFirstBest_best`: the cycle shown as the longest or the shortest is the first such one.

`Document.cycleReport_statistics` puts them together.
-/

namespace SchemaHealth

variable {g : Graph} {cycles : List Cycle} {c : Cycle} {name : String}

/-! ## Counts by length -/

namespace CycleSummary

theorem byLength_eq (cycles : List Cycle) : (ofCycles cycles).byLength
    = (cycles.map Cycle.length).foldl (fun counts n => counts.increment n) .empty :=
  (List.foldl_map).symm

/-- The statistics count the cycles of each length. -/
theorem countAt_byLength (cycles : List Cycle) (n : Nat) :
    (ofCycles cycles).byLength.countAt n = cycles.countP fun c => c.length = n := by
  have none : (Dictionary.empty : Dictionary Nat Nat).countAt n = 0 := rfl
  rw [byLength_eq, Dictionary.countAt_foldl_increment, none, Nat.zero_add, List.count,
    List.countP_map]
  exact List.countP_congr fun c _ => by simp

/-- Every cycle is counted under some length. -/
theorem total_byLength (cycles : List Cycle) :
    (ofCycles cycles).byLength.total = cycles.length := by
  have none : (Dictionary.empty : Dictionary Nat Nat).total = 0 := rfl
  rw [byLength_eq, Dictionary.total_foldl_increment, none, Nat.zero_add, List.length_map]

end CycleSummary

/-! ## Names on cycles -/

/-- Whether a name is the least one on a cycle. -/
def Cycle.hasLeast (c : Cycle) (name : String) : Bool :=
  name ∈ c.types ∧ ∀ other ∈ c.types, name ≤ other

/-- The closing name of a cycle, which comes up twice, is its least one. -/
theorem Graph.IsCanonical.count_path (canonical : g.IsCanonical c) (name : String) :
    c.path.count name
      = (if name ∈ c.types then 1 else 0) + if c.hasLeast name then 1 else 0 := by
  obtain ⟨first, head, onCycle, least⟩ := canonical.least
  have closing : c.path = c.types ++ [first] := by
    have last := canonical.isClosedWalk.closed.symm.trans head
    rw [canonical.types_eq]
    exact (List.dropLast_append_getLast? first last).symm
  have isLeast : c.hasLeast name = true ↔ first = name := by
    rw [Cycle.hasLeast, decide_eq_true_iff]
    constructor
    · rintro ⟨mem, le⟩
      exact Std.le_antisymm (least name mem) (le first onCycle)
    · rintro rfl
      exact ⟨onCycle, least⟩
  rw [closing, List.count_append, List.count_singleton, canonical.nodup.count]
  simp only [isLeast, beq_iff_eq]

/-- The paths hold a name once for each cycle through it, and once more for each cycle that starts
with it. -/
theorem count_flatMap_path (canonical : ∀ c ∈ cycles, g.IsCanonical c) (name : String) :
    (cycles.flatMap (·.path)).count name
      = cycles.countP (fun c => name ∈ c.types) + cycles.countP fun c => c.hasLeast name := by
  induction cycles with
  | nil => rfl
  | cons c rest ih =>
      have here := (canonical c List.mem_cons_self).count_path name
      have later := ih fun c' mem => canonical c' (List.mem_cons_of_mem _ mem)
      simp only [List.flatMap_cons, List.count_append, List.countP_cons, here, later,
        decide_eq_true_eq]
      omega

/-- The involvement of a name counts the cycles through it, and those that start with it a second
time. -/
theorem CycleSummary.countAt_involvement (canonical : ∀ c ∈ cycles, g.IsCanonical c)
    (name : String) : (ofCycles cycles).involvement.countAt name
      = cycles.countP (fun c => name ∈ c.types) + cycles.countP fun c => c.hasLeast name := by
  have none : (Dictionary.empty : Dictionary String Nat).countAt name = 0 := rfl
  rw [← count_flatMap_path canonical, ofCycles, Dictionary.countAt_foldl_increment, none,
    Nat.zero_add]

/-! ## The first of the longest and of the shortest cycles -/

/-- The first cycle than which none is better; nothing if there is no cycle. -/
def Cycle.IsFirstBest (better : Nat → Nat → Bool) (cycles : List Cycle) : Option Cycle → Prop
  | none => cycles = []
  | some c => ∃ before after, cycles = before ++ c :: after ∧
      (∀ b ∈ before, better c.length b.length = true) ∧
      ∀ a ∈ after, better a.length c.length = false

namespace Cycle.IsFirstBest

variable {better : Nat → Nat → Bool} {b x : Cycle} {rest : List Cycle}

/-- A cycle that is beaten by the next one may be put before it. -/
theorem cons_beaten (trans : ∀ k m n, better k m = true → better m n = true → better k n = true)
    (beaten : better x.length b.length = true) (best : IsFirstBest better (x :: rest) (some c)) :
    IsFirstBest better (b :: x :: rest) (some c) := by
  obtain ⟨before, after, parts, ahead, behind⟩ := best
  refine ⟨b :: before, after, congrArg (List.cons b) parts, ?_, behind⟩
  refine List.forall_mem_cons.2 ⟨?_, ahead⟩
  cases before with
  | nil =>
      rw [← (List.cons.inj parts).1]
      exact beaten
  | cons first before =>
      have top := ahead first List.mem_cons_self
      rw [← (List.cons.inj parts).1] at top
      exact trans _ _ _ top beaten

/-- A cycle that does not beat the one before it may be put behind it. -/
theorem cons_not_beating
    (kept : ∀ k m n, better k m = true → better n m = false → better k n = true)
    (fails : better x.length b.length = false) (best : IsFirstBest better (b :: rest) (some c)) :
    IsFirstBest better (b :: x :: rest) (some c) := by
  obtain ⟨before, after, parts, ahead, behind⟩ := best
  cases before with
  | nil =>
      cases parts
      exact ⟨[], x :: rest, rfl, ahead, List.forall_mem_cons.2 ⟨fails, behind⟩⟩
  | cons first before =>
      obtain ⟨rfl, rfl⟩ := List.cons.inj parts
      obtain ⟨top, ahead⟩ := List.forall_mem_cons.1 ahead
      refine ⟨b :: x :: before, after, rfl, ?_, behind⟩
      exact List.forall_mem_cons.2 ⟨top, List.forall_mem_cons.2 ⟨kept _ _ _ top fails, ahead⟩⟩

/-- A running choice that only gives way to something better ends with the first of the best. -/
theorem foldl (trans : ∀ k m n, better k m = true → better m n = true → better k n = true)
    (kept : ∀ k m n, better k m = true → better n m = false → better k n = true)
    (rest : List Cycle) (b : Cycle) : IsFirstBest better (b :: rest)
      (some (rest.foldl (fun best c => if better c.length best.length then c else best) b)) := by
  induction rest generalizing b with
  | nil => exact ⟨[], [], rfl, fun _ mem => absurd mem List.not_mem_nil,
      fun _ mem => absurd mem List.not_mem_nil⟩
  | cons x rest ih =>
      rw [List.foldl_cons]
      cases beats : better x.length b.length with
      | true => exact (ih x).cons_beaten trans beats
      | false => exact (ih b).cons_not_beating kept beats

end Cycle.IsFirstBest

theorem Cycle.isFirstBest_best {better : Nat → Nat → Bool}
    (trans : ∀ k m n, better k m = true → better m n = true → better k n = true)
    (kept : ∀ k m n, better k m = true → better n m = false → better k n = true)
    (cycles : List Cycle) : IsFirstBest better cycles (best better cycles) := by
  cases cycles with
  | nil => rfl
  | cons c rest => exact IsFirstBest.foldl trans kept rest c

namespace CycleSummary

/-- The longest cycle is the first of the longest ones. -/
theorem isFirstBest_longest (cycles : List Cycle) :
    Cycle.IsFirstBest (fun m n => n < m) cycles (ofCycles cycles).longest := by
  refine Cycle.isFirstBest_best (fun k m n => ?_) (fun k m n => ?_) cycles
  · simp only [decide_eq_true_eq]
    omega
  · simp only [decide_eq_true_eq, decide_eq_false_iff_not]
    omega

/-- The shortest cycle is the first of the shortest ones. -/
theorem isFirstBest_shortest (cycles : List Cycle) :
    Cycle.IsFirstBest (fun m n => m < n) cycles (ofCycles cycles).shortest := by
  refine Cycle.isFirstBest_best (fun k m n => ?_) (fun k m n => ?_) cycles
  · simp only [decide_eq_true_eq]
    omega
  · simp only [decide_eq_true_eq, decide_eq_false_iff_not]
    omega

end CycleSummary

/-! ## The statistics of a schema -/

/-- The counts by length add up to the number of cycles; there is one cycle of length one for each
object type that refers to itself. A name counts for each cycle that it is on and again for each of
which it is the least name. Of the longest and of the shortest cycles the first one is shown, and
none if there is no cycle. -/
theorem Document.cycleReport_statistics (d : Document) :
    d.cycleReport.summary.total = d.cycleReport.cycles.length ∧
    d.cycleReport.summary.byLength.total = d.cycleReport.summary.total ∧
    d.cycleReport.summary.byLength.countAt 1 = d.selfReferring.length ∧
    (∀ name, d.cycleReport.summary.involvement.countAt name
      = d.cycleReport.cycles.countP (fun c => name ∈ c.types)
        + d.cycleReport.cycles.countP fun c => c.hasLeast name) ∧
    Cycle.IsFirstBest (fun m n => n < m) d.cycleReport.cycles d.cycleReport.summary.longest ∧
    Cycle.IsFirstBest (fun m n => m < n) d.cycleReport.cycles d.cycleReport.summary.shortest := by
  have plain := d.commaFree_references
  have canonical : ∀ c ∈ d.references.cycles, d.references.IsCanonical c :=
    fun c mem => Graph.isCanonical_of_mem_cycles plain mem
  refine ⟨rfl, CycleSummary.total_byLength _, ?_, CycleSummary.countAt_involvement canonical,
    CycleSummary.isFirstBest_longest _, CycleSummary.isFirstBest_shortest _⟩
  have single : d.cycleReport.summary.byLength.countAt 1
      = d.references.cycles.countP fun c => c.length = 1 :=
    CycleSummary.countAt_byLength _ 1
  rw [single, Graph.countP_length_eq_one plain, d.loops_references, List.length_map]

end SchemaHealth
