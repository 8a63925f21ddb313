import SchemaHealth.Proofs.Graph.Reachability

/-!
# The walk and the recursive search

`Graph.walk` keeps a stack of names to visit, on which a name may stand several times, and marks a
name when it is taken off. The usual depth-first search has no stack: `Graph.visit` marks a name and
then visits its targets one after the other (`Graph.visit_eq`).

Both list the same names in the same order (`Graph.reach_eq_visit`). A `WalkPoint` is where the
walk stands and a `WalkStep` one turn of its loop. What is on the stack stands for the visits that
the recursive search has still to make, so no step changes what `Graph.follow`, which makes these
visits, leads to in the end (`WalkStep.follow_eq`). Every step either visits one more node or
shortens the stack, so there is no endless run (`wellFounded_walkStep`).
-/

namespace SchemaHealth

namespace Graph

variable {g : Graph} {seen names more : List String} {name : String}

/-! ## The recursive search -/

/-- The more names were seen, the fewer remain. -/
theorem remaining_le_of_prefix {after : List String} (later : seen <+: after) :
    g.remaining after ≤ g.remaining seen := by
  apply List.countP_mono_left
  intro node _ fresh
  simp only [decide_eq_true_eq] at fresh ⊢
  exact fun old => fresh (later.subset old)

/-- Marking a name leaves fewer nodes to visit, or the name has no targets. -/
theorem lex_remaining {m n : Nat} (fresh : name ∉ seen) (leaf : g.targets name = [] → m < n) :
    Prod.Lex (· < ·) (· < ·) (g.remaining (seen ++ [name]), m) (g.remaining seen, n) := by
  rcases remaining_append_lt_or (g := g) fresh with fewer | ⟨noMore, none⟩
  · exact .left _ _ fewer
  · rcases Nat.lt_or_eq_of_le noMore with fewer | same
    · exact .left _ _ fewer
    · rw [same]
      exact .right _ (leaf none)

/-- What has been visited once some names were visited one after the other. A name that was visited
before is passed over; any other one is marked, and its targets are visited before the names after
it. -/
def follow (g : Graph) (seen : List String) :
    List String → { after : List String // seen <+: after }
  | [] => ⟨seen, List.prefix_rfl⟩
  | name :: rest =>
    if name ∈ seen then g.follow seen rest
    else
      let behind := g.follow (seen ++ [name]) (g.targets name)
      let after := g.follow behind.1 rest
      ⟨after.1, (List.prefix_append seen [name]).trans (behind.2.trans after.2)⟩
termination_by names => (g.remaining seen, names.length)
decreasing_by
  · exact .right _ (Nat.lt_succ_self _)
  · rename_i fresh
    apply lex_remaining fresh
    intro leaf
    rw [leaf]
    exact Nat.succ_pos _
  · have noMore : g.remaining behind.1 ≤ g.remaining seen :=
      remaining_le_of_prefix ((List.prefix_append seen [name]).trans behind.2)
    rcases Nat.lt_or_eq_of_le noMore with fewer | same
    · exact .left _ _ fewer
    · rw [same]
      exact .right _ (Nat.lt_succ_self _)

/-- What has been visited once a name was visited. -/
def visit (g : Graph) (seen : List String) (name : String) : List String := (g.follow seen [name]).1

theorem follow_nil : (g.follow seen []).1 = seen := by
  rw [follow]

/-- A name that was seen is passed over. -/
theorem follow_cons_of_mem (old : name ∈ seen) :
    (g.follow seen (name :: more)).1 = (g.follow seen more).1 := by
  rw [follow, if_pos old]

/-- A new name is seen and what it leads to is followed, before the names after it. -/
theorem follow_cons_of_not_mem (fresh : name ∉ seen) : (g.follow seen (name :: more)).1
    = (g.follow (g.follow (seen ++ [name]) (g.targets name)).1 more).1 := by
  rw [follow, if_neg fresh]

/-- Following some names and then more is following all of them in order. -/
theorem follow_append : (g.follow seen (names ++ more)).1
    = (g.follow (g.follow seen names).1 more).1 := by
  fun_induction follow g seen names with
  | case1 seen => rfl
  | case2 seen name rest old ih => rw [List.cons_append, follow_cons_of_mem old, ih]
  | case3 seen name rest fresh behind after ihBehind ihAfter =>
      rw [List.cons_append, follow_cons_of_not_mem fresh]
      exact ihAfter

/-- Names that were visited long ago need not be followed again. -/
theorem follow_filter {long : List String} (older : long ⊆ seen) :
    (g.follow seen (names.filter fun name => name ∉ long)).1 = (g.follow seen names).1 := by
  induction names generalizing seen with
  | nil => rfl
  | cons name rest ih =>
      by_cases old : name ∈ seen
      · rw [follow_cons_of_mem old, ← ih older, List.filter_cons]
        split
        · exact follow_cons_of_mem old
        · rfl
      · have kept : name ∉ long := fun mem => old (older mem)
        have behind := (g.follow (seen ++ [name]) (g.targets name)).2
        have older' : long ⊆ (g.follow (seen ++ [name]) (g.targets name)).1 := fun _ mem =>
          behind.subset (List.mem_append_left _ (older mem))
        rw [List.filter_cons_of_pos (by simpa using kept), follow_cons_of_not_mem old,
          follow_cons_of_not_mem old, ih older']

/-- Names are followed by visiting one after the other. -/
theorem follow_eq_foldl (g : Graph) (seen names : List String) :
    (g.follow seen names).1 = names.foldl g.visit seen := by
  induction names generalizing seen with
  | nil => exact follow_nil
  | cons name rest ih =>
      rw [← List.singleton_append, follow_append, List.singleton_append, List.foldl_cons]
      exact ih (g.visit seen name)

/-- The recursive search: a name is marked when it is entered, and then its targets are visited in
the order in which they are listed. -/
theorem visit_eq (g : Graph) (seen : List String) (name : String) : g.visit seen name
    = if name ∈ seen then seen else (g.targets name).foldl g.visit (seen ++ [name]) := by
  rw [visit]
  split
  next old => rw [follow_cons_of_mem old, follow_nil]
  next fresh => rw [follow_cons_of_not_mem fresh, follow_nil, follow_eq_foldl]

end Graph

/-! ## The walk, step by step -/

/-- A point of a walk: the names visited so far, in order, and the stack of names to visit, its top
first. -/
structure WalkPoint where
  visited : List String
  stack : List String

/-- One turn of the loop: the top of the stack is taken off and, unless it was visited before,
visited, and those of its targets that have not been visited are put on the stack, the first one on
top. -/
inductive WalkStep (g : Graph) : WalkPoint → WalkPoint → Prop
  | pass {visited stack : List String} {name : String} :
    name ∈ visited → WalkStep g ⟨visited, name :: stack⟩ ⟨visited, stack⟩
  | visit {visited stack : List String} {name : String} :
    name ∉ visited →
    WalkStep g ⟨visited, name :: stack⟩
      ⟨visited ++ [name], ((g.targets name).filter fun t => t ∉ visited ++ [name]) ++ stack⟩

/-- Some steps of a walk. -/
abbrev WalkRun (g : Graph) : WalkPoint → WalkPoint → Prop := Relation.ReflTransGen (WalkStep g)

variable {g : Graph} {p q : WalkPoint}

/-- The nodes that remain to be visited, and then the length of the stack. -/
def WalkPoint.measure (g : Graph) (p : WalkPoint) : Nat × Nat :=
  (g.remaining p.visited, p.stack.length)

/-- Every step of the walk makes the measure smaller. -/
theorem WalkStep.measure_lex (step : WalkStep g p q) :
    Prod.Lex (· < ·) (· < ·) (q.measure g) (p.measure g) := by
  cases step with
  | pass old => exact .right _ (Nat.lt_succ_self _)
  | visit fresh =>
      apply Graph.lex_remaining fresh
      intro leaf
      simp [leaf]

/-- No walk goes on for ever. -/
theorem wellFounded_walkStep (g : Graph) :
    WellFounded fun q p : WalkPoint => WalkStep g p q :=
  Subrelation.wf (fun step => step.measure_lex)
    (InvImage.wf (WalkPoint.measure g) (Prod.lex Nat.lt_wfRel Nat.lt_wfRel).wf)

/-- A step leaves what the recursive search would visit. -/
theorem WalkStep.follow_eq (step : WalkStep g p q) :
    (g.follow q.visited q.stack).1 = (g.follow p.visited p.stack).1 := by
  cases step with
  | pass old => rw [Graph.follow_cons_of_mem old]
  | visit fresh =>
      rw [Graph.follow_append, Graph.follow_filter (List.Subset.refl _),
        Graph.follow_cons_of_not_mem fresh]

/-- What the recursion will have seen stays the same along a run of the walk. -/
theorem WalkRun.follow_eq (run : WalkRun g p q) :
    (g.follow q.visited q.stack).1 = (g.follow p.visited p.stack).1 := by
  induction run with
  | refl => rfl
  | tail _ step ih => rw [step.follow_eq, ih]

namespace Graph

/-- The walk is a run of the loop until the stack is empty. -/
theorem walk_run (table : Table g) (visited : Visited) (stack : List String) :
    WalkRun g ⟨visited.names, stack⟩ ⟨(g.walk table visited stack).names, []⟩ := by
  fun_induction walk g table visited stack with
  | case1 visited => exact .refl
  | case2 visited name stack seen ih => exact .head (.pass (Visited.contains_iff.1 seen)) ih
  | case3 visited name stack unseen visited' ih =>
      have fresh : name ∉ visited.names := mt Visited.contains_iff.2 unseen
      refine .head (.visit fresh) ?_
      have pushed : (table.targets name).filter (fun target => !visited'.contains target)
          = (g.targets name).filter fun target => target ∉ visited.names ++ [name] := by
        rw [Table.targets_eq_targets]
        apply List.filter_congr
        intro target _
        rw [Visited.contains_eq_decide, Visited.names_add, decide_not]
      rw [← pushed, ← Visited.names_add]
      exact ih

/-- The walk with a stack ends, and it lists the names in the order in which the recursive search
marks them: the start first, none twice, and all that can be reached. -/
theorem reach_eq_visit (g : Graph) (start : String) :
    (WellFounded fun q p : WalkPoint => WalkStep g p q) ∧
    WalkRun g ⟨[], [start]⟩ ⟨g.reach start, []⟩ ∧
    (∀ seen name, g.visit seen name
      = if name ∈ seen then seen else (g.targets name).foldl g.visit (seen ++ [name])) ∧
    g.reach start = g.visit [] start ∧
    (g.reach start).Nodup ∧
    (g.reach start).head? = some start ∧
    ∀ name, name ∈ g.reach start ↔ Relation.ReflTransGen g.Edge start name := by
  have run : WalkRun g ⟨[], [start]⟩ ⟨g.reach start, []⟩ := g.walk_run g.table .empty [start]
  have same : g.reach start = g.visit [] start := by
    have kept := run.follow_eq
    rwa [follow_nil] at kept
  exact ⟨wellFounded_walkStep g, run, g.visit_eq, same, g.nodup_reach start, g.head?_reach start,
    fun name => mem_reach⟩

end Graph

end SchemaHealth
