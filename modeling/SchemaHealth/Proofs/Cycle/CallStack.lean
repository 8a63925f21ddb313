import SchemaHealth.Proofs.Cycle.Completeness
import SchemaHealth.Proofs.Graph.Preorder
import Mathlib.Algebra.GroupWithZero.Nat
import Mathlib.Data.Finset.Basic
import Mathlib.Data.Finset.Dedup

/-!
# The search for cycles on a call stack

`Graph.explore` hands the path down as an argument. A search can also keep everything it knows in
one place and change it as it goes: the names visited, the names on the stack as a set, the path as
a list, and the cycles found. A call for a name enters the name in all of them, goes through its
targets, and takes it back from the stack and the path when it returns. Nothing in such a search
says that the set and the path agree, that a name looked up on the path is there, or that the calls
come to an end.

`CallPoint` is where such a search stands and `CallStep` what it does next.

* `wellFounded_callStep`: no search goes on for ever, wherever it starts.
* `CallStep.unique`: a search does one thing at a time.
* `SearchStep.callStep`, `CallStep.exists_searchStep`: it goes along with the search of
  `SearchStep`, so that it keeps `CallInvariant`.
* `Graph.search_calls`: all that is known of it together, and that it finds the cycles of a graph.
-/

namespace SchemaHealth

variable {g : Graph} {name : String}

/-! ## What a search keeps -/

/-- What a search keeps in one place. -/
structure SearchMemory where
  /-- The names visited, in the order of their calls, and the cycles found. -/
  search : CycleSearch
  onStack : Finset String
  path : List String

namespace SearchMemory

/-- Nothing is known before the search. -/
def empty : SearchMemory := ⟨⟨[], []⟩, ∅, []⟩

/-- A call for a name starts. -/
def enter (m : SearchMemory) (name : String) : SearchMemory where
  search := m.search.enter name
  onStack := insert name m.onStack
  path := m.path ++ [name]

/-- A call for a name returns. -/
def leave (m : SearchMemory) (name : String) : SearchMemory :=
  { m with onStack := m.onStack.erase name, path := m.path.dropLast }

/-- The path is closed from one of its names on. Nothing is done for a name that is not on it. -/
def record (m : SearchMemory) (back : String) : SearchMemory :=
  match m.path.idxOf? back with
  | none => m
  | some start =>
    { m with search := m.search.record (.ofPath (m.path.drop start ++ [back])) }

theorem exists_idxOf? {path : List String} {back : String} (onPath : back ∈ path) :
    ∃ start, path.idxOf? back = some start ∧ path.drop start = path.dropWhile (· ≠ back) := by
  induction path with
  | nil => cases onPath
  | cons first rest ih =>
      by_cases here : first = back
      · exact ⟨0, by simp [List.idxOf?_cons, here], by simp [here]⟩
      · obtain ⟨start, found, same⟩ := ih ((List.mem_cons.1 onPath).resolve_left (Ne.symm here))
        exact ⟨start + 1, by simp [List.idxOf?_cons, here, found], by simp [here, same]⟩

/-- A name on the path closes the cycle that starts there. -/
theorem record_of_mem {m : SearchMemory} {back : String} (onPath : back ∈ m.path) :
    m.record back = { m with search := m.search.record (closeCycle m.path back) } := by
  obtain ⟨start, found, same⟩ := exists_idxOf? onPath
  rw [record, found, closeCycle, ← same]

@[simp] theorem visited_record (m : SearchMemory) (back : String) :
    (m.record back).search.visited = m.search.visited := by
  rw [record]
  split
  · rfl
  · exact m.search.visited_record _

end SearchMemory

/-! ## Steps -/

/-- A point of a search. -/
structure CallPoint where
  /-- The calls that have not returned, the innermost first: the name of each, and the names that
  the loop it was made in goes on with. -/
  calls : List (String × List String)
  /-- The names that the innermost loop goes on with. -/
  todo : List String
  memory : SearchMemory

/-- A search starts with the loop over all nodes. -/
def CallPoint.start (g : Graph) : CallPoint := ⟨[], g.nodes, .empty⟩

/-- One step of a search. For a name that was not visited there is a call. Inside a call, a name on
the stack is recorded; the loop over all nodes does not ask for the stack. A call returns at the end
of its loop. -/
inductive CallStep (g : Graph) : CallPoint → CallPoint → Prop
  | call {calls : List (String × List String)} {name : String} {todo : List String}
      {m : SearchMemory} :
    name ∉ m.search.visited →
    CallStep g ⟨calls, name :: todo, m⟩ ⟨(name, todo) :: calls, g.targets name, m.enter name⟩
  | record {calls : List (String × List String)} {name : String} {todo : List String}
      {m : SearchMemory} :
    calls ≠ [] → name ∈ m.search.visited → name ∈ m.onStack →
    CallStep g ⟨calls, name :: todo, m⟩ ⟨calls, todo, m.record name⟩
  | pass {calls : List (String × List String)} {name : String} {todo : List String}
      {m : SearchMemory} :
    calls = [] ∨ name ∉ m.onStack → name ∈ m.search.visited →
    CallStep g ⟨calls, name :: todo, m⟩ ⟨calls, todo, m⟩
  | leave {calls : List (String × List String)} {name : String} {todo : List String}
      {m : SearchMemory} :
    CallStep g ⟨(name, todo) :: calls, [], m⟩ ⟨calls, todo, m.leave name⟩

/-- Some steps of a search. -/
abbrev CallRun (g : Graph) : CallPoint → CallPoint → Prop := Relation.ReflTransGen (CallStep g)

variable {p p' p'' : CallPoint} {q q' : SearchPoint}

/-- There is one thing to do at most. -/
theorem CallStep.unique (step : CallStep g p p') (other : CallStep g p p'') : p' = p'' := by
  cases step with
  | call unseen =>
      cases other with
      | call => rfl
      | record _ seen => exact absurd seen unseen
      | pass _ seen => exact absurd seen unseen
  | record inside seen onStack =>
      cases other with
      | call unseen => exact absurd seen unseen
      | record => rfl
      | pass outside =>
          rcases outside with outside | offStack
          · exact absurd outside inside
          · exact absurd onStack offStack
  | pass outside seen =>
      cases other with
      | call unseen => exact absurd seen unseen
      | record inside _ onStack =>
          rcases outside with outside | offStack
          · exact absurd outside inside
          · exact absurd onStack offStack
      | pass => rfl
  | leave =>
      cases other with
      | leave => rfl

/-! ## The end of a search -/

/-- The nodes that remain to be visited, and then how much is left to do without visiting any. -/
def CallPoint.measure (g : Graph) (p : CallPoint) : Nat × Nat :=
  (g.remaining p.memory.search.visited,
    2 * (p.todo.length + (p.calls.map fun call => call.2.length).sum) + p.calls.length)

/-- Every step of the calls makes the measure smaller. -/
theorem CallStep.measure_lex (step : CallStep g p p') :
    Prod.Lex (· < ·) (· < ·) (p'.measure g) (p.measure g) := by
  cases step with
  | call unseen =>
      apply Graph.lex_remaining unseen
      intro leaf
      simp only [leaf, List.map_cons, List.sum_cons, List.length_cons, List.length_nil]
      omega
  | @record calls name todo m =>
      rw [CallPoint.measure, CallPoint.measure, SearchMemory.visited_record]
      refine .right _ ?_
      simp only [List.length_cons]
      omega
  | pass =>
      refine .right _ ?_
      simp only [List.length_cons]
      omega
  | leave =>
      refine .right _ ?_
      simp only [List.map_cons, List.sum_cons, List.length_cons, List.length_nil]
      omega

/-- No search goes on for ever. -/
theorem wellFounded_callStep (g : Graph) :
    WellFounded fun after before => CallStep g before after :=
  Subrelation.wf (fun step => step.measure_lex)
    (InvImage.wf (CallPoint.measure g) (Prod.lex Nat.lt_wfRel Nat.lt_wfRel).wf)

/-! ## Along with the search over paths -/

/-- The point of a search at which the memory fits the calls. -/
def SearchPoint.callPoint (q : SearchPoint) : CallPoint :=
  ⟨q.stack, q.todo, ⟨q.journal.search, (namesOn q.stack).toFinset, pathOf q.stack⟩⟩

/-- Each step of the search is a step of the calls. -/
theorem SearchStep.callStep (inv : SearchInvariant g q) (step : SearchStep g q q') :
    CallStep g q.callPoint q'.callPoint := by
  cases step with
  | @close stack name todo j onPath =>
      have onStack := mem_pathOf.1 onPath
      have inside : stack ≠ [] := by
        rintro rfl
        cases onStack
      have closed : (⟨j.search, (namesOn stack).toFinset, pathOf stack⟩ : SearchMemory).record name
          = ⟨(j.close (pathOf stack) name).search, (namesOn stack).toFinset, pathOf stack⟩ :=
        SearchMemory.record_of_mem onPath
      rw [SearchPoint.callPoint, SearchPoint.callPoint, ← closed]
      exact .record inside (inv.tracks.mem_visited.2 (.inl onStack)) (List.mem_toFinset.2 onStack)
  | pass offPath seen =>
      exact .pass (.inr fun mem => offPath (mem_pathOf.2 (List.mem_toFinset.1 mem))) seen
  | @enter stack name todo j offPath unseen =>
      have entered : (⟨j.search, (namesOn stack).toFinset, pathOf stack⟩ : SearchMemory).enter name
          = ⟨(j.enter (namesOn stack).head? name).search,
              (namesOn ((name, todo) :: stack)).toFinset,
            pathOf ((name, todo) :: stack)⟩ := by
        rw [SearchMemory.enter, pathOf_cons, namesOn_cons, List.toFinset_cons]
        rfl
      rw [SearchPoint.callPoint, SearchPoint.callPoint, ← entered]
      exact .call unseen
  | @leave stack name todo j =>
      have fresh : name ∉ (namesOn stack).toFinset := fun mem =>
        (List.nodup_cons.1 (List.nodup_append.1 inv.tracks.nodup).1).1 (List.mem_toFinset.1 mem)
      have left : (⟨j.search, (namesOn ((name, todo) :: stack)).toFinset,
            pathOf ((name, todo) :: stack)⟩ : SearchMemory).leave name
          = ⟨(j.leave name).search, (namesOn stack).toFinset, pathOf stack⟩ := by
        rw [SearchMemory.leave, pathOf_cons, namesOn_cons, List.toFinset_cons,
          Finset.erase_insert fresh, List.dropLast_concat]
        rfl
      rw [SearchPoint.callPoint, SearchPoint.callPoint, ← left]
      exact .leave

/-- Where there is a call step there is a step of the search over paths. -/
theorem SearchStep.exists_of_callStep (step : CallStep g q.callPoint p) :
    ∃ q', SearchStep g q q' := by
  obtain ⟨stack, todo, j⟩ := q
  cases todo with
  | nil =>
      cases stack with
      | nil => cases step
      | cons => exact ⟨_, .leave⟩
  | cons name todo =>
      by_cases onPath : name ∈ pathOf stack
      · exact ⟨_, .close onPath⟩
      · by_cases seen : name ∈ j.search.visited
        · exact ⟨_, .pass onPath seen⟩
        · exact ⟨_, .enter onPath seen⟩

/-- Each step of the calls comes from a step of the search. -/
theorem CallStep.exists_searchStep (inv : SearchInvariant g q) (step : CallStep g q.callPoint p) :
    ∃ q', SearchStep g q q' ∧ q'.callPoint = p := by
  obtain ⟨q', along⟩ := SearchStep.exists_of_callStep step
  exact ⟨q', along, (along.callStep inv).unique step⟩

theorem SearchRun.callRun (inv : SearchInvariant g q) (run : SearchRun g q q') :
    CallRun g q.callPoint q'.callPoint := by
  induction run with
  | refl => exact .refl
  | tail run step ih => exact ih.tail (step.callStep (inv.run run))

theorem CallRun.exists_searchRun (inv : SearchInvariant g q) (run : CallRun g q.callPoint p) :
    ∃ q', SearchRun g q q' ∧ q'.callPoint = p := by
  induction run with
  | refl => exact ⟨q, .refl, rfl⟩
  | tail _ step ih =>
      obtain ⟨q', along, rfl⟩ := ih
      obtain ⟨q'', next, same⟩ := step.exists_searchStep (inv.run along)
      exact ⟨q'', along.tail next, same⟩

/-! ## Names of the graph -/

/-- Only names of the graph are visited or are to be followed. -/
structure StaysInside (g : Graph) (q : SearchPoint) : Prop where
  visited : ∀ name ∈ q.journal.search.visited, name ∈ g.names
  todo : ∀ name ∈ q.todo, name ∈ g.names
  later : ∀ call ∈ q.stack, ∀ name ∈ call.2, name ∈ g.names

theorem StaysInside.start (g : Graph) : StaysInside g (.start g) where
  visited _ mem := absurd mem List.not_mem_nil
  todo _ mem := Graph.mem_names.2 (.inl mem)
  later _ mem := absurd mem List.not_mem_nil

/-- A step of the search stays inside the graph. -/
theorem StaysInside.step (step : SearchStep g q q') (inside : StaysInside g q) :
    StaysInside g q' := by
  obtain ⟨visited, todo, later⟩ := inside
  cases step with
  | close =>
      refine ⟨?_, fun name mem => todo name (List.mem_cons_of_mem _ mem), later⟩
      rw [Journal.visited_close]
      exact visited
  | pass => exact ⟨visited, fun name mem => todo name (List.mem_cons_of_mem _ mem), later⟩
  | @enter stack entered rest j =>
      refine ⟨?_, fun name edge => Graph.mem_names.2 (.inr ⟨entered, edge⟩), ?_⟩
      · rw [Journal.visited_enter]
        intro name mem
        rcases List.mem_append.1 mem with old | new
        · exact visited name old
        · rw [List.mem_singleton.1 new]
          exact todo entered List.mem_cons_self
      · intro call mem
        rcases List.mem_cons.1 mem with rfl | below
        · exact fun name mem => todo name (List.mem_cons_of_mem _ mem)
        · exact later call below
  | leave =>
      exact ⟨visited, later _ List.mem_cons_self,
        fun call mem => later call (List.mem_cons_of_mem _ mem)⟩

theorem StaysInside.run (run : SearchRun g q q') (inside : StaysInside g q) :
    StaysInside g q' := by
  induction run with
  | refl => exact inside
  | tail _ step ih => exact ih.step step

/-- The names on the stack are names of the graph, each there once. -/
theorem length_stack_le (tracks : Tracks q) (inside : StaysInside g q) :
    q.stack.length ≤ g.names.length := by
  have nodup : (namesOn q.stack).Nodup := (List.nodup_append.1 tracks.nodup).1
  have subset : namesOn q.stack ⊆ g.names := fun name mem =>
    inside.visited name (tracks.mem_visited.2 (.inl mem))
  have le := (nodup.subperm subset).length_le
  rwa [namesOn, List.length_map] at le

/-! ## What holds at every point -/

/-- What holds at every point of a search on a call stack. -/
structure CallInvariant (g : Graph) (p : CallPoint) : Prop where
  /-- The path lists the calls that have not returned. -/
  path_eq : p.memory.path = pathOf p.calls
  nodup_path : p.memory.path.Nodup
  mem_onStack : ∀ name, name ∈ p.memory.onStack ↔ name ∈ p.memory.path
  visited_of_onStack : ∀ name ∈ p.memory.onStack, name ∈ p.memory.search.visited
  isChain : p.memory.path.IsChain g.Edge
  nodup_visited : p.memory.search.visited.Nodup
  depth_le : p.calls.length ≤ g.names.length

/-- The names on the stack are linked by edges. -/
theorem SearchInvariant.isChain_pathOf (inv : SearchInvariant g q) :
    (pathOf q.stack).IsChain g.Edge := by
  rw [pathOf, List.isChain_reverse]
  exact inv.tracks.isChain.imp fun inner outer mem =>
    inv.accounts.edge (outer, inner) (List.mem_append_left _ mem)

theorem SearchInvariant.callInvariant (inv : SearchInvariant g q) (inside : StaysInside g q) :
    CallInvariant g q.callPoint where
  path_eq := rfl
  nodup_path := List.nodup_reverse.2 (List.nodup_append.1 inv.tracks.nodup).1
  mem_onStack _ := List.mem_toFinset.trans mem_pathOf.symm
  visited_of_onStack _ mem := inv.tracks.mem_visited.2 (.inl (List.mem_toFinset.1 mem))
  isChain := inv.isChain_pathOf
  nodup_visited := inv.tracks.nodup_visited
  depth_le := length_stack_le inv.tracks inside

/-! ## Calls that return -/

/-- At a later point the same calls are open, and the stack and the path are as before. -/
structure CallPoint.Resumes (before after : CallPoint) : Prop where
  calls : after.calls = before.calls
  onStack : after.memory.onStack = before.memory.onStack
  path : after.memory.path = before.memory.path
  visited : before.memory.search.visited ⊆ after.memory.search.visited

theorem CallStep.visited_subset (step : CallStep g p p') :
    p.memory.search.visited ⊆ p'.memory.search.visited := by
  cases step with
  | call => exact List.subset_append_left _ _
  | record =>
      rw [SearchMemory.visited_record]
      exact List.Subset.refl _
  | pass => exact List.Subset.refl _
  | leave => exact List.Subset.refl _

/-- No call forgets a visited name. -/
theorem CallRun.visited_subset (run : CallRun g p p') :
    p.memory.search.visited ⊆ p'.memory.search.visited := by
  induction run with
  | refl => exact List.Subset.refl _
  | tail _ step ih => exact List.Subset.trans ih step.visited_subset

/-- The stack and the path are those of the open calls. -/
theorem SearchInvariant.resumes (inv : SearchInvariant g q) (run : CallRun g q.callPoint p)
    (same : p.calls = q.callPoint.calls) : q.callPoint.Resumes p := by
  obtain ⟨q', _, rfl⟩ := run.exists_searchRun inv
  have stack : q'.stack = q.stack := same
  refine ⟨same, ?_, ?_, run.visited_subset⟩
  · show (namesOn q'.stack).toFinset = (namesOn q.stack).toFinset
    rw [stack]
  · show pathOf q'.stack = pathOf q.stack
    rw [stack]

/-- Every call returns to the loop it was made in. -/
theorem SearchInvariant.exists_return {todo : List String} (inv : SearchInvariant g q)
    (next : q.todo = name :: todo) (unseen : name ∉ q.journal.search.visited) :
    ∃ after, Relation.TransGen (CallStep g) q.callPoint after ∧ q.callPoint.Resumes after ∧
      after.todo = todo ∧ name ∈ after.memory.search.visited := by
  obtain ⟨stack, _, j⟩ := q
  cases next
  have offPath : name ∉ pathOf stack := fun mem =>
    unseen (inv.tracks.mem_visited.2 (.inl (mem_pathOf.1 mem)))
  have enter : SearchStep g ⟨stack, name :: todo, j⟩
      ⟨(name, todo) :: stack, g.targets name, j.enter (namesOn stack).head? name⟩ :=
    .enter offPath unseen
  obtain ⟨inner, through, _⟩ := g.explore_run ((name, todo) :: stack) (g.targets name)
    (j.enter (namesOn stack).head? name)
  have call := enter.callStep inv
  have back := SearchRun.callRun (inv.step enter) (through.tail .leave)
  have run : CallRun g _ _ := .head call back
  refine ⟨_, .head' call back, inv.resumes run rfl, rfl, ?_⟩
  exact back.visited_subset (List.mem_append_right _ List.mem_cons_self)

/-! ## The search as a whole -/

/-- A search on a call stack comes to an end, and it finds the cycles of the graph. At every point
of it the invariant holds. A name that is looked up on the path is there. Whenever the same calls
are open again, the stack and the path are as they were, and every call does return to the loop
that it was made in. -/
theorem Graph.search_calls (g : Graph) :
    WellFounded (fun after before => CallStep g before after) ∧
    (∀ p p' p'', CallStep g p p' → CallStep g p p'' → p' = p'') ∧
    (∃ m, CallRun g (.start g) ⟨[], [], m⟩ ∧ m.search.found = g.cycles) ∧
    ∀ p, CallRun g (.start g) p → CallInvariant g p ∧
      (∀ name ∈ p.memory.onStack, ∃ start, p.memory.path.idxOf? name = some start) ∧
      (∀ after, CallRun g p after → after.calls = p.calls → p.Resumes after) ∧
      (∀ name todo, p.todo = name :: todo → name ∉ p.memory.search.visited →
        ∃ after, Relation.TransGen (CallStep g) p after ∧ p.Resumes after ∧ after.todo = todo ∧
          name ∈ after.memory.search.visited) := by
  have start := SearchInvariant.start g
  refine ⟨wellFounded_callStep g, fun _ _ _ => CallStep.unique, ?_, fun p reached => ?_⟩
  · obtain ⟨j, run, found⟩ := g.exists_finished_run
    exact ⟨_, run.callRun start, found⟩
  · obtain ⟨q, run, rfl⟩ := CallRun.exists_searchRun start reached
    have inv := start.run run
    have holds := inv.callInvariant ((StaysInside.start g).run run)
    refine ⟨holds, fun name onStack => ?_, fun _ => inv.resumes, fun _ _ => inv.exists_return⟩
    obtain ⟨place, found, _⟩ := SearchMemory.exists_idxOf? ((holds.mem_onStack name).1 onStack)
    exact ⟨place, found⟩

/-- In the middle of the search of a looped pair, `B` is looked up on the path; and the call for `B`
with which the search starts returns. -/
theorem search_calls_loopedPair :
    (∃ p, CallRun loopedPair (.start loopedPair) p ∧ p.todo = ["B"] ∧ p.memory.path = ["B", "A"] ∧
      CallInvariant loopedPair p ∧ ∃ start, p.memory.path.idxOf? "B" = some start) ∧
    ∃ after, Relation.TransGen (CallStep loopedPair) (.start loopedPair) after ∧
      (CallPoint.start loopedPair).Resumes after ∧ after.todo = ["A"] ∧
      "B" ∈ after.memory.search.visited := by
  have first : CallStep loopedPair (.start loopedPair)
      ⟨[("B", ["A"])], ["A", "B"], SearchMemory.empty.enter "B"⟩ := .call (by decide)
  have second : CallStep loopedPair ⟨[("B", ["A"])], ["A", "B"], SearchMemory.empty.enter "B"⟩
      ⟨[("A", ["B"]), ("B", ["A"])], ["B"], (SearchMemory.empty.enter "B").enter "A"⟩ :=
    .call (by decide)
  have run := Relation.ReflTransGen.refl.tail first |>.tail second
  have holds := loopedPair.search_calls.2.2.2
  refine ⟨⟨_, run, rfl, rfl, (holds _ run).1, (holds _ run).2.1 "B" (by decide)⟩, ?_⟩
  exact (holds _ .refl).2.2.2 "B" ["A"] rfl (by decide)

end SchemaHealth
