import SchemaHealth.Cycle.Search
import Mathlib.Logic.Relation

/-!
# The search for cycles, step by step

`Graph.explore` is one recursion, so nothing can be said of the middle of a search. Here a search is
a run of single steps. A `SearchPoint` is where it stands: the names being visited, what is left to
follow at each of them, and a `Journal` of what was done so far. `SearchStep` is one step.

* `Graph.explore_run`: the recursion from any point is a run that gives the same result.
* `Graph.exists_finished_run`: the cycles of a graph are those found by a run from
  `SearchPoint.start` to a point at which nothing is left to follow.

Beside what `CycleSearch` keeps, the journal holds the order in which names were left, the edges
along which names were entered, and the rings that were closed.
-/

namespace SchemaHealth

/-- What a search has done so far. -/
structure Journal where
  search : CycleSearch
  /-- The names that were left, the last one first. -/
  left : List String
  /-- The edges along which names were entered. -/
  tree : List (String × String)
  /-- The rings that were closed, in order, each from the name that it goes back to. -/
  rings : List (List String)

namespace Journal

/-- Nothing done. -/
def empty : Journal := ⟨⟨[], []⟩, [], [], []⟩

/-- A path was closed from one of its names on. -/
def close (j : Journal) (path : List String) (back : String) : Journal :=
  { j with
    search := j.search.record (closeCycle path back)
    rings := j.rings ++ [path.dropWhile (· ≠ back)] }

/-- A name was entered, from another one unless it is a root. -/
def enter (j : Journal) (source? : Option String) (name : String) : Journal :=
  { j with
    search := j.search.enter name
    tree := j.tree ++ (source?.map fun source => (source, name)).toList }

/-- A name was left. -/
def leave (j : Journal) (name : String) : Journal := { j with left := name :: j.left }

end Journal

/-- A point of a search. -/
structure SearchPoint where
  /-- The names being visited, the innermost first, each with the names to follow after it. -/
  stack : List (String × List String)
  /-- The names to follow next. -/
  todo : List String
  journal : Journal

/-- The names on a stack, the innermost first. -/
def namesOn (stack : List (String × List String)) : List String := stack.map (·.1)

/-- The path to the innermost name on a stack. -/
def pathOf (stack : List (String × List String)) : List String := (namesOn stack).reverse

@[simp] theorem namesOn_cons (name : String) (rest : List String)
    (below : List (String × List String)) :
    namesOn ((name, rest) :: below) = name :: namesOn below := rfl

theorem pathOf_cons (name : String) (rest : List String) (below : List (String × List String)) :
    pathOf ((name, rest) :: below) = pathOf below ++ [name] := List.reverse_cons

/-- The path holds the names on the stack. -/
@[simp] theorem mem_pathOf {name : String} {stack : List (String × List String)} :
    name ∈ pathOf stack ↔ name ∈ namesOn stack := List.mem_reverse

/-- One step of a search: a name on the path closes a ring, a name that was entered before is passed
over, any other name is entered, and a name is left when nothing is to be followed. -/
inductive SearchStep (g : Graph) : SearchPoint → SearchPoint → Prop
  | close {stack : List (String × List String)} {name : String} {todo : List String} {j : Journal} :
    name ∈ pathOf stack →
    SearchStep g ⟨stack, name :: todo, j⟩ ⟨stack, todo, j.close (pathOf stack) name⟩
  | pass {stack : List (String × List String)} {name : String} {todo : List String} {j : Journal} :
    name ∉ pathOf stack → name ∈ j.search.visited →
    SearchStep g ⟨stack, name :: todo, j⟩ ⟨stack, todo, j⟩
  | enter {stack : List (String × List String)} {name : String} {todo : List String} {j : Journal} :
    name ∉ pathOf stack → name ∉ j.search.visited →
    SearchStep g ⟨stack, name :: todo, j⟩
      ⟨(name, todo) :: stack, g.targets name, j.enter (namesOn stack).head? name⟩
  | leave {stack : List (String × List String)} {name : String} {todo : List String} {j : Journal} :
    SearchStep g ⟨(name, todo) :: stack, [], j⟩ ⟨stack, todo, j.leave name⟩

/-- Some steps of a search. -/
abbrev SearchRun (g : Graph) : SearchPoint → SearchPoint → Prop :=
  Relation.ReflTransGen (SearchStep g)

/-- The point from which the search of a graph starts: all its nodes are to be followed. -/
def SearchPoint.start (g : Graph) : SearchPoint := ⟨[], g.nodes, .empty⟩

namespace Graph

/-- From any point, following all that is to be followed is a run. -/
theorem explore_run (g : Graph) (stack : List (String × List String)) (todo : List String)
    (j : Journal) : ∃ j' : Journal, SearchRun g ⟨stack, todo, j⟩ ⟨stack, [], j'⟩ ∧
      j'.search = g.explore (pathOf stack) todo j.search := by
  generalize same : pathOf stack = path
  generalize current : j.search = s
  fun_induction explore g path todo s generalizing stack j with
  | case1 path s => exact ⟨j, .refl, current⟩
  | case2 path name rest s onPath ih =>
      subst same current
      obtain ⟨j', run, result⟩ := ih stack (j.close (pathOf stack) name) rfl rfl
      exact ⟨j', .head (.close onPath) run, result⟩
  | case3 path name rest s offPath seen ih =>
      subst same current
      obtain ⟨j', run, result⟩ := ih stack j rfl rfl
      exact ⟨j', .head (.pass offPath seen) run, result⟩
  | case4 path name rest s offPath unseen ihInner ihRest =>
      subst same current
      obtain ⟨inner, runInner, resultInner⟩ := ihInner ((name, rest) :: stack)
        (j.enter (namesOn stack).head? name) (pathOf_cons name rest stack) rfl
      obtain ⟨j', runRest, result⟩ := ihRest stack (inner.leave name) rfl resultInner
      refine ⟨j', .head (.enter offPath unseen) (runInner.trans (.head .leave runRest)), result⟩

/-- The cycles of a graph are those found by a run to a point with nothing left to follow. -/
theorem exists_finished_run (g : Graph) :
    ∃ j : Journal, SearchRun g (.start g) ⟨[], [], j⟩ ∧ j.search.found = g.cycles := by
  obtain ⟨j, run, result⟩ := g.explore_run [] g.nodes .empty
  exact ⟨j, run, by rw [result]; rfl⟩

end Graph

end SchemaHealth
