import SchemaHealth.Proofs.Cycle.Canonical
import SchemaHealth.Proofs.Cycle.SearchRun
import SchemaHealth.Proofs.Graph.Components

/-!
# What holds at every point of a search

`SearchInvariant` gathers what every step of a search for cycles keeps.

* `Tracks`: a name that was entered is on the stack or was left, never both, and the stack is a
  path along edges of the search tree.
* `Accounts`: the edges of the tree, the steps that close rings and the edges still to follow are
  edges of the graph, and none is met twice.
* `Rings`: a closed ring goes along the tree but for the step that closes it.
* `Settles`: the edges of a name that was left close a ring or lead to names left before it.
* `Parented`: a name linked with one that was entered before is entered from a name linked with it.

Each has its own step lemma; `SearchInvariant.run` is the statement about whole runs.
-/

namespace SchemaHealth

@[simp] theorem CycleSearch.visited_record (s : CycleSearch) (c : Cycle) :
    (s.record c).visited = s.visited := by
  unfold CycleSearch.record
  split <;> rfl

namespace Journal

variable (j : Journal) (path : List String) (source? : Option String) (name : String)

@[simp] theorem visited_close : (j.close path name).search.visited = j.search.visited :=
  j.search.visited_record _

/-- Entering a name visits it. -/
@[simp] theorem visited_enter :
    (j.enter source? name).search.visited = j.search.visited ++ [name] := rfl

/-- Leaving a name visits nothing. -/
@[simp] theorem visited_leave : (j.leave name).search.visited = j.search.visited := rfl

/-- The steps that close the rings. -/
def closings : List (String × String) := j.rings.map closingStep

/-- A way back is recorded as the closing step of its ring. -/
@[simp] theorem closings_close : (j.close path name).closings
    = j.closings ++ [closingStep (path.dropWhile (· ≠ name))] := by
  simp [closings, close]

end Journal

variable {g : Graph} {p q : SearchPoint}

/-! ## Names on the stack and names left -/

/-- The names that were entered are those on the stack and those that were left. -/
structure Tracks (p : SearchPoint) : Prop where
  nodup_visited : p.journal.search.visited.Nodup
  visited_perm : p.journal.search.visited.Perm (namesOn p.stack ++ p.journal.left)
  isChain : (namesOn p.stack).IsChain fun inner outer => (outer, inner) ∈ p.journal.tree

/-- A name is visited when it is on the stack or was left. -/
theorem Tracks.mem_visited (tracks : Tracks p) {name : String} :
    name ∈ p.journal.search.visited ↔ name ∈ namesOn p.stack ∨ name ∈ p.journal.left := by
  rw [tracks.visited_perm.mem_iff, List.mem_append]

/-- No name is entered twice. -/
theorem Tracks.nodup (tracks : Tracks p) : (namesOn p.stack ++ p.journal.left).Nodup :=
  tracks.visited_perm.nodup_iff.1 tracks.nodup_visited

/-- A step keeps track of the visited names. -/
theorem Tracks.step (step : SearchStep g p q) (tracks : Tracks p) : Tracks q := by
  cases step with
  | close onPath =>
      refine ⟨?_, ?_, tracks.isChain⟩
      · rw [Journal.visited_close]
        exact tracks.nodup_visited
      · rw [Journal.visited_close]
        exact tracks.visited_perm
  | pass offPath seen => exact ⟨tracks.nodup_visited, tracks.visited_perm, tracks.isChain⟩
  | @enter stack name todo j offPath unseen =>
      refine ⟨?_, ?_, ?_⟩
      · rw [Journal.visited_enter]
        exact nodup_append_singleton tracks.nodup_visited unseen
      · rw [Journal.visited_enter]
        exact (List.perm_append_singleton _ _).trans (tracks.visited_perm.cons name)
      · refine List.isChain_cons.2 ⟨fun outer (top : (namesOn stack).head? = some outer) => ?_, ?_⟩
        · have entered : (j.enter (namesOn stack).head? name).tree = j.tree ++ [(outer, name)] := by
            rw [top]
            rfl
          rw [entered]
          exact List.mem_append_right _ List.mem_cons_self
        · exact tracks.isChain.imp fun inner outer mem => List.mem_append_left _ mem
  | leave =>
      refine ⟨tracks.nodup_visited, ?_, ?_⟩
      · exact tracks.visited_perm.trans List.perm_middle.symm
      · exact tracks.isChain.tail

/-! ## Edges accounted for -/

/-- The edges still to follow from the names on a stack. -/
def pending : List (String × List String) → List String → List (String × String)
  | [], _ => []
  | (name, rest) :: below, todo => todo.map (fun target => (name, target)) ++ pending below rest

/-- The edges that a search has met or will meet from the names on its stack. -/
def SearchPoint.accounted (p : SearchPoint) : List (String × String) :=
  p.journal.tree ++ (p.journal.closings ++ pending p.stack p.todo)

/-- All edges accounted for start at names that were entered, and none is met twice. -/
structure Accounts (g : Graph) (p : SearchPoint) : Prop where
  nodup : p.accounted.Nodup
  edge : ∀ e ∈ p.accounted, g.Edge e.1 e.2
  source_visited : ∀ e ∈ p.accounted, e.1 ∈ p.journal.search.visited

/-- The step that closes a path at one of its names comes from the end of the path. -/
theorem closingStep_dropWhile {names : List String} {last back : String}
    (mem : back ∈ names ++ [last]) :
    closingStep ((names ++ [last]).dropWhile (· ≠ back)) = (last, back) := by
  obtain ⟨before, parts⟩ := (names ++ [last]).dropWhile_suffix (p := (· ≠ back))
  obtain ⟨rest, eq⟩ := dropWhile_ne_eq_cons mem
  rw [eq] at parts ⊢
  have ends := congrArg List.getLast? parts
  rw [List.getLast?_append_cons, List.getLast?_concat, List.getLast?_cons] at ends
  rw [closingStep, List.getLastD_eq_getLast?, Option.some.inj ends]

/-- A way back moves an edge from those still to follow to the closing ones. -/
theorem accounted_close {stack : List (String × List String)} {name : String}
    {todo : List String} {j : Journal} (onPath : name ∈ pathOf stack) :
    (SearchPoint.mk stack todo (j.close (pathOf stack) name)).accounted
      = (SearchPoint.mk stack (name :: todo) j).accounted := by
  cases stack with
  | nil => cases onPath
  | cons top below =>
      obtain ⟨source, rest⟩ := top
      rw [pathOf_cons] at onPath
      have closing := closingStep_dropWhile onPath
      rw [← pathOf_cons source rest below] at closing
      simp only [SearchPoint.accounted, Journal.closings_close, closing, pending, List.map_cons,
        List.append_assoc, List.cons_append, List.nil_append]
      rfl

/-- Entering a name adds the edges from it to those accounted for. -/
theorem accounted_enter_perm (g : Graph) (stack : List (String × List String)) (name : String)
    (todo : List String) (j : Journal) :
    (SearchPoint.mk ((name, todo) :: stack) (g.targets name)
        (j.enter (namesOn stack).head? name)).accounted.Perm
      ((g.targets name).map (fun target => (name, target))
        ++ (SearchPoint.mk stack (name :: todo) j).accounted) := by
  rw [List.perm_iff_count]
  intro e
  cases stack with
  | nil =>
      simp only [SearchPoint.accounted, Journal.enter, Journal.closings, namesOn, pending,
        List.map_nil, List.head?_nil, Option.map_none, Option.toList_none, List.count_append,
        List.count_nil]
      omega
  | cons top below =>
      simp only [SearchPoint.accounted, Journal.enter, Journal.closings, namesOn, pending,
        List.map_cons, List.head?_cons, Option.map_some, Option.toList_some, List.count_append,
        List.count_cons, List.count_nil]
      omega

/-- No step accounts for an edge twice, nor for one that is not there. -/
theorem Accounts.step (step : SearchStep g p q) (accounts : Accounts g p) : Accounts g q := by
  obtain ⟨nodup, edge, source⟩ := accounts
  cases step with
  | close onPath =>
      refine ⟨?_, ?_, ?_⟩
      · rw [accounted_close onPath]
        exact nodup
      · rw [accounted_close onPath]
        exact edge
      · rw [accounted_close onPath, Journal.visited_close]
        exact source
  | @pass stack name todo j offPath seen =>
      have fewer : (SearchPoint.mk stack todo j).accounted.Sublist
          (SearchPoint.mk stack (name :: todo) j).accounted := by
        refine List.Sublist.append_left (List.Sublist.append_left ?_ _) _
        cases stack with
        | nil => exact List.Sublist.refl _
        | cons top below => exact (List.sublist_cons_self _ _)
      exact ⟨nodup.sublist fewer, fun e mem => edge e (fewer.subset mem),
        fun e mem => source e (fewer.subset mem)⟩
  | @enter stack name todo j offPath unseen =>
      have perm := accounted_enter_perm g stack name todo j
      have fromName : ∀ e ∈ (g.targets name).map fun target => (name, target),
          e.1 = name ∧ g.Edge e.1 e.2 := by
        intro e mem
        obtain ⟨target, edge, rfl⟩ := List.mem_map.1 mem
        exact ⟨rfl, edge⟩
      refine ⟨perm.nodup_iff.2 (List.nodup_append.2 ⟨?_, nodup, ?_⟩), fun e mem => ?_,
        fun e mem => ?_⟩
      · exact (g.nodup_targets_of name).map fun _ _ same => (Prod.mk.inj same).2
      · rintro e new _ old rfl
        rw [← (fromName e new).1] at unseen
        exact unseen (source e old)
      · rcases List.mem_append.1 (perm.mem_iff.1 mem) with new | old
        · exact (fromName e new).2
        · exact edge e old
      · rw [Journal.visited_enter]
        rcases List.mem_append.1 (perm.mem_iff.1 mem) with new | old
        · rw [(fromName e new).1]
          exact List.mem_append_right _ List.mem_cons_self
        · exact List.mem_append_left _ (source e old)
  | leave => exact ⟨nodup, edge, source⟩

/-! ## Closed rings -/

/-- A ring that was closed goes along the tree but for the step that closes it. -/
structure IsClosedRing (j : Journal) (ring : List String) : Prop where
  ne_nil : ring ≠ []
  nodup : ring.Nodup
  isChain : ring.IsChain fun a b => (a, b) ∈ j.tree
  visited : ∀ name ∈ ring, name ∈ j.search.visited

/-- All rings that were closed go along the tree. -/
def Rings (p : SearchPoint) : Prop := ∀ ring ∈ p.journal.rings, IsClosedRing p.journal ring

/-- A closed ring stays closed as the search goes on. -/
theorem IsClosedRing.mono {j j' : Journal} {ring : List String} (closed : IsClosedRing j ring)
    (tree : j.tree ⊆ j'.tree) (visited : j.search.visited ⊆ j'.search.visited) :
    IsClosedRing j' ring :=
  ⟨closed.ne_nil, closed.nodup, closed.isChain.imp fun _ _ mem => tree mem,
    fun name mem => visited (closed.visited name mem)⟩

/-- The part of the path from one of its names on is a closed ring. -/
theorem Tracks.isClosedRing (tracks : Tracks p) {back : String} (onPath : back ∈ pathOf p.stack) :
    IsClosedRing p.journal ((pathOf p.stack).dropWhile (· ≠ back)) := by
  obtain ⟨rest, eq⟩ := dropWhile_ne_eq_cons onPath
  have suffix : (pathOf p.stack).dropWhile (· ≠ back) <:+ pathOf p.stack :=
    List.dropWhile_suffix _
  refine ⟨?_, ?_, ?_, fun name mem => ?_⟩
  · rw [eq]
    exact List.cons_ne_nil _ _
  · have nodup := (List.nodup_append.1 tracks.nodup).1
    exact (List.nodup_reverse.2 nodup).sublist suffix.sublist
  · exact (List.isChain_reverse.2 tracks.isChain).suffix suffix
  · exact tracks.mem_visited.2 (.inl (mem_pathOf.1 (suffix.subset mem)))

/-- A step keeps the rings closed. -/
theorem Rings.step (step : SearchStep g p q) (tracks : Tracks p) (rings : Rings p) : Rings q := by
  cases step with
  | @close stack name todo j onPath =>
      intro ring mem
      have same : j.search.visited ⊆ (j.close (pathOf stack) name).search.visited := by
        rw [Journal.visited_close]
        exact List.Subset.refl _
      rcases List.mem_append.1 mem with old | new
      · exact (rings ring old).mono (List.Subset.refl _) same
      · rw [List.mem_singleton.1 new]
        exact (tracks.isClosedRing onPath).mono (List.Subset.refl _) same
  | pass => exact rings
  | enter =>
      intro ring mem
      exact (rings ring mem).mono (List.subset_append_left _ _) (List.subset_append_left _ _)
  | leave => exact fun ring mem => (rings ring mem).mono (List.Subset.refl _) (List.Subset.refl _)

/-! ## Edges that are settled -/

/-- Each edge of a name in a list closes a ring or leads to a name that stands behind it. -/
def InOrder (g : Graph) (closings : List (String × String)) : List String → Prop
  | [] => True
  | name :: older =>
    (∀ target, g.Edge name target → (name, target) ∈ closings ∨ target ∈ older) ∧
      InOrder g closings older

/-- Each edge of a name on the stack is still to follow, closes a ring or leads to a name that was
left; and so it is with the nodes from which the search starts. -/
def Handled (g : Graph) (j : Journal) : List (String × List String) → List String → Prop
  | [], todo => ∀ name ∈ g.nodes, name ∈ todo ∨ name ∈ j.left
  | (name, rest) :: below, todo =>
    (∀ target, g.Edge name target →
      target ∈ todo ∨ (name, target) ∈ j.closings ∨ target ∈ j.left) ∧
        Handled g j below (name :: rest)

/-- The edges of the names that were entered are settled or will be. -/
structure Settles (g : Graph) (p : SearchPoint) : Prop where
  inOrder : InOrder g p.journal.closings p.journal.left
  handled : Handled g p.journal p.stack p.todo

/-- Names stay in order when more steps close rings. -/
theorem InOrder.mono {closings closings' : List (String × String)} {names : List String}
    (inOrder : InOrder g closings names) (more : closings ⊆ closings') :
    InOrder g closings' names := by
  induction names with
  | nil => trivial
  | cons name older ih =>
      exact ⟨fun target edge => (inOrder.1 target edge).imp_left fun mem => more mem,
        ih inOrder.2⟩

/-- What is handled stays handled as the search goes on. -/
theorem Handled.mono {j j' : Journal} {stack : List (String × List String)} {todo : List String}
    (handled : Handled g j stack todo) (closings : j.closings ⊆ j'.closings)
    (left : j.left ⊆ j'.left) : Handled g j' stack todo := by
  induction stack generalizing todo with
  | nil => exact fun name mem => (handled name mem).imp_right fun old => left old
  | cons top below ih =>
      refine ⟨fun target edge => ?_, ih handled.2⟩
      exact (handled.1 target edge).imp_right (Or.imp (fun old => closings old) fun old => left old)

/-- What has to be followed may be struck off once it was left or has closed a ring. -/
theorem Handled.strike {j : Journal} {stack : List (String × List String)} {name : String}
    {todo : List String} (handled : Handled g j stack (name :: todo))
    (settled : name ∈ j.left ∨ ∃ source rest below, stack = (source, rest) :: below ∧
      (source, name) ∈ j.closings) : Handled g j stack todo := by
  cases stack with
  | nil =>
      have left : name ∈ j.left := settled.resolve_right (by simp)
      intro node mem
      rcases handled node mem with next | old
      · rcases List.mem_cons.1 next with rfl | later
        · exact .inr left
        · exact .inl later
      · exact .inr old
  | cons top below =>
      refine ⟨fun target edge => ?_, handled.2⟩
      rcases handled.1 target edge with next | old
      · rcases List.mem_cons.1 next with rfl | later
        · rcases settled with left | ⟨source, rest, below', same, closing⟩
          · exact .inr (.inr left)
          · cases same
            exact .inr (.inl closing)
        · exact .inl later
      · exact .inr old

/-- A step leaves the edges of the names that were entered settled or still to follow. -/
theorem Settles.step (step : SearchStep g p q) (tracks : Tracks p) (settles : Settles g p) :
    Settles g q := by
  obtain ⟨inOrder, handled⟩ := settles
  cases step with
  | @close stack name todo j onPath =>
      have more : j.closings ⊆ (j.close (pathOf stack) name).closings := by
        rw [Journal.closings_close]
        exact List.subset_append_left _ _
      refine ⟨inOrder.mono more, (handled.mono more (List.Subset.refl _)).strike (.inr ?_)⟩
      cases stack with
      | nil => cases onPath
      | cons top below =>
          rw [pathOf_cons] at onPath
          refine ⟨top.1, top.2, below, rfl, ?_⟩
          rw [Journal.closings_close, pathOf_cons, closingStep_dropWhile onPath]
          exact List.mem_append_right _ List.mem_cons_self
  | pass offPath seen =>
      have left := (tracks.mem_visited.1 seen).resolve_left (mt mem_pathOf.2 offPath)
      exact ⟨inOrder, handled.strike (.inl left)⟩
  | @enter stack name todo j offPath unseen =>
      have same : Handled g (j.enter (namesOn stack).head? name) stack (name :: todo) :=
        handled.mono (List.Subset.refl _) (List.Subset.refl _)
      exact ⟨inOrder, fun target edge => .inl edge, same⟩
  | @leave stack name todo j =>
      refine ⟨⟨fun target edge => ?_, inOrder⟩, ?_⟩
      · exact (handled.1 target edge).resolve_left List.not_mem_nil
      · have later : Handled g (j.leave name) stack (name :: todo) :=
          handled.2.mono (List.Subset.refl _) (List.subset_cons_self _ _)
        exact later.strike (.inl List.mem_cons_self)

/-! ## Entering linked names -/

/-- A name linked with one that was entered before it was entered from a name linked with it. -/
def Parented (g : Graph) (p : SearchPoint) : Prop :=
  p.journal.search.visited.Pairwise fun earlier name => g.Linked earlier name →
    ∃ parent, (parent, name) ∈ p.journal.tree ∧ g.Linked parent name

/-- Where a way leads out of the names that satisfy a property, it has an edge that does so. -/
theorem exists_edge_out (holds : String → Prop) {R : String → String → Prop} {a b : String}
    (way : Relation.ReflTransGen R a b) (inside : holds a) (outside : ¬ holds b) :
    ∃ x y, Relation.ReflTransGen R a x ∧ holds x ∧ R x y ∧ ¬ holds y ∧
      Relation.ReflTransGen R y b := by
  induction way with
  | refl => exact absurd inside outside
  | @tail m c way edge ih =>
      by_cases between : holds m
      · exact ⟨m, c, way, between, edge, outside, .refl⟩
      · obtain ⟨x, y, before, inside', out, outside', after⟩ := ih between
        exact ⟨x, y, before, inside', out, outside', after.tail edge⟩

/-- An edge of a listed name closes a ring or leads to a listed name. -/
theorem InOrder.settled {closings : List (String × String)} {names : List String}
    (inOrder : InOrder g closings names) {name target : String} (mem : name ∈ names)
    (edge : g.Edge name target) : (name, target) ∈ closings ∨ target ∈ names := by
  induction names with
  | nil => cases mem
  | cons first older ih =>
      rcases List.mem_cons.1 mem with rfl | later
      · exact (inOrder.1 target edge).imp_right (List.mem_cons_of_mem _)
      · exact (ih inOrder.2 later).imp_right (List.mem_cons_of_mem _)

theorem IsClosedRing.closingStep_visited {j : Journal} {ring : List String}
    (closed : IsClosedRing j ring) : (closingStep ring).2 ∈ j.search.visited := by
  cases ring with
  | nil => exact absurd rfl closed.ne_nil
  | cons first rest => exact closed.visited first List.mem_cons_self

/-- The edges of a name that was left lead to names that were entered. -/
theorem target_visited_of_left (tracks : Tracks p) (rings : Rings p) (settles : Settles g p)
    {name target : String} (left : name ∈ p.journal.left) (edge : g.Edge name target) :
    target ∈ p.journal.search.visited := by
  rcases settles.inOrder.settled left edge with closing | older
  · obtain ⟨ring, mem, same⟩ := List.mem_map.1 closing
    have visited := (rings ring mem).closingStep_visited
    rwa [same] at visited
  · exact tracks.mem_visited.2 (.inr older)

/-- A name on the stack leads to the innermost one. -/
theorem reaches_top {top : String} {names : List String} {tree : List (String × String)}
    (isChain : (top :: names).IsChain fun inner outer => (outer, inner) ∈ tree)
    (edge : ∀ e ∈ tree, g.Edge e.1 e.2) {name : String} (onStack : name ∈ top :: names) :
    g.Reaches name top := by
  rcases List.mem_cons.1 onStack with rfl | later
  · exact .refl
  · refine isChain.cons_induction (fun name => g.Reaches name top) names ?_ .refl name later
    intro inner outer step reaches
    exact .head (edge _ step) reaches

/-- A name that is entered while one that is linked with it was entered before is linked with the
name that it is entered from. -/
theorem exists_linked_parent {stack : List (String × List String)} {earlier name : String}
    {todo : List String} {j : Journal} (tracks : Tracks ⟨stack, name :: todo, j⟩)
    (accounts : Accounts g ⟨stack, name :: todo, j⟩) (rings : Rings ⟨stack, name :: todo, j⟩)
    (settles : Settles g ⟨stack, name :: todo, j⟩) (unseen : name ∉ j.search.visited)
    (seen : earlier ∈ j.search.visited) (linked : g.Linked earlier name) :
    ∃ parent, (namesOn stack).head? = some parent ∧ g.Linked parent name := by
  -- the way from `earlier` leaves the visited names at a name `x`, which is still on the stack
  obtain ⟨x, y, toX, visited, edge, unvisited, fromY⟩ :=
    exists_edge_out (· ∈ j.search.visited) linked.1.to_reflTransGen seen unseen
  have onStack : x ∈ namesOn stack := by
    rcases tracks.mem_visited.1 visited with onStack | left
    · exact onStack
    · exact absurd (target_visited_of_left tracks rings settles left edge) unvisited
  cases stack with
  | nil => cases onStack
  | cons frame below =>
      obtain ⟨top, rest⟩ := frame
      refine ⟨top, rfl, .single ?_, ?_⟩
      · exact accounts.edge (top, name) (by simp [SearchPoint.accounted, pending])
      · have treeEdge : ∀ e ∈ j.tree, g.Edge e.1 e.2 := fun e mem =>
          accounts.edge e (List.mem_append_left _ mem)
        exact (linked.2.trans_left toX).trans_left (reaches_top tracks.isChain treeEdge onStack)

/-- A name that a step enters has a parent that it is linked with, if it needs one. -/
theorem Parented.step (step : SearchStep g p q) (tracks : Tracks p) (accounts : Accounts g p)
    (rings : Rings p) (settles : Settles g p) (parented : Parented g p) : Parented g q := by
  cases step with
  | close onPath =>
      rw [Parented, Journal.visited_close]
      exact parented
  | pass => exact parented
  | @enter stack name todo j offPath unseen =>
      rw [Parented, Journal.visited_enter]
      refine List.pairwise_append.2 ⟨?_, List.pairwise_singleton _ _, ?_⟩
      · refine parented.imp fun earlier linked => ?_
        obtain ⟨parent, mem, linked'⟩ := earlier linked
        exact ⟨parent, List.mem_append_left _ mem, linked'⟩
      · intro earlier seen other single linked
        rw [List.mem_singleton.1 single] at linked ⊢
        obtain ⟨parent, top, linked'⟩ :=
          exists_linked_parent tracks accounts rings settles unseen seen linked
        refine ⟨parent, List.mem_append_right _ ?_, linked'⟩
        rw [top]
        exact List.mem_cons_self
  | leave => exact parented

/-! ## The invariant -/

/-- What holds at every point of a search. -/
structure SearchInvariant (g : Graph) (p : SearchPoint) : Prop where
  tracks : Tracks p
  accounts : Accounts g p
  rings : Rings p
  settles : Settles g p
  parented : Parented g p

/-- The invariant holds at the start. -/
theorem SearchInvariant.start (g : Graph) : SearchInvariant g (.start g) where
  tracks := ⟨List.nodup_nil, List.Perm.refl _, List.isChain_nil⟩
  accounts := ⟨List.nodup_nil, fun _ mem => absurd mem List.not_mem_nil,
    fun _ mem => absurd mem List.not_mem_nil⟩
  rings := fun _ mem => absurd mem List.not_mem_nil
  settles := ⟨trivial, fun _ mem => .inl mem⟩
  parented := List.Pairwise.nil

/-- Every step of the search keeps the invariant. -/
theorem SearchInvariant.step (step : SearchStep g p q) (inv : SearchInvariant g p) :
    SearchInvariant g q where
  tracks := inv.tracks.step step
  accounts := inv.accounts.step step
  rings := inv.rings.step step inv.tracks
  settles := inv.settles.step step inv.tracks
  parented := inv.parented.step step inv.tracks inv.accounts inv.rings inv.settles

/-- A run keeps the invariant. -/
theorem SearchInvariant.run (run : SearchRun g p q) (inv : SearchInvariant g p) :
    SearchInvariant g q := by
  induction run with
  | refl => exact inv
  | tail _ step ih => exact ih.step step

end SchemaHealth
