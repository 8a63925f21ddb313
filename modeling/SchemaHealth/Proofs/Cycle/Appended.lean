import SchemaHealth.Proofs.Cycle.Found
import SchemaHealth.Proofs.Graph.References
import Mathlib.Data.List.Permutation

/-!
# One schema after another

The cycles of a schema that is made of two are those of the first and then those of the second, if
their object types have different names and nothing in the first refers to a type of the second
(`Document.cycles_followedBy`). The second may refer to the first, and both to names that are no
object types.

The search goes through the first graph as if it were alone (`IsJoined.explore_first`). After that
it knows more names than a search of the second graph alone. These lead to no node of the second
graph, so the two searches go on in step: what they have visited of the second graph is the same,
and so is what they find (`Continues.explore`).
-/

namespace SchemaHealth

variable {g first second : Graph} {path names more : List String} {name : String}
  {s t : CycleSearch} {old : List Cycle}

/-- The first occurrences in two lists without common elements. -/
theorem distinct_append {α : Type} [DecidableEq α] {xs ys : List α}
    (disjoint : ∀ a ∈ ys, a ∉ xs) : distinct (xs ++ ys) = distinct xs ++ distinct ys := by
  have all : (distinct ys).filter (fun a => a ∉ distinct xs) = distinct ys := by
    apply List.filter_eq_self.2
    intro a mem
    simpa using disjoint a (mem_distinct.1 mem)
  rw [← foldl_insertLast_nil, List.foldl_append, foldl_insertLast_nil, foldl_insertLast, all]

/-! ## What a search visits -/

namespace Graph

/-- Exploring some names and then more is exploring all of them in order. -/
theorem explore_append (g : Graph) (path names more : List String) (s : CycleSearch) :
    g.explore path (names ++ more) s = g.explore path more (g.explore path names s) := by
  fun_induction explore g path names s with
  | case1 path s => rfl
  | case2 path name rest s onPath ih => rw [List.cons_append, explore, if_pos onPath, ih]
  | case3 path name rest s offPath seen ih =>
      rw [List.cons_append, explore, if_neg offPath, if_pos seen, ih]
  | case4 path name rest s offPath unseen ihInner ihRest =>
      rw [List.cons_append, explore, if_neg offPath, if_neg unseen, ihRest]

/-- Exploring forgets no visited name. -/
theorem visited_subset_explore (g : Graph) (path names : List String) (s : CycleSearch) :
    s.visited ⊆ (g.explore path names s).visited := by
  fun_induction explore g path names s with
  | case1 path s => exact List.Subset.refl _
  | case2 path name rest s onPath ih => rwa [CycleSearch.visited_record] at ih
  | case3 path name rest s offPath seen ih => exact ih
  | case4 path name rest s offPath unseen ihInner ihRest =>
      exact fun _ mem => ihRest (ihInner (List.mem_append_left _ mem))

/-- A search visits the names that it follows. -/
theorem mem_visited_explore (entered : path ⊆ s.visited) (mem : name ∈ names) :
    name ∈ (g.explore path names s).visited := by
  fun_induction explore g path names s with
  | case1 path s => cases mem
  | case2 path next rest s onPath ih =>
      rcases List.mem_cons.1 mem with rfl | later
      · have kept := g.visited_subset_explore path rest (s.record (closeCycle path name))
        rw [CycleSearch.visited_record] at kept
        exact kept (entered onPath)
      · apply ih _ later
        rwa [CycleSearch.visited_record]
  | case3 path next rest s offPath seen ih =>
      rcases List.mem_cons.1 mem with rfl | later
      · exact g.visited_subset_explore path rest s seen
      · exact ih entered later
  | case4 path next rest s offPath unseen ihInner ihRest =>
      have inner := g.visited_subset_explore (path ++ [next]) (g.targets next) (s.enter next)
      have outer := g.visited_subset_explore path rest
        (g.explore (path ++ [next]) (g.targets next) (s.enter next))
      rcases List.mem_cons.1 mem with rfl | later
      · exact outer (inner (List.mem_append_right _ List.mem_cons_self))
      · exact ihRest (fun _ onPath => inner (List.mem_append_left _ (entered onPath))) later

/-- A search visits no other names than those that it follows and targets of edges. -/
theorem of_mem_visited_explore (mem : name ∈ (g.explore path names s).visited) :
    name ∈ s.visited ∨ name ∈ names ∨ ∃ source, g.Edge source name := by
  fun_induction explore g path names s with
  | case1 path s => exact .inl mem
  | case2 path next rest s onPath ih =>
      rcases ih mem with visited | later | target
      · rw [CycleSearch.visited_record] at visited
        exact .inl visited
      · exact .inr (.inl (List.mem_cons_of_mem _ later))
      · exact .inr (.inr target)
  | case3 path next rest s offPath seen ih =>
      rcases ih mem with visited | later | target
      · exact .inl visited
      · exact .inr (.inl (List.mem_cons_of_mem _ later))
      · exact .inr (.inr target)
  | case4 path next rest s offPath unseen ihInner ihRest =>
      rcases ihRest mem with visited | later | target
      · rcases ihInner visited with visited | edge | target
        · rcases List.mem_append.1 visited with visited | entered
          · exact .inl visited
          · rw [List.mem_singleton.1 entered]
            exact .inr (.inl List.mem_cons_self)
        · exact .inr (.inr ⟨next, edge⟩)
        · exact .inr (.inr target)
      · exact .inr (.inl (List.mem_cons_of_mem _ later))
      · exact .inr (.inr target)

/-! ## One graph after another -/

/-- A graph that has the nodes of one graph and then those of another one, each with the targets
that it has there, where no edge leads from the first one to a node of the second one. -/
structure IsJoined (g first second : Graph) : Prop where
  nodes : g.nodes = first.nodes ++ second.nodes
  targets_first : ∀ name ∈ first.nodes, g.targets name = first.targets name
  targets_second : ∀ name ∈ second.nodes, g.targets name = second.targets name
  not_mem_second : ∀ {source target}, first.Edge source target → target ∉ second.nodes

namespace IsJoined

/-- The two halves of a joined graph share no node. -/
theorem disjoint (joined : g.IsJoined first second) (mem : name ∈ first.nodes) :
    name ∉ second.nodes := by
  have nodup : g.nodes.Nodup := g.nodup_nodes
  rw [joined.nodes] at nodup
  exact fun mem' => (List.nodup_append.1 nodup).2.2 name mem name mem' rfl

theorem targets_eq (joined : g.IsJoined first second) (outside : name ∉ second.nodes) :
    g.targets name = first.targets name := by
  by_cases mem : name ∈ first.nodes
  · exact joined.targets_first name mem
  · have missing : name ∉ g.nodes := by
      rw [joined.nodes, List.mem_append]
      exact fun either => either.elim mem outside
    rw [targets_of_not_mem missing, targets_of_not_mem mem]

/-- The first graph is searched as if it were alone. -/
theorem explore_first (joined : g.IsJoined first second)
    (outside : ∀ name ∈ names, name ∉ second.nodes) :
    g.explore path names s = first.explore path names s := by
  fun_induction explore first path names s with
  | case1 path s => rw [explore]
  | case2 path name rest s onPath ih =>
      rw [explore, if_pos onPath, ih fun other mem => outside other (List.mem_cons_of_mem _ mem)]
  | case3 path name rest s offPath seen ih =>
      rw [explore, if_neg offPath, if_pos seen,
        ih fun other mem => outside other (List.mem_cons_of_mem _ mem)]
  | case4 path name rest s offPath unseen ihInner ihRest =>
      have inner := ihInner fun _ edge => joined.not_mem_second edge
      rw [explore, if_neg offPath, if_neg unseen,
        joined.targets_eq (outside name List.mem_cons_self), inner,
        ihRest fun other mem => outside other (List.mem_cons_of_mem _ mem)]

/-- A cycle of the first graph and one round nodes of the second graph have different keys. -/
theorem key_ne (joined : g.IsJoined first second) (plain : first.CommaFree)
    (plain' : second.CommaFree) {c : Cycle} (mem : c ∈ first.cycles)
    (inSecond : path ⊆ second.nodes) {back : String} (onPath : back ∈ path) :
    c.key ≠ (closeCycle path back).key := by
  intro same
  obtain ⟨j, finished⟩ := first.exists_isFinished
  obtain ⟨ring, closed, rfl⟩ := finished.exists_ring plain mem
  have inFirst : ∀ name ∈ ring, name ∈ first.nodes := fun name onRing =>
    finished.invariant.mem_nodes_of_mem_ring closed onRing
  obtain ⟨rest, eq⟩ := dropWhile_ne_eq_cons onPath
  have nonempty := (finished.invariant.rings ring closed).ne_nil
  have nonempty' : path.dropWhile (· ≠ back) ≠ [] := by
    rw [eq]
    exact List.cons_ne_nil _ _
  have inSecond' : ∀ name ∈ path.dropWhile (· ≠ back), name ∈ second.nodes := fun name onRing =>
    inSecond ((List.dropWhile_suffix _).subset onRing)
  rw [Cycle.closeCycle_eq onPath] at same
  have paths := Cycle.path_eq_of_key_eq nonempty nonempty'
    (fun name onRing => plain name (mem_names.2 (.inl (inFirst name onRing))))
    (fun name onRing => plain' name (mem_names.2 (.inl (inSecond' name onRing)))) same
  -- The name that the second cycle closes at is on the first one too.
  have shared : back ∈ (Cycle.ofRing (path.dropWhile (· ≠ back))).path := by
    rw [Cycle.mem_path_ofRing nonempty', eq]
    exact List.mem_cons_self
  rw [← paths, Cycle.mem_path_ofRing nonempty] at shared
  exact joined.disjoint (inFirst back shared) (inSecond onPath)

end IsJoined

end Graph

/-! ## Two searches in step -/

/-- A search of the whole graph that has the first one behind it stands where a search of the second
graph stands. Either may have visited names that are nodes of neither. -/
structure Continues (first second : Graph) (old : List Cycle) (s t : CycleSearch) : Prop where
  found : s.found = old ++ t.found
  visited_first : ∀ name ∈ first.nodes, name ∈ s.visited
  visited_second : ∀ name ∈ second.nodes, (name ∈ s.visited ↔ name ∈ t.visited)

namespace Continues

theorem record (continues : Continues first second old s t) {c : Cycle}
    (new : ∀ c' ∈ old, c'.key ≠ c.key) :
    Continues first second old (s.record c) (t.record c) := by
  obtain ⟨found, visitedFirst, visitedSecond⟩ := continues
  have fresh : old.any (fun c' => c'.key = c.key) = false := by
    simpa using new
  refine ⟨?_, ?_, ?_⟩
  · rw [CycleSearch.record, CycleSearch.record, found, List.any_append, fresh, Bool.false_or]
    split
    · exact found
    · exact List.append_assoc _ _ _
  · rwa [CycleSearch.visited_record]
  · rwa [CycleSearch.visited_record, CycleSearch.visited_record]

theorem enter (continues : Continues first second old s t) (name : String) :
    Continues first second old (s.enter name) (t.enter name) where
  found := continues.found
  visited_first other mem := List.mem_append_left _ (continues.visited_first other mem)
  visited_second other mem := by
    simp only [CycleSearch.enter, List.mem_append, continues.visited_second other mem]

theorem enter_left (continues : Continues first second old s t) (outside : name ∉ second.nodes) :
    Continues first second old (s.enter name) t where
  found := continues.found
  visited_first other mem := List.mem_append_left _ (continues.visited_first other mem)
  visited_second other mem := by
    have different : other ≠ name := fun same => outside (same ▸ mem)
    simp [CycleSearch.enter, continues.visited_second other mem, different]

theorem enter_right (continues : Continues first second old s t) (outside : name ∉ second.nodes) :
    Continues first second old s (t.enter name) where
  found := continues.found
  visited_first := continues.visited_first
  visited_second other mem := by
    have different : other ≠ name := fun same => outside (same ▸ mem)
    simp [CycleSearch.enter, continues.visited_second other mem, different]

/-- In the whole graph, a name that is no node of the second one leads nowhere any more. -/
theorem explore_outside (joined : g.IsJoined first second)
    (continues : Continues first second old s t) (offPath : name ∉ path)
    (outside : name ∉ second.nodes) : ∃ s', Continues first second old s' t ∧
      g.explore path (name :: more) s = g.explore path more s' := by
  by_cases seen : name ∈ s.visited
  · refine ⟨s, continues, ?_⟩
    rw [Graph.explore, if_neg offPath, if_pos seen]
  · have missing : name ∉ first.nodes := fun mem => seen (continues.visited_first name mem)
    have leaf : g.targets name = [] := by
      rw [joined.targets_eq outside, Graph.targets_of_not_mem missing]
    refine ⟨s.enter name, continues.enter_left outside, ?_⟩
    rw [Graph.explore, if_neg offPath, if_neg seen, leaf, Graph.explore]

/-- Two searches that are in step stay in step along nodes of the second graph. -/
theorem explore (joined : g.IsJoined first second)
    (apart : ∀ c ∈ old, ∀ path, path ⊆ second.nodes → ∀ back ∈ path,
      c.key ≠ (closeCycle path back).key)
    (inSecond : path ⊆ second.nodes) (continues : Continues first second old s t) :
    Continues first second old (g.explore path names s) (second.explore path names t) := by
  fun_induction Graph.explore second path names t generalizing s with
  | case1 path t =>
      rw [Graph.explore]
      exact continues
  | case2 path name rest t onPath ih =>
      rw [Graph.explore, if_pos onPath]
      exact ih inSecond (continues.record fun c mem => apart c mem path inSecond name onPath)
  | case3 path name rest t offPath seen ih =>
      by_cases isNode : name ∈ second.nodes
      · have seen' := (continues.visited_second name isNode).2 seen
        rw [Graph.explore, if_neg offPath, if_pos seen']
        exact ih inSecond continues
      · obtain ⟨s', continues', eq⟩ := explore_outside joined continues offPath isNode
        rw [eq]
        exact ih inSecond continues'
  | case4 path name rest t offPath unseen ihInner ihRest =>
      by_cases isNode : name ∈ second.nodes
      · have unseen' := mt (continues.visited_second name isNode).1 unseen
        rw [Graph.explore, if_neg offPath, if_neg unseen', joined.targets_second name isNode]
        apply ihRest inSecond
        apply ihInner _ (continues.enter name)
        intro other mem
        rcases List.mem_append.1 mem with onPath | single
        · exact inSecond onPath
        · rw [List.mem_singleton.1 single]
          exact isNode
      · have leaf : second.explore (path ++ [name]) (second.targets name) (t.enter name)
            = t.enter name := by
          rw [Graph.targets_of_not_mem isNode, Graph.explore]
        rw [leaf] at ihRest ⊢
        obtain ⟨s', continues', eq⟩ := explore_outside joined continues offPath isNode
        rw [eq]
        exact ihRest inSecond (continues'.enter_right isNode)

end Continues

/-- Over names without commas, the cycles of a joined graph are those of its parts in order. -/
theorem Graph.IsJoined.cycles_eq (joined : g.IsJoined first second) (plain : first.CommaFree)
    (plain' : second.CommaFree) : g.cycles = first.cycles ++ second.cycles := by
  have behind : g.explore [] first.nodes ⟨[], []⟩ = first.explore [] first.nodes ⟨[], []⟩ :=
    joined.explore_first fun _ mem => joined.disjoint mem
  have start : Continues first second first.cycles (first.explore [] first.nodes ⟨[], []⟩)
      ⟨[], []⟩ := by
    refine ⟨(List.append_nil _).symm, fun name mem => ?_, fun name mem => ?_⟩
    · exact mem_visited_explore (List.nil_subset _) mem
    · refine iff_of_false (fun visited => ?_) List.not_mem_nil
      rcases of_mem_visited_explore visited with none | isNode | ⟨source, edge⟩
      · cases none
      · exact joined.disjoint isNode mem
      · exact joined.not_mem_second edge mem
  have done : Continues first second first.cycles
      (g.explore [] second.nodes (first.explore [] first.nodes ⟨[], []⟩))
      (second.explore [] second.nodes ⟨[], []⟩) :=
    start.explore joined
      (fun c mem path inSecond back onPath => joined.key_ne plain plain' mem inSecond onPath)
      (List.nil_subset _)
  rw [cycles, joined.nodes, explore_append, behind]
  exact done.found

/-! ## Schemas -/

namespace Document

variable {d e : Document}

/-- A schema with the definitions of another one after its own. -/
def followedBy (d e : Document) : Document := ⟨d.types ++ e.types⟩

/-- The object types of two schemas have different names, and no field of an object type of the
first one has an object type of the second one as its base type. -/
structure IndependentOf (d e : Document) : Prop where
  disjoint : ∀ t ∈ d.objects, ∀ u ∈ e.objects, t.name ≠ u.name
  unreferred : ∀ t ∈ d.objects, ∀ f ∈ t.fields, ∀ u ∈ e.objects, f.type.base ≠ u.name

theorem objects_followedBy (d e : Document) :
    (d.followedBy e).objects = d.objects ++ e.objects := by
  rw [objects, followedBy, List.filter_append, objects, objects]

theorem declarations_followedBy (d e : Document) (type : Name) :
    (d.followedBy e).declarations type = d.declarations type ++ e.declarations type := by
  simp only [declarations, objects_followedBy, List.filter_append, List.flatMap_append]

/-- A type that no object type is named after has no declarations. -/
theorem declarations_eq_nil {type : Name} (absent : ∀ t ∈ d.objects, t.name ≠ type) :
    d.declarations type = [] := by
  have none : (d.objects.filter fun t => t.name = type) = [] := by
    apply List.filter_eq_nil_iff.2
    intro t object same
    exact absent t object (of_decide_eq_true same)
  rw [declarations, none]
  rfl

namespace IndependentOf

/-- An independent schema adds its types behind those that are there. -/
theorem nodes_eq (independent : d.IndependentOf e) :
    (d.followedBy e).references.nodes = d.references.nodes ++ e.references.nodes := by
  have disjoint : ∀ name ∈ e.objects.map (·.name), name ∉ d.objects.map (·.name) := by
    intro name mem mem'
    obtain ⟨u, object', rfl⟩ := List.mem_map.1 mem
    obtain ⟨t, object, same⟩ := List.mem_map.1 mem'
    exact independent.disjoint t object u object' same
  rw [nodes_references, nodes_references, nodes_references, objects_followedBy, List.map_append,
    distinct_append disjoint, List.map_append]

/-- The references of a schema and of an independent one join without a way back. -/
theorem isJoined (independent : d.IndependentOf e) :
    (d.followedBy e).references.IsJoined d.references e.references where
  nodes := independent.nodes_eq
  targets_first name mem := by
    obtain ⟨t, object, rfl⟩ := mem_nodes_references.1 mem
    have none : e.declarations t.name = [] := declarations_eq_nil fun u object' same =>
      independent.disjoint t object u object' same.symm
    rw [targets_references, targets_references, declarations_followedBy, none, List.append_nil]
  targets_second name mem := by
    obtain ⟨u, object', rfl⟩ := mem_nodes_references.1 mem
    have none : d.declarations u.name = [] := declarations_eq_nil fun t object same =>
      independent.disjoint t object u object' same
    rw [targets_references, targets_references, declarations_followedBy, none, List.nil_append]
  not_mem_second edge mem := by
    obtain ⟨source, target, ⟨t, object, _, f, declared, base, _⟩, _, rfl⟩ := edge_references.1 edge
    obtain ⟨u, object', same⟩ := mem_nodes_references.1 mem
    exact independent.unreferred t object f declared u object' (base.trans (Name.ext same.symm))

end IndependentOf

/-- The cycles of independent schemas add up in order. -/
theorem cycles_followedBy (independent : d.IndependentOf e) :
    (d.followedBy e).references.cycles = d.references.cycles ++ e.references.cycles :=
  independent.isJoined.cycles_eq d.commaFree_references e.commaFree_references

end Document

/-- An object type with nullable fields, each with its type. -/
def referring (name : Name) (fields : List (Name × Name)) : TypeDefinition where
  name := name
  body := .object (fields.map fun (field, type) => ⟨field, .named type, [], .start⟩)
  isExtension := false
  directives := []
  position := .start

/-- Books and their authors, with reviews that are no type of the schema. -/
def library : Document where
  types :=
    [referring ⟨"Author", by decide⟩ [(⟨"books", by decide⟩, ⟨"Book", by decide⟩)],
      referring ⟨"Book", by decide⟩
        [(⟨"review", by decide⟩, ⟨"Review", by decide⟩),
          (⟨"author", by decide⟩, ⟨"Author", by decide⟩),
          (⟨"sequel", by decide⟩, ⟨"Book", by decide⟩)]]

/-- Loans of books to readers, with the same reviews. -/
def loans : Document where
  types :=
    [referring ⟨"Loan", by decide⟩
        [(⟨"book", by decide⟩, ⟨"Book", by decide⟩),
          (⟨"review", by decide⟩, ⟨"Review", by decide⟩),
          (⟨"reader", by decide⟩, ⟨"Reader", by decide⟩)],
      referring ⟨"Reader", by decide⟩ [(⟨"loans", by decide⟩, ⟨"Loan", by decide⟩)]]

theorem cycles_followedBy_loans :
    library.IndependentOf loans ∧ loans.references.Edge "Loan" "Book" ∧
      library.references.cycles = [⟨["Author", "Book", "Author"]⟩, ⟨["Book", "Book"]⟩] ∧
      loans.references.cycles = [⟨["Loan", "Reader", "Loan"]⟩] ∧
      (library.followedBy loans).references.cycles
        = [⟨["Author", "Book", "Author"]⟩, ⟨["Book", "Book"]⟩, ⟨["Loan", "Reader", "Loan"]⟩] := by
  have independent : library.IndependentOf loans := ⟨by decide, by decide⟩
  have first : library.references.cycles
      = [⟨["Author", "Book", "Author"]⟩, ⟨["Book", "Book"]⟩] := by cbv
  have second : loans.references.cycles = [⟨["Loan", "Reader", "Loan"]⟩] := by cbv
  have refers : loans.references.Edge "Loan" "Book" := by
    refine Document.edge_references.2 ⟨⟨"Loan", by decide⟩, ⟨"Book", by decide⟩, ?_, rfl, rfl⟩
    exact ⟨_, List.mem_cons_self, rfl, _, List.mem_cons_self, rfl, by decide⟩
  refine ⟨independent, refers, first, second, ?_⟩
  rw [Document.cycles_followedBy independent, first, second]
  rfl

end SchemaHealth
