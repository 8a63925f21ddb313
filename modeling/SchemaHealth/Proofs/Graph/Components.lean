import SchemaHealth.Graph.Components
import SchemaHealth.Proofs.DictionaryKeys
import SchemaHealth.Proofs.Graph.Walks

/-!
# Groups of linked names

Two names are `Linked` if each is reached from the other in one or more steps. `Graph.components`
lists the classes of this relation.

* `mem_component_iff`: the members of a group are the names linked with any one of them.
* `exists_component`: every name that is reached from itself is in a group.
* `pairwise_disjoint_components`, `nodup_component`, `component_ne_nil`: no name is in two groups or
  twice in one, and no group is empty.
-/

namespace SchemaHealth.Graph

/-- Two names are reached from each other in one or more steps. -/
def Linked (g : Graph) (a b : String) : Prop := g.ReachesAhead a b ∧ g.ReachesAhead b a

variable {g : Graph} {a b c : String}

theorem Linked.symm (linked : g.Linked a b) : g.Linked b a := And.symm linked

theorem Linked.trans (left : g.Linked a b) (right : g.Linked b c) : g.Linked a c :=
  ⟨left.1.trans right.1, right.2.trans left.2⟩

/-- A name is linked to itself when it lies on a cycle. -/
theorem linked_self_iff : g.Linked a a ↔ g.ReachesAhead a a := and_self_iff

/-- A way between linked names only passes names that are linked with them. -/
theorem Linked.way (linked : g.Linked a b) :
    Relation.TransGen (fun x y => g.Edge x y ∧ g.Linked a x ∧ g.Linked a y) a b := by
  obtain ⟨ahead, back⟩ := linked
  induction ahead with
  | single edge =>
      have self : g.ReachesAhead a a := back.head edge
      exact .single ⟨edge, linked_self_iff.2 self, .single edge, back⟩
  | @tail m b ahead edge ih =>
      have back' : g.ReachesAhead m a := back.head edge
      exact (ih back').tail ⟨edge, ⟨ahead, back'⟩, ahead.tail edge, back⟩

/-! ## All names of a graph -/

/-- The names of a graph are its nodes and the targets of its edges. -/
theorem mem_names : a ∈ g.names ↔ a ∈ g.nodes ∨ ∃ source, g.Edge source a := by
  simp only [names, Dictionary.mem_keys_ofList, List.map_map, List.mem_map, List.mem_append,
    List.mem_flatMap, edge_iff_row, Function.comp_apply, exists_eq_right]
  refine or_congr_right ⟨?_, ?_⟩
  · rintro ⟨row, mem, target⟩
    exact ⟨row.1, row.2, mem, target⟩
  · rintro ⟨source, targets, mem, target⟩
    exact ⟨(source, targets), mem, target⟩

theorem nodup_names (g : Graph) : g.names.Nodup := Dictionary.nodup_keys _

theorem mem_names_of_reachesAhead (reaches : g.ReachesAhead a b) : b ∈ g.names := by
  obtain ⟨source, _, edge⟩ := Relation.TransGen.tail'_iff.1 reaches
  exact mem_names.2 (.inr ⟨source, edge⟩)

/-- No name of a graph contains a comma. -/
def CommaFree (g : Graph) : Prop := ∀ name ∈ g.names, ',' ∉ name.toList

/-! ## Groups of rows -/

/-- A name with all that is reached ahead of it. -/
def rowAhead (g : Graph) (name : String) : String × List String := (name, g.ahead name)

/-- Two rows belong together when their names are linked. -/
@[simp] theorem together_rowAhead :
    together (g.rowAhead a) (g.rowAhead b) = true ↔ g.Linked a b := by
  rw [together, Bool.and_eq_true, decide_eq_true_iff, decide_eq_true_iff]
  exact and_congr mem_ahead mem_ahead

/-- The names from which a name is told apart when the groups are formed. -/
def apart (g : Graph) (first : String) (names : List String) : List String :=
  names.filter fun other => !together (g.rowAhead first) (g.rowAhead other)

/-- The names that come into the group of a name when the groups are formed. -/
def beside (g : Graph) (first : String) (names : List String) : List String :=
  names.filter fun other => together (g.rowAhead first) (g.rowAhead other)

/-- What stands apart from a name is not linked to it. -/
@[simp] theorem mem_apart {names : List String} :
    b ∈ g.apart a names ↔ b ∈ names ∧ ¬ g.Linked a b := by
  rw [apart, List.mem_filter, Bool.not_eq_true', ← Bool.not_eq_true, together_rowAhead]

/-- What stands beside a name is linked to it. -/
@[simp] theorem mem_beside {names : List String} :
    b ∈ g.beside a names ↔ b ∈ names ∧ g.Linked a b := by
  rw [beside, List.mem_filter, together_rowAhead]

/-- The first group are the names linked to the first one; the others are the groups of the rest. -/
theorem groups_map_rowAhead (first : String) (names : List String) :
    groups ((first :: names).map g.rowAhead)
      = (first :: g.beside first names) :: groups ((g.apart first names).map g.rowAhead) := by
  rw [List.map_cons, groups, List.filter_map, List.filter_map, List.map_map]
  refine congrArg₂ _ (congrArg _ ?_) rfl
  exact List.map_id _

/-- Groups are formed from the first name on, over the names that are left each time. -/
theorem groups_induction {motive : List String → Prop} (nil : motive [])
    (cons : ∀ first names, motive (g.apart first names) → motive (first :: names))
    (names : List String) : motive names := by
  induction size : names.length using Nat.strong_induction_on generalizing names with
  | _ n ih =>
      cases names with
      | nil => exact nil
      | cons first names =>
          refine cons first names (ih _ ?_ _ rfl)
          rw [← size]
          exact Nat.lt_succ_of_le (List.length_filter_le _ _)

/-- The members of a group are the names linked with any one of them. -/
theorem mem_group_iff {names group : List String}
    (circular : ∀ name ∈ names, g.ReachesAhead name name)
    (mem : group ∈ groups (names.map g.rowAhead)) (member : a ∈ group) :
    b ∈ group ↔ b ∈ names ∧ g.Linked a b := by
  induction names using groups_induction (g := g) generalizing b with
  | nil => simp [groups] at mem
  | cons first names ih =>
      have self : g.Linked first first := linked_self_iff.2 (circular first List.mem_cons_self)
      rw [groups_map_rowAhead] at mem
      rcases List.mem_cons.1 mem with rfl | later
      · -- the group of the first name
        have inGroup : ∀ x, x ∈ first :: g.beside first names
            ↔ x ∈ first :: names ∧ g.Linked first x := by
          intro x
          by_cases same : x = first
          · subst same
            simp [self]
          · simp [same]
        have linked := ((inGroup a).1 member).2
        rw [inGroup]
        exact and_congr_right fun _ => ⟨linked.symm.trans, linked.trans⟩
      · -- a group among the names that are not linked with the first one
        have circular' : ∀ name ∈ g.apart first names, g.ReachesAhead name name := fun name left =>
          circular name (List.mem_cons_of_mem _ (mem_apart.1 left).1)
        have split : ¬ g.Linked first a := (mem_apart.1 ((ih circular' later).1 member).1).2
        rw [ih circular' later, mem_apart]
        constructor
        · rintro ⟨⟨left, _⟩, linked⟩
          exact ⟨List.mem_cons_of_mem _ left, linked⟩
        · rintro ⟨left, linked⟩
          have split' : ¬ g.Linked first b := fun both => split (both.trans linked.symm)
          rcases List.mem_cons.1 left with rfl | left
          · exact absurd self split'
          · exact ⟨⟨left, split'⟩, linked⟩

/-- Every name is in some group. -/
theorem exists_group {names : List String} (mem : a ∈ names) :
    ∃ group ∈ groups (names.map g.rowAhead), a ∈ group := by
  induction names using groups_induction (g := g) with
  | nil => cases mem
  | cons first names ih =>
      rw [groups_map_rowAhead]
      by_cases linked : a = first ∨ g.Linked first a
      · refine ⟨_, List.mem_cons_self, ?_⟩
        rcases List.mem_cons.1 mem with rfl | later
        · exact List.mem_cons_self
        · rcases linked with rfl | linked
          · exact List.mem_cons_self
          · exact List.mem_cons_of_mem _ (mem_beside.2 ⟨later, linked⟩)
      · obtain ⟨other, apart⟩ := not_or.1 linked
        have later := (List.mem_cons.1 mem).resolve_left other
        obtain ⟨group, mem, member⟩ := ih (mem_apart.2 ⟨later, apart⟩)
        exact ⟨group, List.mem_cons_of_mem _ mem, member⟩

/-- No group is empty. -/
theorem group_ne_nil {names group : List String} (mem : group ∈ groups (names.map g.rowAhead)) :
    group ≠ [] := by
  induction names using groups_induction (g := g) with
  | nil => simp [groups] at mem
  | cons first names ih =>
      rw [groups_map_rowAhead] at mem
      rcases List.mem_cons.1 mem with rfl | later
      · exact List.cons_ne_nil _ _
      · exact ih later

/-- The groups are sublists of the names, in which no name is used twice. -/
theorem flatten_groups_perm (g : Graph) (names : List String) :
    (groups (names.map g.rowAhead)).flatten.Perm names := by
  induction names using groups_induction (g := g) with
  | nil => simp [groups]
  | cons first names ih =>
      rw [groups_map_rowAhead, List.flatten_cons, List.cons_append]
      refine .cons _ ((ih.append_left _).trans ?_)
      exact List.filter_append_perm _ names

/-! ## The groups of a graph -/

/-- The components are the groups of the names that lie on cycles. -/
theorem components_eq (g : Graph) : g.components
    = groups ((g.names.filter fun name => name ∈ g.ahead name).map g.rowAhead) := by
  rw [components, cyclic, List.filter_map]
  rfl

/-- The members of a group are the names linked with any one of them. -/
theorem mem_component_iff {group : List String} (mem : group ∈ g.components) (member : a ∈ group) :
    b ∈ group ↔ g.Linked a b := by
  rw [components_eq] at mem
  have circular : ∀ name ∈ g.names.filter fun name => name ∈ g.ahead name,
      g.ReachesAhead name name := fun name mem => by simpa using (List.mem_filter.1 mem).2
  rw [mem_group_iff circular mem member, List.mem_filter]
  refine ⟨And.right, fun linked => ⟨⟨mem_names_of_reachesAhead linked.1, ?_⟩, linked⟩⟩
  simpa using linked.2.trans linked.1

/-- Every name that is reached from itself is in a group. -/
theorem exists_component (circular : g.ReachesAhead a a) : ∃ group ∈ g.components, a ∈ group := by
  rw [components_eq]
  refine exists_group (List.mem_filter.2 ⟨mem_names_of_reachesAhead circular, ?_⟩)
  simpa using circular

theorem component_ne_nil {group : List String} (mem : group ∈ g.components) : group ≠ [] := by
  rw [components_eq] at mem
  exact group_ne_nil mem

/-- No name stands in two components, nor twice in one. -/
theorem nodup_flatten_components (g : Graph) : g.components.flatten.Nodup := by
  rw [components_eq, (g.flatten_groups_perm _).nodup_iff]
  exact g.nodup_names.filter _

theorem nodup_component {group : List String} (mem : group ∈ g.components) : group.Nodup :=
  (List.nodup_flatten.1 g.nodup_flatten_components).1 group mem

/-- No name is in two groups. -/
theorem pairwise_disjoint_components (g : Graph) : g.components.Pairwise List.Disjoint :=
  (List.nodup_flatten.1 g.nodup_flatten_components).2

/-- Components that share a name are the same. -/
theorem eq_of_mem_components {group other : List String} (mem : group ∈ g.components)
    (mem' : other ∈ g.components) (member : a ∈ group) (member' : a ∈ other) : group = other := by
  by_contra different
  have symm : Std.Symm (@List.Disjoint String) := ⟨fun _ _ => List.disjoint_symm⟩
  exact g.pairwise_disjoint_components.forall mem mem' different member member'

end SchemaHealth.Graph
