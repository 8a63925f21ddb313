import SchemaHealth.Proofs.Cycle.SearchInvariant

/-!
# Which cycles a search finds

A search keeps a cycle only if none with its key is there. Over names without commas nothing is ever
lost by that: the cycles found are those of all rings that were closed, in order
(`SearchInvariant.found_eq_map_rings`). The reason is that the step that closes a ring is no step of
any other ring (`SearchInvariant.closingStep_eq`), while cycles with one key have the same steps.
-/

namespace SchemaHealth

variable {g : Graph} {p : SearchPoint}

/-- A cycle with a new key is added at the end. -/
theorem CycleSearch.found_record {s : CycleSearch} {c : Cycle}
    (new : ∀ old ∈ s.found, old.key ≠ c.key) : (s.record c).found = s.found ++ [c] := by
  have none : ¬ (s.found.any fun old => old.key = c.key) = true := by
    simpa using new
  rw [record, if_neg none]

namespace SearchInvariant

/-- No closing step is taken twice. -/
theorem nodup_closings (inv : SearchInvariant g p) : p.journal.closings.Nodup :=
  (List.nodup_append.1 (List.nodup_append.1 inv.accounts.nodup).2.1).1

theorem tree_edge (inv : SearchInvariant g p) : ∀ e ∈ p.journal.tree, g.Edge e.1 e.2 :=
  fun e mem => inv.accounts.edge e (List.mem_append_left _ mem)

theorem closing_edge (inv : SearchInvariant g p) : ∀ e ∈ p.journal.closings, g.Edge e.1 e.2 :=
  fun e mem => inv.accounts.edge e (List.mem_append_right _ (List.mem_append_left _ mem))

theorem closing_not_mem_tree (inv : SearchInvariant g p) {e : String × String}
    (closing : e ∈ p.journal.closings) : e ∉ p.journal.tree := fun mem =>
  (List.nodup_append.1 inv.accounts.nodup).2.2 e mem e (List.mem_append_left _ closing) rfl

/-- A step of a closed ring is an edge of the tree or the step that closes the ring. -/
theorem ringStep_cases (inv : SearchInvariant g p) {ring : List String}
    (mem : ring ∈ p.journal.rings) {e : String × String} (step : e ∈ ringSteps ring) :
    e ∈ p.journal.tree ∨ e = closingStep ring := by
  have closed := inv.rings ring mem
  cases ring with
  | nil => exact absurd rfl closed.ne_nil
  | cons first rest =>
      rw [ringSteps_cons] at step
      rcases List.mem_append.1 step with along | back
      · exact .inl (isChain_iff_steps.1 closed.isChain e along)
      · exact .inr (List.mem_singleton.1 back)

/-- The steps of a closed ring are edges of the graph. -/
theorem ringStep_edge (inv : SearchInvariant g p) {ring : List String}
    (mem : ring ∈ p.journal.rings) {e : String × String} (step : e ∈ ringSteps ring) :
    g.Edge e.1 e.2 := by
  rcases inv.ringStep_cases mem step with along | rfl
  · exact inv.tree_edge e along
  · exact inv.closing_edge _ (List.mem_map_of_mem mem)

/-- The names on a closed ring have edges. -/
theorem mem_nodes_of_mem_ring (inv : SearchInvariant g p) {ring : List String}
    (mem : ring ∈ p.journal.rings) {name : String} (onRing : name ∈ ring) : name ∈ g.nodes := by
  obtain ⟨next, step⟩ := exists_ringStep_of_mem onRing
  exact Graph.mem_nodes_of_edge (inv.ringStep_edge mem step)

/-- The step that closes a ring is no step of any other ring. -/
theorem closingStep_eq (inv : SearchInvariant g p) {ring other : List String}
    (mem : ring ∈ p.journal.rings) (mem' : other ∈ p.journal.rings)
    (step : closingStep ring ∈ ringSteps other) : closingStep ring = closingStep other := by
  rcases inv.ringStep_cases mem' step with along | same
  · exact absurd along (inv.closing_not_mem_tree (List.mem_map_of_mem mem))
  · exact same

/-- Closed rings that have the same steps are one ring. -/
theorem eq_of_ringSteps_perm (inv : SearchInvariant g p) {ring other : List String}
    (mem : ring ∈ p.journal.rings) (mem' : other ∈ p.journal.rings)
    (perm : (ringSteps ring).Perm (ringSteps other)) : ring = other := by
  have step := closingStep_mem_ringSteps (inv.rings ring mem).ne_nil
  have same := inv.closingStep_eq mem mem' (perm.mem_iff.1 step)
  exact List.inj_on_of_nodup_map inv.nodup_closings mem mem' same

/-- Over names without commas, closed rings whose cycles have one key are one ring. -/
theorem eq_of_key_eq (inv : SearchInvariant g p) (plain : g.CommaFree) {ring other : List String}
    (mem : ring ∈ p.journal.rings) (mem' : other ∈ p.journal.rings)
    (same : (Cycle.ofRing ring).key = (Cycle.ofRing other).key) : ring = other := by
  have plainRing : ∀ ring ∈ p.journal.rings, ∀ name ∈ ring, ',' ∉ name.toList :=
    fun ring mem name onRing =>
      plain name (Graph.mem_names.2 (.inl (inv.mem_nodes_of_mem_ring mem onRing)))
  exact inv.eq_of_ringSteps_perm mem mem' (Cycle.ringSteps_perm_of_key_eq
    (inv.rings ring mem).ne_nil (inv.rings other mem').ne_nil (plainRing ring mem)
    (plainRing other mem') same)

/-- Over names without commas, no cycle of a closed ring is lost. -/
theorem found_eq_map_rings (plain : g.CommaFree) (run : SearchRun g (.start g) p) :
    p.journal.search.found = p.journal.rings.map Cycle.ofRing := by
  induction run with
  | refl => rfl
  | @tail before after run step ih =>
      have inv := (SearchInvariant.start g).run (run.tail step)
      cases step with
      | @close stack name todo j onPath =>
          have nodup := inv.nodup_closings
          rw [Journal.closings_close] at nodup
          have new : ∀ old ∈ j.search.found, old.key ≠ (closeCycle (pathOf stack) name).key := by
            intro old mem same
            rw [ih] at mem
            obtain ⟨ring, closed, rfl⟩ := List.mem_map.1 mem
            rw [Cycle.closeCycle_eq onPath] at same
            have one := inv.eq_of_key_eq plain (List.mem_append_left _ closed)
              (List.mem_append_right _ List.mem_cons_self) same
            exact (List.nodup_append.1 nodup).2.2 _ (List.mem_map_of_mem closed) _
              List.mem_cons_self (congrArg closingStep one)
          show (j.search.record _).found = (j.rings ++ [_]).map Cycle.ofRing
          rw [CycleSearch.found_record new, ih, Cycle.closeCycle_eq onPath, List.map_append]
          rfl
      | pass => exact ih
      | enter => exact ih
      | leave => exact ih

end SearchInvariant

/-! ## The cycles of a graph -/

/-- A journal at the end of the search of a graph. -/
structure IsFinished (g : Graph) (j : Journal) : Prop where
  run : SearchRun g (.start g) ⟨[], [], j⟩
  found : j.search.found = g.cycles

/-- The search of a graph comes to its end. -/
theorem Graph.exists_isFinished (g : Graph) : ∃ j, IsFinished g j := by
  obtain ⟨j, run, found⟩ := g.exists_finished_run
  exact ⟨j, run, found⟩

namespace IsFinished

variable {j : Journal}

theorem invariant (finished : IsFinished g j) : SearchInvariant g ⟨[], [], j⟩ :=
  (SearchInvariant.start g).run finished.run

/-- Over names without commas, the cycles of a graph are those of the rings that were closed. -/
theorem cycles_eq (finished : IsFinished g j) (plain : g.CommaFree) :
    g.cycles = j.rings.map Cycle.ofRing :=
  finished.found.symm.trans (SearchInvariant.found_eq_map_rings plain finished.run)

/-- Every cycle of a graph comes from a ring that the search has closed. -/
theorem exists_ring (finished : IsFinished g j) (plain : g.CommaFree) {c : Cycle}
    (mem : c ∈ g.cycles) : ∃ ring ∈ j.rings, c = .ofRing ring := by
  rw [finished.cycles_eq plain] at mem
  obtain ⟨ring, closed, same⟩ := List.mem_map.1 mem
  exact ⟨ring, closed, same.symm⟩

/-- There are as many cycles as steps that close rings. -/
theorem length_cycles (finished : IsFinished g j) (plain : g.CommaFree) :
    g.cycles.length = j.closings.length := by
  rw [finished.cycles_eq plain, List.length_map, Journal.closings, List.length_map]

/-- At the end every node was left. -/
theorem mem_left_of_mem_nodes (finished : IsFinished g j) {node : String} (mem : node ∈ g.nodes) :
    node ∈ j.left :=
  (finished.invariant.settles.handled node mem).resolve_left List.not_mem_nil

/-- The edges of a cycle are the steps of its ring. -/
theorem edges_ofRing_perm (finished : IsFinished g j) {ring : List String} (mem : ring ∈ j.rings) :
    (Cycle.ofRing ring).edges.Perm (ringSteps ring) :=
  Cycle.edges_ofRing_perm (finished.invariant.rings ring mem).ne_nil

end IsFinished

end SchemaHealth
