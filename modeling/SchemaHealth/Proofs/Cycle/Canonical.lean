import SchemaHealth.Cycle.Search
import SchemaHealth.Proofs.Graph.Walks
import SchemaHealth.Text.Phrase

/-!
# Cycles of rings

A ring of names, closed by its first name, goes round one cycle. This module says what is kept of
the ring when the cycle is brought into canonical form, and when two cycles have one key.

* `Cycle.path_ofRing`, `Cycle.types_ofRing_isRotated`: the cycle goes round a rotation of the ring.
* `rotateToLeast_eq_cons`: it starts at the least name.
* `Cycle.edges_ofRing_perm`: it has the steps of the ring.
* `Cycle.path_eq_of_key_eq`: over names without commas, rings whose cycles have one key have one
  cycle, and so the same steps.
-/

namespace SchemaHealth

/-! ## The least name -/

theorem leastName_mem (first : String) (rest : List String) :
    leastName first rest ∈ first :: rest := by
  induction rest generalizing first with
  | nil => exact List.mem_cons_self
  | cons name rest ih =>
      rw [leastName]
      split
      · exact List.mem_cons_of_mem _ (ih name)
      · rcases List.mem_cons.1 (ih first) with same | later
        · rw [same]
          exact List.mem_cons_self
        · exact List.mem_cons_of_mem _ (List.mem_cons_of_mem _ later)

/-- No name of a ring comes before the least one. -/
theorem leastName_le {first name : String} {rest : List String} (mem : name ∈ first :: rest) :
    leastName first rest ≤ name := by
  induction rest generalizing first name with
  | nil =>
      rw [List.mem_singleton.1 mem]
      exact Std.le_refl _
  | cons second rest ih =>
      rw [leastName]
      split
      next before =>
        have least : leastName second rest ≤ second := ih List.mem_cons_self
        rcases List.mem_cons.1 mem with rfl | later
        · exact Std.le_trans least (Std.le_of_lt before)
        · exact ih later
      next after =>
        have least : leastName first rest ≤ first := ih List.mem_cons_self
        rcases List.mem_cons.1 mem with rfl | later
        · exact least
        · rcases List.mem_cons.1 later with rfl | later
          · exact Std.le_trans least (Std.not_lt.1 after)
          · exact ih (List.mem_cons_of_mem _ later)

/-! ## Rotation to the least name -/

/-- Turning a ring to its least name is a rotation. -/
theorem rotateToLeast_isRotated (ring : List String) : rotateToLeast ring ~r ring := by
  cases ring with
  | nil => exact List.IsRotated.refl _
  | cons first rest =>
      have parts : (first :: rest).takeWhile (· ≠ leastName first rest)
          ++ (first :: rest).dropWhile (· ≠ leastName first rest) = first :: rest :=
        List.takeWhile_append_dropWhile
      have rotated : rotateToLeast (first :: rest)
          ~r (first :: rest).takeWhile (· ≠ leastName first rest)
            ++ (first :: rest).dropWhile (· ≠ leastName first rest) := List.isRotated_append
      rwa [parts] at rotated

/-- The part of a list from one of its members on starts with that member. -/
theorem dropWhile_ne_eq_cons {name : String} {names : List String} (mem : name ∈ names) :
    ∃ rest, names.dropWhile (· ≠ name) = name :: rest := by
  induction names with
  | nil => cases mem
  | cons first names ih =>
      by_cases same : first = name
      · exact ⟨names, by simp [same]⟩
      · have later := (List.mem_cons.1 mem).resolve_left (Ne.symm same)
        obtain ⟨rest, eq⟩ := ih later
        exact ⟨rest, by simpa [List.dropWhile_cons, same] using eq⟩

theorem rotateToLeast_eq_cons {ring : List String} (nonempty : ring ≠ []) :
    ∃ least rest, rotateToLeast ring = least :: rest ∧ ∀ name ∈ ring, least ≤ name := by
  cases ring with
  | nil => exact absurd rfl nonempty
  | cons first rest =>
      obtain ⟨later, eq⟩ := dropWhile_ne_eq_cons (leastName_mem first rest)
      refine ⟨leastName first rest, later ++ (first :: rest).takeWhile (· ≠ leastName first rest),
        ?_, fun name mem => leastName_le mem⟩
      rw [rotateToLeast, eq, List.cons_append]

/-! ## The cycle round a ring -/

namespace Cycle

/-- The cycle that goes round a ring. -/
def ofRing (ring : List String) : Cycle := .ofPath (ring ++ ring.take 1)

/-- The steps of a cycle. -/
def edges (c : Cycle) : List (String × String) := steps c.path

variable {ring other : List String}

/-- The path of a ring is the ring turned to its least name, with that name again at its end. -/
theorem path_ofRing (nonempty : ring ≠ []) :
    (ofRing ring).path = rotateToLeast ring ++ (rotateToLeast ring).take 1 := by
  cases ring with
  | nil => exact absurd rfl nonempty
  | cons first rest =>
      have long : ¬ (first :: rest ++ [first]).length < 2 := by
        simp
      have body : (first :: rest ++ [first]).dropLast = first :: rest := List.dropLast_concat
      show canonical (first :: rest ++ [first]) = _
      rw [canonical, if_neg long, body]

theorem path_eq (nonempty : ring ≠ []) : ∃ least rest, rotateToLeast ring = least :: rest ∧
    (ofRing ring).path = least :: rest ++ [least] := by
  obtain ⟨least, rest, eq, _⟩ := rotateToLeast_eq_cons nonempty
  refine ⟨least, rest, eq, ?_⟩
  rw [path_ofRing nonempty, eq]
  rfl

theorem types_ofRing (nonempty : ring ≠ []) : (ofRing ring).types = rotateToLeast ring := by
  obtain ⟨least, rest, eq, path⟩ := path_eq nonempty
  rw [types, length, path, eq]
  simp

/-- The cycle of a ring goes round a rotation of it. -/
theorem types_ofRing_isRotated (nonempty : ring ≠ []) : (ofRing ring).types ~r ring := by
  rw [types_ofRing nonempty]
  exact rotateToLeast_isRotated ring

/-- The path of a ring holds the names of the ring. -/
theorem mem_path_ofRing {name : String} (nonempty : ring ≠ []) :
    name ∈ (ofRing ring).path ↔ name ∈ ring := by
  obtain ⟨least, rest, eq, path⟩ := path_eq nonempty
  rw [← (rotateToLeast_isRotated ring).mem_iff, path, eq, List.mem_append, List.mem_singleton]
  refine or_iff_left_of_imp ?_
  rintro rfl
  exact List.mem_cons_self

/-- The cycle of a ring has the steps of the ring. -/
theorem edges_ofRing_perm (nonempty : ring ≠ []) :
    (ofRing ring).edges.Perm (ringSteps ring) := by
  rw [edges, path_ofRing nonempty]
  exact ringSteps_perm (rotateToLeast_isRotated ring)

/-- A way back closes the part of the path from there on. -/
theorem closeCycle_eq {path : List String} {back : String} (mem : back ∈ path) :
    closeCycle path back = ofRing (path.dropWhile (· ≠ back)) := by
  obtain ⟨rest, eq⟩ := dropWhile_ne_eq_cons mem
  rw [closeCycle, ofRing, eq]
  rfl

/-! ## Keys -/

theorem splitAtFirst_joined {first : String} {rest : List String} (plain : ',' ∉ first.toList) :
    Text.splitAtFirst ',' (Text.joined "," (first :: rest)).toList
      = (first.toList, match rest with
        | [] => none
        | _ => some (Text.joined "," rest).toList) := by
  cases rest with
  | nil => exact Text.splitAtFirst_of_not_mem plain
  | cons second rest =>
      have chars : (Text.joined "," (first :: second :: rest)).toList
          = first.toList ++ ',' :: (Text.joined "," (second :: rest)).toList := by
        rw [Text.joined_cons_cons, String.toList_append, String.toList_append]
        simp
      rw [chars]
      exact Text.splitAtFirst_append plain _

/-- Names without commas can be told from their joined text. -/
theorem joined_comma_injective {xs ys : List String} (nonempty : xs ≠ []) (nonempty' : ys ≠ [])
    (plain : ∀ name ∈ xs, ',' ∉ name.toList) (plain' : ∀ name ∈ ys, ',' ∉ name.toList)
    (same : Text.joined "," xs = Text.joined "," ys) : xs = ys := by
  induction xs generalizing ys with
  | nil => exact absurd rfl nonempty
  | cons x xs ih =>
      cases ys with
      | nil => exact absurd rfl nonempty'
      | cons y ys =>
          have split := congrArg (fun text : String => Text.splitAtFirst ',' text.toList) same
          simp only [splitAtFirst_joined (plain x List.mem_cons_self),
            splitAtFirst_joined (plain' y List.mem_cons_self), Prod.mk.injEq] at split
          obtain ⟨head, tail⟩ := split
          rw [String.toList_inj.1 head]
          cases xs with
          | nil => cases ys with
            | nil => rfl
            | cons => cases tail
          | cons x' xs => cases ys with
            | nil => cases tail
            | cons y' ys =>
                have rest := ih (List.cons_ne_nil _ _) (List.cons_ne_nil _ _)
                  (fun name mem => plain name (List.mem_cons_of_mem _ mem))
                  (fun name mem => plain' name (List.mem_cons_of_mem _ mem))
                  (String.toList_inj.1 (Option.some.inj tail))
                rw [rest]

/-- Over names without commas, rings whose cycles have one key have one cycle. -/
theorem path_eq_of_key_eq (nonempty : ring ≠ []) (nonempty' : other ≠ [])
    (plain : ∀ name ∈ ring, ',' ∉ name.toList) (plain' : ∀ name ∈ other, ',' ∉ name.toList)
    (same : (ofRing ring).key = (ofRing other).key) : (ofRing ring).path = (ofRing other).path := by
  refine joined_comma_injective ?_ ?_ ?_ ?_ same
  · obtain ⟨least, rest, _, path⟩ := path_eq nonempty
    simp [path]
  · obtain ⟨least, rest, _, path⟩ := path_eq nonempty'
    simp [path]
  · exact fun name mem => plain name ((mem_path_ofRing nonempty).1 mem)
  · exact fun name mem => plain' name ((mem_path_ofRing nonempty').1 mem)

/-- Rings of one key take the same steps, unless a name holds a comma. -/
theorem ringSteps_perm_of_key_eq (nonempty : ring ≠ []) (nonempty' : other ≠ [])
    (plain : ∀ name ∈ ring, ',' ∉ name.toList) (plain' : ∀ name ∈ other, ',' ∉ name.toList)
    (same : (ofRing ring).key = (ofRing other).key) : (ringSteps ring).Perm (ringSteps other) := by
  have steps := edges_ofRing_perm nonempty
  rw [edges, path_eq_of_key_eq nonempty nonempty' plain plain' same] at steps
  exact steps.symm.trans (edges_ofRing_perm nonempty')

end Cycle

end SchemaHealth
