import SchemaHealth.Proofs.Cycle.Canonical

/-!
# The canonical form tells rotations apart

A closed path round distinct names stands for a ring, and where it starts is of no account. Its
canonical form starts at the least name. Names that are distinct come in one rotation only that
starts at a given one of them (`eq_of_isRotated_of_head?_eq`), so two closed paths have one
canonical form just if they go round the same ring (`IsSimpleClosed.canonical_eq_iff`). The
direction counts: a ring of three or more names is no rotation of its reversal
(`not_isRotated_reverse`).
-/

namespace SchemaHealth

variable {xs ys p q : List String} {first name : String} {rest : List String}

/-- A path round distinct names that ends where it starts. -/
structure IsSimpleClosed (path : List String) : Prop where
  body_ne_nil : path.dropLast ≠ []
  nodup : path.dropLast.Nodup
  closed : path.getLast? = path.head?

/-- A form of a closed path: it goes round a rotation of the same names, from the least of them back
to it. -/
structure IsFormOf (path form : List String) : Prop where
  isSimpleClosed : IsSimpleClosed form
  isRotated : form.dropLast ~r path.dropLast
  least : ∃ first, form.head? = some first ∧ first ∈ path.dropLast ∧
    ∀ name ∈ path.dropLast, first ≤ name

/-! ## Rotations of distinct names -/

/-- Distinct names are in one rotation only that starts at a given one of them. -/
theorem eq_of_isRotated_of_head?_eq (nodup : xs.Nodup) (rotated : xs ~r ys)
    (head : xs.head? = ys.head?) : xs = ys := by
  cases xs with
  | nil => exact (List.isRotated_nil_iff'.1 rotated)
  | cons first rest =>
      obtain ⟨n, rfl⟩ := rotated
      have pos : 0 < (first :: rest).length := Nat.succ_pos _
      have bound : n % (first :: rest).length < (first :: rest).length := Nat.mod_lt _ pos
      rw [← List.rotate_mod, List.head?_rotate bound, List.head?_eq_getElem?] at head
      have start : 0 = n % (first :: rest).length := (List.getElem?_inj pos nodup).1 head
      rw [← List.rotate_mod, ← start, List.rotate_zero]

/-- Three or more distinct names round a ring are no rotation of the way back. -/
theorem not_isRotated_reverse (nodup : (first :: rest).Nodup) (long : 2 ≤ rest.length) :
    ¬ (first :: rest) ~r (first :: rest.reverse) := by
  intro rotated
  have same := eq_of_isRotated_of_head?_eq nodup rotated rfl
  have symmetric : rest = rest.reverse := (List.cons.inj same).2
  -- the first and the last of the other names would be one
  have ends : rest[0]? = rest[rest.length - 1]? := by
    rw [← List.getLast?_eq_getElem?, ← List.head?_eq_getElem?, ← List.head?_reverse, ← symmetric]
  have index := (List.getElem?_inj (Nat.zero_lt_of_lt long) (List.nodup_cons.1 nodup).2).1 ends
  omega

/-! ## Rotating to the least name -/

/-- A ring that starts with its least name is not turned. -/
theorem rotateToLeast_cons_of_le (least : ∀ name ∈ rest, first ≤ name) :
    rotateToLeast (first :: rest) = first :: rest := by
  have le : first ≤ leastName first rest := by
    rcases List.mem_cons.1 (leastName_mem first rest) with same | later
    · exact (congrArg (first ≤ ·) same).mpr (Std.le_refl first)
    · exact least _ later
  have same : leastName first rest = first := Std.le_antisymm (leastName_le List.mem_cons_self) le
  simp [rotateToLeast, same]

/-- A ring that starts at its least name is left as it is. -/
theorem rotateToLeast_rotateToLeast (ring : List String) :
    rotateToLeast (rotateToLeast ring) = rotateToLeast ring := by
  by_cases empty : ring = []
  · rw [empty]
    rfl
  · obtain ⟨least, later, eq, le⟩ := rotateToLeast_eq_cons empty
    rw [eq]
    refine rotateToLeast_cons_of_le fun name mem => le name ?_
    rw [← (rotateToLeast_isRotated ring).mem_iff, eq]
    exact List.mem_cons_of_mem _ mem

theorem rotateToLeast_ne_nil (nonempty : xs ≠ []) : rotateToLeast xs ≠ [] := by
  obtain ⟨least, later, eq, _⟩ := rotateToLeast_eq_cons nonempty
  rw [eq]
  exact List.cons_ne_nil _ _

/-- Rotations of the same distinct names, and only these, come to one ring. -/
theorem rotateToLeast_eq_iff (nodup : xs.Nodup) (nonempty : xs ≠ []) :
    rotateToLeast xs = rotateToLeast ys ↔ xs ~r ys := by
  constructor
  · intro same
    have rotated := (rotateToLeast_isRotated xs).symm
    rw [same] at rotated
    exact rotated.trans (rotateToLeast_isRotated ys)
  · intro rotated
    have nonempty' : ys ≠ [] := by
      rintro rfl
      exact nonempty (List.isRotated_nil_iff.1 rotated)
    have forms : rotateToLeast xs ~r rotateToLeast ys :=
      ((rotateToLeast_isRotated xs).trans rotated).trans (rotateToLeast_isRotated ys).symm
    obtain ⟨least, later, eq, le⟩ := rotateToLeast_eq_cons nonempty
    obtain ⟨least', later', eq', le'⟩ := rotateToLeast_eq_cons nonempty'
    have mem : least ∈ xs := by
      rw [← (rotateToLeast_isRotated xs).mem_iff, eq]
      exact List.mem_cons_self
    have mem' : least' ∈ ys := by
      rw [← (rotateToLeast_isRotated ys).mem_iff, eq']
      exact List.mem_cons_self
    have same : least = least' :=
      Std.le_antisymm (le least' (rotated.mem_iff.2 mem')) (le' least (rotated.mem_iff.1 mem))
    refine eq_of_isRotated_of_head?_eq ?_ forms ?_
    · exact (rotateToLeast_isRotated xs).nodup_iff.2 nodup
    · rw [eq, eq', same]
      rfl

/-! ## Canonical forms -/

/-- The canonical form of a closed path is its ring, turned to the least name and closed again. -/
theorem canonical_of_two_le (long : 2 ≤ p.length) :
    canonical p = rotateToLeast p.dropLast ++ (rotateToLeast p.dropLast).take 1 := by
  rw [canonical, if_neg (Nat.not_lt.2 long)]

/-- The names on a path that was closed by its first name. -/
theorem dropLast_append_take_one (nonempty : xs ≠ []) : (xs ++ xs.take 1).dropLast = xs := by
  cases xs with
  | nil => exact absurd rfl nonempty
  | cons first rest => exact List.dropLast_concat

theorem dropLast_canonical (long : 2 ≤ p.length) :
    (canonical p).dropLast = rotateToLeast p.dropLast := by
  have nonempty : p.dropLast ≠ [] := by
    refine List.ne_nil_of_length_pos ?_
    rw [List.length_dropLast]
    omega
  rw [canonical_of_two_le long, dropLast_append_take_one (rotateToLeast_ne_nil nonempty)]

/-- The canonical form is as long as the path. -/
theorem length_canonical (path : List String) : (canonical path).length = path.length := by
  by_cases short : path.length < 2
  · exact congrArg List.length (if_pos short)
  · have body := (rotateToLeast_isRotated path.dropLast).perm.length_eq
    rw [List.length_dropLast] at body
    rw [canonical_of_two_le (Nat.not_lt.1 short), List.length_append, List.length_take, body]
    omega

/-- The canonical form of any path is canonical. -/
theorem canonical_canonical (path : List String) : canonical (canonical path) = canonical path := by
  by_cases short : path.length < 2
  · have same : canonical path = path := if_pos short
    rw [same, same]
  · have long : 2 ≤ path.length := Nat.not_lt.1 short
    have long' : 2 ≤ (canonical path).length := by rwa [length_canonical]
    rw [canonical_of_two_le long', dropLast_canonical long, rotateToLeast_rotateToLeast,
      canonical_of_two_le long]

namespace IsSimpleClosed

theorem two_le_length (closed : IsSimpleClosed p) : 2 ≤ p.length := by
  have pos := List.length_pos_of_ne_nil closed.body_ne_nil
  rw [List.length_dropLast] at pos
  omega

/-- A ring of distinct names closes to a simple path. -/
theorem of_ring (nodup : xs.Nodup) (nonempty : xs ≠ []) : IsSimpleClosed (xs ++ xs.take 1) where
  body_ne_nil := by rwa [dropLast_append_take_one nonempty]
  nodup := by rwa [dropLast_append_take_one nonempty]
  closed := by
    cases xs with
    | nil => exact absurd rfl nonempty
    | cons first rest => exact List.getLast?_concat

/-- A closed path is its body, closed by the first name. -/
theorem eq_append (closed : IsSimpleClosed p) : p = p.dropLast ++ p.dropLast.take 1 := by
  obtain ⟨nonempty, _, ends⟩ := closed
  rcases List.eq_nil_or_concat' p with rfl | ⟨body, last, rfl⟩
  · exact absurd rfl nonempty
  · rw [List.dropLast_concat] at nonempty ⊢
    cases body with
    | nil => exact absurd rfl nonempty
    | cons first rest =>
        rw [List.getLast?_concat] at ends
        rw [Option.some.inj ends]
        rfl

/-- The canonical form of a simple closed path is one of its forms. -/
theorem isFormOf_canonical (closed : IsSimpleClosed p) : IsFormOf p (canonical p) := by
  have rotated := rotateToLeast_isRotated p.dropLast
  have form := canonical_of_two_le closed.two_le_length
  refine ⟨?_, ?_, ?_⟩
  · rw [form]
    exact of_ring (rotated.nodup_iff.2 closed.nodup) (rotateToLeast_ne_nil closed.body_ne_nil)
  · rwa [dropLast_canonical closed.two_le_length]
  · obtain ⟨least, later, eq, le⟩ := rotateToLeast_eq_cons closed.body_ne_nil
    refine ⟨least, ?_, ?_, le⟩
    · rw [form, eq]
      rfl
    · rw [← rotated.mem_iff, eq]
      exact List.mem_cons_self

/-- Two simple closed paths have one canonical form just when their rings are rotations of each
other. -/
theorem canonical_eq_iff (closed : IsSimpleClosed p) (closed' : IsSimpleClosed q) :
    canonical p = canonical q ↔ p.dropLast ~r q.dropLast := by
  rw [← rotateToLeast_eq_iff closed.nodup closed.body_ne_nil]
  constructor
  · intro same
    rw [← dropLast_canonical closed.two_le_length, ← dropLast_canonical closed'.two_le_length, same]
  · intro same
    rw [canonical_of_two_le closed.two_le_length, canonical_of_two_le closed'.two_le_length, same]

/-- The way back along a closed path goes round the same names the other way. -/
theorem exists_reverse (closed : IsSimpleClosed p) : ∃ first rest,
    p.dropLast = first :: rest ∧ p.reverse = first :: rest.reverse ++ [first] := by
  have whole := closed.eq_append
  cases body : p.dropLast with
  | nil => exact absurd body closed.body_ne_nil
  | cons first rest =>
      refine ⟨first, rest, rfl, ?_⟩
      rw [whole, body]
      simp

/-- A simple closed path is simple and closed in the other direction too. -/
theorem reverse (closed : IsSimpleClosed p) : IsSimpleClosed p.reverse := by
  obtain ⟨first, rest, body, back⟩ := closed.exists_reverse
  have nodup := closed.nodup
  rw [body, List.nodup_cons] at nodup
  have backward : (first :: rest.reverse).Nodup := by
    refine List.nodup_cons.2 ⟨fun mem => nodup.1 (List.mem_reverse.1 mem), ?_⟩
    exact List.nodup_reverse.2 nodup.2
  rw [back]
  exact of_ring backward (List.cons_ne_nil _ _)

/-- From three names on the other direction has another canonical form. -/
theorem canonical_reverse_ne (closed : IsSimpleClosed p) (long : 3 ≤ p.dropLast.length) :
    canonical p.reverse ≠ canonical p := by
  obtain ⟨first, rest, body, back⟩ := closed.exists_reverse
  intro same
  have rotated := (closed.canonical_eq_iff closed.reverse).1 same.symm
  have backward : p.reverse.dropLast = first :: rest.reverse := by
    rw [back]
    exact List.dropLast_concat
  have nodup := closed.nodup
  rw [body] at nodup long
  rw [body, backward] at rotated
  exact not_isRotated_reverse nodup (Nat.le_of_succ_le_succ long) rotated

end IsSimpleClosed

/-- Closed paths round distinct names have one canonical form if and only if one goes round a
rotation of the other. The canonical form is such a path itself, starts at the least name and is its
own canonical form; the two ways round three or more names have different ones. -/
theorem canonical_separates_rotations (closed : IsSimpleClosed p) (closed' : IsSimpleClosed q) :
    (canonical p = canonical q ↔ p.dropLast ~r q.dropLast) ∧
    IsFormOf p (canonical p) ∧
    (∀ path, canonical (canonical path) = canonical path) ∧
    (3 ≤ p.dropLast.length → IsSimpleClosed p.reverse ∧ canonical p.reverse ≠ canonical p) :=
  ⟨closed.canonical_eq_iff closed', closed.isFormOf_canonical, canonical_canonical,
    fun long => ⟨closed.reverse, closed.canonical_reverse_ne long⟩⟩

theorem canonical_separates_rotations_triangle :
    IsSimpleClosed ["B", "C", "A", "B"] ∧ IsSimpleClosed ["C", "A", "B", "C"] ∧
      canonical ["B", "C", "A", "B"] = ["A", "B", "C", "A"] ∧
      ["B", "C", "A"] ~r ["C", "A", "B"] ∧
      canonical ["B", "A", "C", "B"] ≠ canonical ["B", "C", "A", "B"] := by
  have closed : IsSimpleClosed ["B", "C", "A", "B"] := ⟨by decide, by decide, by decide⟩
  have closed' : IsSimpleClosed ["C", "A", "B", "C"] := ⟨by decide, by decide, by decide⟩
  obtain ⟨iff, _, _, reversed⟩ := canonical_separates_rotations closed closed'
  exact ⟨closed, closed', by decide, iff.1 (by decide), (reversed (by decide)).2⟩

end SchemaHealth
