/-!
# Lists without repeats

`distinct` keeps the first occurrence of every element of a list. Its elements are those of the
list (`mem_distinct`), each once (`nodup_distinct`), in order of first occurrence
(`pairwise_idxOf_distinct`). `insertLast` adds an element at the end of a list unless it is there;
adding all elements of a list in turn comes to the same (`foldl_insertLast_nil`).
-/

namespace SchemaHealth

variable {α : Type} [DecidableEq α]

/-- The elements of a list in order of first occurrence. -/
def distinct : List α → List α
  | [] => []
  | a :: l => a :: (distinct l).filter fun b => b ≠ a

@[simp] theorem mem_distinct {a : α} {l : List α} : a ∈ distinct l ↔ a ∈ l := by
  induction l with
  | nil => simp [distinct]
  | cons b l ih => by_cases same : a = b <;> simp [distinct, ih, same]

theorem nodup_distinct (l : List α) : (distinct l).Nodup := by
  induction l with
  | nil => exact List.nodup_nil
  | cons b l ih =>
    refine List.nodup_cons.2 ⟨by simp, ?_⟩
    exact List.Pairwise.filter _ ih

/-- A list without repeats stays as it is. -/
theorem distinct_eq_self {l : List α} (nodup : l.Nodup) : distinct l = l := by
  induction l with
  | nil => rfl
  | cons a l ih =>
    obtain ⟨fresh, nodup⟩ := List.nodup_cons.1 nodup
    have others : l.filter (fun b => b ≠ a) = l := by
      refine List.filter_eq_self.2 fun b mem => decide_eq_true ?_
      rintro rfl
      exact fresh mem
    rw [distinct, ih nodup, others]

theorem distinct_map {β : Type} [DecidableEq β] {f : α → β} (injective : ∀ a b, f a = f b → a = b)
    (l : List α) : distinct (l.map f) = (distinct l).map f := by
  induction l with
  | nil => rfl
  | cons b l ih =>
    rw [List.map_cons, distinct, ih, distinct, List.map_cons, List.filter_map]
    have same : ((fun c => decide (c ≠ f b)) ∘ f) = fun a => decide (a ≠ b) := by
      funext a
      exact decide_eq_decide.2 (not_congr ⟨injective a b, congrArg f⟩)
    rw [same]

/-- The elements are in the order of their first occurrences. -/
theorem pairwise_idxOf_distinct (l : List α) :
    (distinct l).Pairwise fun a b => l.idxOf a < l.idxOf b := by
  induction l with
  | nil => exact List.Pairwise.nil
  | cons c l ih =>
    have later : ∀ b ∈ (distinct l).filter fun b => b ≠ c, (c :: l).idxOf b = l.idxOf b + 1 := by
      intro b mem
      have other : c ≠ b := Ne.symm (by simpa using (List.mem_filter.1 mem).2)
      rw [List.idxOf_cons, beq_eq_false_iff_ne.2 other, cond_false]
    refine List.pairwise_cons.2 ⟨fun b mem => ?_, (ih.filter _).imp_of_mem ?_⟩
    · rw [later b mem, List.idxOf_cons_self]
      exact Nat.succ_pos _
    · intro a b left right before
      rw [later a left, later b right]
      exact Nat.succ_lt_succ before

omit [DecidableEq α] in
theorem nodup_append_singleton {a : α} {l : List α} (nodup : l.Nodup) (fresh : a ∉ l) :
    (l ++ [a]).Nodup := by
  refine List.nodup_append.2 ⟨nodup, by simp, fun b mem c single => ?_⟩
  rw [List.mem_singleton.1 single]
  exact fun same => fresh (same ▸ mem)

/-- A list with an element put at its end, unless the element is there already. -/
def insertLast (l : List α) (a : α) : List α := if a ∈ l then l else l ++ [a]

@[simp] theorem mem_insertLast {a b : α} {l : List α} : b ∈ insertLast l a ↔ b ∈ l ∨ b = a := by
  unfold insertLast
  split
  next mem => exact ⟨.inl, fun h => h.elim id (· ▸ mem)⟩
  next fresh => simp

theorem nodup_insertLast {a : α} {l : List α} (nodup : l.Nodup) : (insertLast l a).Nodup := by
  unfold insertLast
  split
  next mem => exact nodup
  next fresh => exact nodup_append_singleton nodup fresh

theorem foldl_insertLast (l more : List α) :
    more.foldl insertLast l = l ++ (distinct more).filter fun a => a ∉ l := by
  induction more generalizing l with
  | nil => simp [distinct]
  | cons b more ih =>
    rw [List.foldl_cons, ih, distinct, List.filter_cons, List.filter_filter, insertLast]
    by_cases old : b ∈ l
    · have kept : ∀ a ∈ distinct more, decide (a ∉ l) = (decide (a ∉ l) && decide (a ≠ b)) := by
        intro a _
        by_cases same : a = b <;> simp [same, old]
      simp only [old, if_true, not_true, decide_false, Bool.false_eq_true, if_false]
      rw [List.filter_congr kept]
    · have kept : ∀ a ∈ distinct more,
          decide (a ∉ l ++ [b]) = (decide (a ∉ l) && decide (a ≠ b)) := by
        intro a _
        simp [not_or]
      simp only [old, if_false, not_false_eq_true, decide_true, if_true]
      rw [List.filter_congr kept, List.append_assoc]
      rfl

/-- Adding elements one by one keeps their first occurrences. -/
theorem foldl_insertLast_nil (l : List α) : l.foldl insertLast [] = distinct l := by
  rw [foldl_insertLast, List.nil_append, List.filter_eq_self]
  simp

end SchemaHealth
