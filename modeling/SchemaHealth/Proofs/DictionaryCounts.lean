import SchemaHealth.Dictionary

/-!
# Counting in a dictionary

A dictionary of counts is raised by one key at a time. Raising it by the keys of a list counts the
places of each key in the list (`countAt_foldl_increment`), and the counts add up to the length of
the list (`total_foldl_increment`).
-/

namespace SchemaHealth.Dictionary

variable {κ : Type} [LE κ] [LT κ] [Std.IsLinearOrder κ] [Std.LawfulOrderLT κ] [DecidableEq κ]
  [DecidableLT κ]

/-- The count under a key; a missing key counts as zero. -/
def countAt (d : Dictionary κ Nat) (key : κ) : Nat := (d.get? key).getD 0

/-- The sum of some counts. -/
def sumCounts : List (κ × Nat) → Nat
  | [] => 0
  | entry :: rest => entry.2 + sumCounts rest

/-- The sum of all counts. -/
def total (d : Dictionary κ Nat) : Nat := sumCounts d.toList

/-- An increment counts its own key once more, and no other one. -/
theorem countAt_increment (d : Dictionary κ Nat) (key other : κ) :
    (d.increment key).countAt other = d.countAt other + if key = other then 1 else 0 := by
  rw [countAt, increment, get?_insert]
  by_cases same : key = other
  · subst same
    rw [if_pos rfl, if_pos rfl]
    rfl
  · rw [if_neg same, if_neg same]
    rfl

/-- Each key is counted as often as it comes up. -/
theorem countAt_foldl_increment (d : Dictionary κ Nat) (keys : List κ) (key : κ) :
    (keys.foldl (fun counts k => counts.increment k) d).countAt key
      = d.countAt key + keys.count key := by
  induction keys generalizing d with
  | nil => rfl
  | cons first rest ih =>
      rw [List.foldl_cons, ih, countAt_increment, List.count_cons]
      simp only [beq_iff_eq]
      omega

/-- Setting a count takes the old one out of the sum. -/
theorem sumCounts_insertEntry {key : κ} {value : Nat} {entries : List (κ × Nat)}
    (sorted : entries.Pairwise fun a b => a.1 < b.1) :
    sumCounts (insertEntry key value entries)
        + ((entries.find? fun entry => entry.1 = key).map (·.2)).getD 0
      = sumCounts entries + value := by
  induction entries with
  | nil => simp [insertEntry, sumCounts]
  | cons head rest ih =>
      obtain ⟨least, tail⟩ := List.pairwise_cons.1 sorted
      rw [insertEntry]
      split
      next before =>
        -- The key comes before all entries, so it has none yet.
        have none : (head :: rest).find? (fun entry => entry.1 = key) = none := by
          refine List.find?_eq_none.2 fun entry mem => ?_
          have later : key < entry.1 := by
            rcases List.mem_cons.1 mem with rfl | mem
            · exact before
            · exact Std.lt_trans before (least entry mem)
          simpa using (Std.ne_of_lt later).symm
        rw [none]
        simp [sumCounts, Nat.add_comm]
      next after =>
        split
        next same =>
          simp only [same, List.find?_cons, decide_true, Option.map_some, Option.getD_some,
            sumCounts]
          omega
        next different =>
          have ih := ih tail
          simp only [List.find?_cons, Ne.symm different, decide_false, sumCounts]
          omega

/-- An increment adds one to the total. -/
theorem total_increment (d : Dictionary κ Nat) (key : κ) :
    (d.increment key).total = d.total + 1 := by
  have raised : sumCounts (insertEntry key (d.countAt key + 1) d.toList) + d.countAt key
      = sumCounts d.toList + (d.countAt key + 1) :=
    sumCounts_insertEntry d.sorted
  have sum : (d.increment key).total + d.countAt key = d.total + (d.countAt key + 1) := raised
  omega

/-- The counts add up to the number of keys counted. -/
theorem total_foldl_increment (d : Dictionary κ Nat) (keys : List κ) :
    (keys.foldl (fun counts k => counts.increment k) d).total = d.total + keys.length := by
  induction keys generalizing d with
  | nil => rfl
  | cons first rest ih =>
      rw [List.foldl_cons, ih, total_increment, List.length_cons]
      omega

end SchemaHealth.Dictionary
