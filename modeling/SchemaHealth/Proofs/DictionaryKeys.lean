import SchemaHealth.Dictionary

/-!
# Keys of a dictionary

The keys of a dictionary made of a list of entries are the keys of that list (`mem_keys_ofList`).
They increase strictly (`pairwise_keys`), so none comes up twice (`nodup_keys`). Leaving out keys
leaves the values under the other ones (`get?_filterKeys`).
-/

namespace SchemaHealth.Dictionary

variable {κ : Type} {α : Type} [LE κ] [LT κ] [Std.IsLinearOrder κ] [Std.LawfulOrderLT κ]
  [DecidableEq κ] [DecidableLT κ]

omit [LE κ] [Std.IsLinearOrder κ] [Std.LawfulOrderLT κ] in
theorem mem_keys_insertEntry {key other : κ} {value : α} {entries : List (κ × α)} :
    other ∈ (insertEntry key value entries).map (·.1)
      ↔ other = key ∨ other ∈ entries.map (·.1) := by
  induction entries with
  | nil => simp [insertEntry]
  | cons entry rest ih =>
      rw [insertEntry]
      split
      · simp
      · split
        next same => simp [same]
        next different =>
          rw [List.map_cons, List.mem_cons, ih, List.map_cons, List.mem_cons]
          exact or_left_comm

/-- An insertion adds its key and keeps the others. -/
theorem mem_keys_insert {d : Dictionary κ α} {key other : κ} {value : α} :
    other ∈ (d.insert key value).keys ↔ other = key ∨ other ∈ d.keys :=
  mem_keys_insertEntry

theorem mem_keys_foldl_insert {done : Dictionary κ α} {entries : List (κ × α)} {key : κ} :
    key ∈ (entries.foldl (fun d entry => d.insert entry.1 entry.2) done).keys
      ↔ key ∈ done.keys ∨ key ∈ entries.map (·.1) := by
  induction entries generalizing done with
  | nil => simp
  | cons entry rest ih =>
      rw [List.foldl_cons, ih, mem_keys_insert, List.map_cons, List.mem_cons,
        or_comm (a := key = _), or_assoc]

/-- The keys of a dictionary are those of the entries that it is made of. -/
theorem mem_keys_ofList {entries : List (κ × α)} {key : κ} :
    key ∈ (ofList entries).keys ↔ key ∈ entries.map (·.1) := by
  have nothing : key ∉ (empty : Dictionary κ α).keys := List.not_mem_nil
  rw [ofList, mem_keys_foldl_insert]
  exact or_iff_right nothing

/-- Insertions bring in no entry of their own making. -/
theorem mem_foldl_insert {done : Dictionary κ α} {entries : List (κ × α)} {entry : κ × α}
    (mem : entry ∈ (entries.foldl (fun d entry => d.insert entry.1 entry.2) done).toList) :
    entry ∈ done.toList ∨ entry ∈ entries := by
  induction entries generalizing done with
  | nil => exact .inl mem
  | cons head rest ih =>
      rcases ih mem with earlier | later
      · rcases mem_insertEntry earlier with here | earlier
        · exact .inr (List.mem_cons.2 (.inl here))
        · exact .inl earlier
      · exact .inr (List.mem_cons_of_mem head later)

/-- A dictionary has no other entries than those that it is made of. -/
theorem mem_of_mem_ofList {entries : List (κ × α)} {entry : κ × α}
    (mem : entry ∈ (ofList entries).toList) : entry ∈ entries :=
  (mem_foldl_insert mem).resolve_left List.not_mem_nil

omit [LE κ] [Std.IsLinearOrder κ] [Std.LawfulOrderLT κ] [DecidableEq κ] [DecidableLT κ] in
theorem pairwise_keys (d : Dictionary κ α) : d.keys.Pairwise (· < ·) :=
  List.pairwise_map.2 d.sorted

omit [Std.IsLinearOrder κ] [DecidableEq κ] [DecidableLT κ] in
/-- No key stands twice in a dictionary. -/
theorem nodup_keys (d : Dictionary κ α) : d.keys.Nodup := by
  refine d.pairwise_keys.imp fun {a b} before => ?_
  rintro rfl
  exact Std.lt_irrefl before

omit [LE κ] [Std.IsLinearOrder κ] [Std.LawfulOrderLT κ] [DecidableLT κ] in
/-- A dictionary filtered by its keys finds what it found under the keys that are kept. -/
theorem get?_filterKeys (d : Dictionary κ α) (keep : κ → Bool) (key : κ) :
    (d.filterKeys keep).get? key = if keep key then d.get? key else none := by
  have found : ∀ entry : κ × α, (keep entry.1 && decide (entry.1 = key))
      = (keep key && decide (entry.1 = key)) := by
    intro entry
    by_cases same : entry.1 = key
    · rw [same]
    · simp [same]
  rw [get?, get?, filterKeys, List.find?_filter]
  simp only [decide_eq_true_eq, Bool.decide_and, Bool.decide_eq_true, found]
  cases keep key with
  | true => simp
  | false => simp

end SchemaHealth.Dictionary
