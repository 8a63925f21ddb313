import SchemaHealth.Proofs.DictionaryKeys
import SchemaHealth.Proofs.OrderedEntries
import Mathlib.Data.List.Induction

/-!
# The last entries of lists

Where several entries have one key, `settled` and `Dictionary.ofList` both take the value of the
last one (`mem_settled_iff`, `get?_ofList_eq_some_iff`). They differ in the order of the keys: the
settled entries come in the order in which their keys first come up (`keys_settled`), so that the
last of them with some property is the one whose key comes up last as a new one
(`isLastWith_iff_of_pairwise`).
-/

namespace SchemaHealth

/-- The last thing in a list with a property. -/
def IsLastWith {α : Type} (p : α → Prop) (l : List α) (a : α) : Prop :=
  ∃ before after, l = before ++ a :: after ∧ p a ∧ ∀ b ∈ after, ¬ p b

section

variable {α β : Type} {p : α → Prop} {l : List α} {a b : α}

theorem not_isLastWith_nil : ¬ IsLastWith p [] a := by
  rintro ⟨before, after, eq, _⟩
  exact List.append_ne_nil_of_right_ne_nil before (List.cons_ne_nil a after) eq.symm

theorem IsLastWith.mem (isLast : IsLastWith p l a) : a ∈ l := by
  obtain ⟨before, after, rfl, _⟩ := isLast
  exact List.mem_append_right _ List.mem_cons_self

theorem IsLastWith.property (isLast : IsLastWith p l a) : p a := by
  obtain ⟨before, after, _, here, _⟩ := isLast
  exact here

/-- An entry at the end is the last one with the property if it has it, and changes nothing if
not. -/
theorem isLastWith_concat : IsLastWith p (l ++ [b]) a ↔ p b ∧ a = b ∨ ¬ p b ∧ IsLastWith p l a := by
  constructor
  · rintro ⟨before, after, eq, here, others⟩
    induction after using List.reverseRecOn with
    | nil =>
        obtain ⟨rfl, same⟩ := List.append_inj' eq rfl
        cases same
        exact .inl ⟨here, rfl⟩
    | append_singleton after last _ =>
        rw [← List.cons_append, ← List.append_assoc] at eq
        obtain ⟨rfl, same⟩ := List.append_inj' eq rfl
        cases same
        have earlier : ∀ c ∈ after, ¬ p c := fun c mem => others c (List.mem_append_left _ mem)
        exact .inr ⟨others b (by simp), before, after, rfl, here, earlier⟩
  · rintro (⟨here, rfl⟩ | ⟨other, before, after, rfl, here, others⟩)
    · exact ⟨l, [], rfl, here, by simp⟩
    · refine ⟨before, after ++ [b], by simp, here, fun c mem => ?_⟩
      rcases List.mem_append.1 mem with mem | last
      · exact others c mem
      · rwa [List.mem_singleton.1 last]

/-- Where a list is in a strict order, the last thing with a property is the greatest one. -/
theorem isLastWith_iff_of_pairwise {rank : α → Nat}
    (ordered : l.Pairwise fun a b => rank a < rank b) :
    IsLastWith p l a ↔ a ∈ l ∧ p a ∧ ∀ b ∈ l, p b → rank b ≤ rank a := by
  constructor
  · intro isLast
    refine ⟨isLast.mem, isLast.property, fun b mem also => ?_⟩
    obtain ⟨before, after, rfl, _, others⟩ := isLast
    rcases List.mem_append.1 mem with earlier | mem
    · exact Nat.le_of_lt ((List.pairwise_append.1 ordered).2.2 b earlier a List.mem_cons_self)
    · rcases List.mem_cons.1 mem with rfl | later
      · exact Nat.le_refl _
      · exact absurd also (others b later)
  · rintro ⟨mem, here, greatest⟩
    obtain ⟨before, after, rfl⟩ := List.append_of_mem mem
    refine ⟨before, after, rfl, here, fun b later also => ?_⟩
    have rest := (List.pairwise_append.1 ordered).2.1
    have less : rank a < rank b := (List.pairwise_cons.1 rest).1 b later
    have most : rank b ≤ rank a :=
      greatest b (List.mem_append_right _ (List.mem_cons_of_mem _ later)) also
    omega

/-- The last entry of a mapped list comes from the last one of the list. -/
theorem isLastWith_map {f : β → α} {l : List β} :
    IsLastWith p (l.map f) a ↔ ∃ b, IsLastWith (fun b => p (f b)) l b ∧ f b = a := by
  constructor
  · rintro ⟨before, after, eq, here, others⟩
    obtain ⟨before, rest, rfl, rfl, tail⟩ := List.map_eq_append_iff.1 eq
    obtain ⟨b, after, rfl, rfl, rfl⟩ := List.map_eq_cons_iff.1 tail
    exact ⟨b, ⟨before, after, rfl, here, fun c mem => others (f c) (List.mem_map_of_mem mem)⟩, rfl⟩
  · rintro ⟨b, ⟨before, after, rfl, here, others⟩, rfl⟩
    exact ⟨before.map f, after.map f, by simp, here, List.forall_mem_map.2 others⟩

end

section Entries

variable {κ α : Type} [DecidableEq κ] {entries : List (κ × α)} {entry : κ × α} {key : κ} {value : α}

/-- The keys stand in the order in which they first come up. -/
theorem keys_settled (entries : List (κ × α)) :
    (settled entries).map (·.1) = distinct (entries.map (·.1)) := by
  rw [← foldl_insertLast_nil]
  induction entries using List.reverseRecOn with
  | nil => rfl
  | append_singleton entries last ih =>
      rw [settled_append_singleton, keys_setEntry, ih, List.map_append, List.foldl_append]
      rfl

/-- Settled entries hold the last value that their key was given. -/
theorem valueAt?_settled : valueAt? (settled entries) key = some value
    ↔ IsLastWith (fun entry => entry.1 = key) entries (key, value) := by
  induction entries using List.reverseRecOn with
  | nil => exact iff_of_false (by simp [settled, valueAt?]) not_isLastWith_nil
  | append_singleton entries last ih =>
      rw [settled_append_singleton, valueAt?_setEntry, isLastWith_concat, ← ih]
      by_cases same : last.1 = key
      · simp [same, Prod.ext_iff, eq_comm]
      · simp [same]

/-- A settled entry has the last value that its key is given. -/
theorem mem_settled_iff :
    entry ∈ settled entries ↔ IsLastWith (fun other => other.1 = entry.1) entries entry := by
  have nodup : ((settled entries).map (·.1)).Nodup := by
    rw [keys_settled]
    exact nodup_distinct _
  rw [← valueAt?_eq_some_iff nodup, valueAt?_settled]

end Entries

/-- A dictionary has the last value that a key is given. -/
theorem Dictionary.get?_ofList_eq_some_iff {κ α : Type} [LE κ] [LT κ] [Std.IsLinearOrder κ]
    [Std.LawfulOrderLT κ] [DecidableEq κ] [DecidableLT κ] {entries : List (κ × α)} {key : κ}
    {value : α} : (ofList entries).get? key = some value
      ↔ IsLastWith (fun entry => entry.1 = key) entries (key, value) := by
  induction entries using List.reverseRecOn with
  | nil => exact iff_of_false (by simp [ofList, empty, get?]) not_isLastWith_nil
  | append_singleton entries last ih =>
      have made : ofList (entries ++ [last]) = (ofList entries).insert last.1 last.2 := by
        rw [ofList, List.foldl_append]
        rfl
      rw [made, get?_insert, isLastWith_concat, ← ih]
      by_cases same : last.1 = key
      · simp [same, Prod.ext_iff, eq_comm]
      · simp [same]

end SchemaHealth
