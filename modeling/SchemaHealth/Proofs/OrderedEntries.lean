import SchemaHealth.Graph.Distinct
import SchemaHealth.Ordered

/-!
# Values under keys

What `setEntry` does to the values (`valueAt?_setEntry`) and to the keys (`keys_setEntry`) of a list
of entries. Where no key comes up twice, the entries are the values under the keys
(`valueAt?_eq_some_iff`).
-/

namespace SchemaHealth

variable {κ α : Type} [DecidableEq κ] {entries : List (κ × α)} {key other : κ} {value : α}

theorem valueAt?_cons (entry : κ × α) (entries : List (κ × α)) (key : κ) :
    valueAt? (entry :: entries) key
      = if entry.1 = key then some entry.2 else valueAt? entries key := by
  by_cases same : entry.1 = key <;> simp [valueAt?, same]

/-- No value is found under just the keys that are not there. -/
theorem valueAt?_eq_none_iff : valueAt? entries key = none ↔ key ∉ entries.map (·.1) := by
  induction entries with
  | nil => simp [valueAt?]
  | cons entry entries ih =>
      rw [valueAt?_cons, List.map_cons, List.mem_cons, not_or, ← ih]
      by_cases same : entry.1 = key
      · simp [same]
      · simp [same, Ne.symm same]

/-- Where no key stands twice, the value under a key is that of its entry. -/
theorem valueAt?_eq_some_iff (nodup : (entries.map (·.1)).Nodup) :
    valueAt? entries key = some value ↔ (key, value) ∈ entries := by
  induction entries with
  | nil => simp [valueAt?]
  | cons entry entries ih =>
      obtain ⟨fresh, nodup⟩ := List.nodup_cons.1 nodup
      rw [valueAt?_cons, List.mem_cons]
      by_cases same : entry.1 = key
      · have absent : (key, value) ∉ entries := fun mem =>
          fresh (List.mem_map.2 ⟨(key, value), mem, same.symm⟩)
        rw [if_pos same, or_iff_left absent, Option.some_inj, Prod.mk.injEq]
        exact ⟨fun eq => ⟨same.symm, eq.symm⟩, fun eq => eq.2.symm⟩
      · have different : (key, value) ≠ entry := by
          rintro rfl
          exact same rfl
        rw [if_neg same, ih nodup, or_iff_right different]

/-- Where no key comes up twice, at most one entry has a key. -/
theorem filter_key_eq (nodup : (entries.map (·.1)).Nodup) :
    entries.filter (fun entry => entry.1 = key)
      = ((valueAt? entries key).map fun value => (key, value)).toList := by
  induction entries with
  | nil => rfl
  | cons entry entries ih =>
      obtain ⟨fresh, nodup⟩ := List.nodup_cons.1 nodup
      rw [List.filter_cons, valueAt?_cons, ih nodup]
      by_cases same : entry.1 = key
      · subst same
        have absent : valueAt? entries entry.1 = none := valueAt?_eq_none_iff.2 fresh
        simp [absent]
      · simp [same]

theorem valueAt?_append_singleton (fresh : key ∉ entries.map (·.1)) :
    valueAt? (entries ++ [(key, value)]) other
      = if key = other then some value else valueAt? entries other := by
  induction entries with
  | nil => exact valueAt?_cons (key, value) [] other
  | cons entry entries ih =>
      rw [List.map_cons, List.mem_cons, not_or] at fresh
      rw [List.cons_append, valueAt?_cons, ih fresh.2, valueAt?_cons]
      by_cases here : entry.1 = other
      · have later : key ≠ other := by
          rintro rfl
          exact fresh.1 here.symm
        rw [if_pos here, if_neg later, if_pos here]
      · rw [if_neg here, if_neg here]

theorem valueAt?_map_set :
    valueAt? (entries.map fun entry => if entry.1 = key then (key, value) else entry) other
      = (valueAt? entries other).map fun old => if key = other then value else old := by
  induction entries with
  | nil => rfl
  | cons entry entries ih =>
      rw [List.map_cons, valueAt?_cons, ih, valueAt?_cons]
      by_cases here : entry.1 = other
      · by_cases set : entry.1 = key
        · have same : key = other := set.symm.trans here
          simp [here, same]
        · have different : key ≠ other := fun same => set (here.trans same.symm)
          simp [here, different, Ne.symm different]
      · by_cases set : entry.1 = key
        · have different : key ≠ other := fun same => here (set.trans same)
          simp [set, different]
        · simp [here, set]

theorem any_key_iff :
    (entries.any fun entry => entry.1 = key) = true ↔ key ∈ entries.map (·.1) := by
  simp [List.any_eq_true]

/-- Setting an entry sets the value under its key and leaves the other values alone. -/
theorem valueAt?_setEntry :
    valueAt? (setEntry entries key value) other
      = if key = other then some value else valueAt? entries other := by
  rw [setEntry]
  by_cases present : key ∈ entries.map (·.1)
  · rw [if_pos (any_key_iff.2 present), valueAt?_map_set]
    by_cases same : key = other
    · subst same
      cases found : valueAt? entries key with
      | none => exact absurd present (valueAt?_eq_none_iff.1 found)
      | some old => simp
    · simp [same]
  · rw [if_neg (mt any_key_iff.1 present), valueAt?_append_singleton present]

/-- Setting an entry keeps the others. -/
theorem mem_setEntry {entry : κ × α} (mem : entry ∈ setEntry entries key value) :
    entry = (key, value) ∨ entry ∈ entries := by
  rw [setEntry] at mem
  split at mem
  · obtain ⟨old, also, rfl⟩ := List.mem_map.1 mem
    split
    · exact .inl rfl
    · exact .inr also
  · exact (List.mem_append.1 mem).symm.imp_left List.mem_singleton.1

/-- A key that is set stays at its place or comes last. -/
theorem keys_setEntry :
    (setEntry entries key value).map (·.1) = insertLast (entries.map (·.1)) key := by
  rw [setEntry, insertLast]
  by_cases present : key ∈ entries.map (·.1)
  · rw [if_pos (any_key_iff.2 present), if_pos present, List.map_map]
    refine List.map_congr_left fun entry _ => ?_
    by_cases same : entry.1 = key
    · simp [same]
    · simp [same]
  · rw [if_neg (mt any_key_iff.1 present), if_neg present, List.map_append]
    rfl

/-- Setting an entry makes no key stand twice. -/
theorem nodup_keys_setEntry (nodup : (entries.map (·.1)).Nodup) :
    ((setEntry entries key value).map (·.1)).Nodup := by
  rw [keys_setEntry]
  exact nodup_insertLast nodup

end SchemaHealth
