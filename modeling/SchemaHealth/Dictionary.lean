/-!
# Dictionaries in key order

A `Dictionary` maps keys to values and lists its entries in strictly increasing key order, so that
two dictionaries with the same entries are equal. `ofList` lets the last of several entries for a
key win.

The main statements are `get?_insert`, which says what an insertion does to every key, and
`ofList_toList`, by which the entries determine the dictionary.
-/

namespace SchemaHealth

variable {κ : Type} {α β : Type} [LE κ] [LT κ] [Std.IsLinearOrder κ] [Std.LawfulOrderLT κ]
  [DecidableEq κ] [DecidableLT κ]

/-- A finite map with its entries in strictly increasing key order. -/
structure Dictionary (κ α : Type) [LT κ] where
  toList : List (κ × α)
  sorted : toList.Pairwise fun a b => a.1 < b.1

namespace Dictionary

/-- The entries with `key` set to `value`, at its place in the order. -/
def insertEntry (key : κ) (value : α) : List (κ × α) → List (κ × α)
  | [] => [(key, value)]
  | entry :: rest =>
    if key < entry.1 then (key, value) :: entry :: rest
    else if key = entry.1 then (key, value) :: rest
    else entry :: insertEntry key value rest

omit [LE κ] [Std.IsLinearOrder κ] [Std.LawfulOrderLT κ] in
theorem mem_insertEntry {key : κ} {value : α} {entry : κ × α} {entries : List (κ × α)}
    (mem : entry ∈ insertEntry key value entries) : entry = (key, value) ∨ entry ∈ entries := by
  induction entries with
  | nil => simpa [insertEntry] using mem
  | cons head rest ih =>
    simp only [insertEntry] at mem
    split at mem
    · simpa using mem
    · split at mem
      · rcases List.mem_cons.1 mem with here | there
        · exact .inl here
        · exact .inr (List.mem_cons_of_mem _ there)
      · rcases List.mem_cons.1 mem with here | there
        · exact .inr (here ▸ List.mem_cons_self)
        · exact (ih there).imp_right (List.mem_cons_of_mem _)

theorem sorted_insertEntry (key : κ) (value : α) {entries : List (κ × α)}
    (sorted : entries.Pairwise fun a b => a.1 < b.1) :
    (insertEntry key value entries).Pairwise fun a b => a.1 < b.1 := by
  induction entries with
  | nil => simp [insertEntry]
  | cons head rest ih =>
    obtain ⟨least, tail⟩ := List.pairwise_cons.1 sorted
    simp only [insertEntry]
    split
    next before =>
      refine List.pairwise_cons.2 ⟨fun entry mem => ?_, sorted⟩
      rcases List.mem_cons.1 mem with rfl | later
      · exact before
      · exact Std.lt_trans before (least entry later)
    next after =>
      split
      next same => exact List.pairwise_cons.2 ⟨fun entry mem => same ▸ least entry mem, tail⟩
      next different =>
        refine List.pairwise_cons.2 ⟨fun entry mem => ?_, ih tail⟩
        rcases mem_insertEntry mem with rfl | later
        · exact Std.lt_of_le_of_ne (Std.not_lt.1 after) (Ne.symm different)
        · exact least entry later

/-- The dictionary without entries. -/
def empty : Dictionary κ α := ⟨[], .nil⟩

instance : Inhabited (Dictionary κ α) := ⟨empty⟩

/-- The dictionary with `key` set to `value`. -/
def insert (d : Dictionary κ α) (key : κ) (value : α) : Dictionary κ α :=
  ⟨insertEntry key value d.toList, sorted_insertEntry key value d.sorted⟩

/-- The dictionary of a list of entries. Of several entries for one key the last one counts. -/
def ofList (entries : List (κ × α)) : Dictionary κ α :=
  entries.foldl (fun d entry => d.insert entry.1 entry.2) empty

/-- The value under a key. -/
def get? (d : Dictionary κ α) (key : κ) : Option α :=
  (d.toList.find? fun entry => entry.1 = key).map (·.2)

/-- The keys, in increasing order. -/
def keys (d : Dictionary κ α) : List κ := d.toList.map (·.1)

/-- Whether there is no entry. -/
def isEmpty (d : Dictionary κ α) : Bool := d.toList.isEmpty

/-- The entries whose keys satisfy a test. -/
def filterKeys (d : Dictionary κ α) (keep : κ → Bool) : Dictionary κ α :=
  ⟨d.toList.filter fun entry => keep entry.1, d.sorted.filter _⟩

/-- The dictionary with the count under a key raised by one; a missing key counts as zero. -/
def increment (d : Dictionary κ Nat) (key : κ) : Dictionary κ Nat :=
  d.insert key ((d.get? key).getD 0 + 1)

omit [LE κ] [Std.IsLinearOrder κ] [Std.LawfulOrderLT κ] [DecidableEq κ] [DecidableLT κ] in
@[ext] theorem ext {d e : Dictionary κ α} (same : d.toList = e.toList) : d = e := by
  cases d; cases e; cases same; rfl

/-- An insertion sets its key and leaves every other key alone. -/
theorem get?_insert (d : Dictionary κ α) (key : κ) (value : α) (other : κ) :
    (d.insert key value).get? other = if key = other then some value else d.get? other := by
  obtain ⟨entries, sorted⟩ := d
  simp only [insert, get?]
  induction entries with
  | nil => by_cases same : key = other <;> simp [insertEntry, same]
  | cons head rest ih =>
    have tail := (List.pairwise_cons.1 sorted).2
    simp only [insertEntry]
    split
    next before => by_cases same : key = other <;> simp [same]
    next after =>
      split
      next same =>
        by_cases here : key = other
        · simp [here]
        · simp [here, same ▸ here]
      next different =>
        by_cases here : head.1 = other
        · simp [here, show key ≠ other from fun eq => different (eq.trans here.symm)]
        · simpa [List.find?_cons, here] using ih tail

theorem insertEntry_of_forall_lt {key : κ} {value : α} {entries : List (κ × α)}
    (later : ∀ entry ∈ entries, entry.1 < key) :
    insertEntry key value entries = entries ++ [(key, value)] := by
  induction entries with
  | nil => rfl
  | cons head rest ih =>
    have before : head.1 < key := later head List.mem_cons_self
    have different : key ≠ head.1 := fun same => Std.lt_irrefl (same ▸ before)
    simp [insertEntry, Std.not_lt.2 (Std.le_of_lt before), different,
      ih fun entry mem => later entry (List.mem_cons_of_mem _ mem)]

theorem foldl_insert_toList (done : Dictionary κ α) {entries : List (κ × α)}
    (sorted : (done.toList ++ entries).Pairwise fun a b => a.1 < b.1) :
    (entries.foldl (fun d entry => d.insert entry.1 entry.2) done).toList
      = done.toList ++ entries := by
  induction entries generalizing done with
  | nil => simp
  | cons entry rest ih =>
    have before : ∀ earlier ∈ done.toList, earlier.1 < entry.1 := fun earlier mem =>
      (List.pairwise_append.1 sorted).2.2 earlier mem entry List.mem_cons_self
    have placed : (done.insert entry.1 entry.2).toList = done.toList ++ [entry] :=
      insertEntry_of_forall_lt before
    rw [List.foldl_cons, ih, placed, List.append_assoc, List.singleton_append]
    rwa [placed, List.append_assoc, List.singleton_append]

/-- The entries of a dictionary make up that dictionary again. -/
@[simp] theorem ofList_toList (d : Dictionary κ α) : ofList d.toList = d :=
  ext (foldl_insert_toList empty d.sorted)

instance [DecidableEq α] : DecidableEq (Dictionary κ α) := fun d e =>
  decidable_of_iff (d.toList = e.toList) ⟨ext, congrArg toList⟩

end Dictionary

end SchemaHealth
