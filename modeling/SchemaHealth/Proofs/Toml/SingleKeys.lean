import SchemaHealth.Proofs.OrderedEntries
import SchemaHealth.Toml.Parser

/-!
# Keys of TOML tables

No key stands twice in a table of a TOML document. Every change to the tables that are being read
keeps this: a new key is entered only where there is none, and the item under an old one takes its
place (`HaveSingleKeys.changeAt?`). So it holds of all tables that the lines of a document make,
and of the values in the document that is read from them (`hasSingleKeys_of_parse?`).
-/

namespace SchemaHealth.Toml

/-- A value in which no key of the outermost table stands twice. -/
def Value.HasSingleKeys : Value → Prop
  | .table entries => (entries.map (·.1)).Nodup
  | _ => True

/-- An item in whose tables no key stands twice. -/
inductive Item.HasSingleKeys : Item → Prop
  | value {v : Value} : v.HasSingleKeys → HasSingleKeys (.value v)
  | table {origin : Origin} {entries : Entries} : (entries.map (·.1)).Nodup →
    (∀ entry ∈ entries, HasSingleKeys entry.2) → HasSingleKeys (.table origin entries)
  | tables {items : List Entries} : (∀ entries ∈ items, (entries.map (·.1)).Nodup) →
    (∀ entries ∈ items, ∀ entry ∈ entries, HasSingleKeys entry.2) → HasSingleKeys (.tables items)

namespace Entries

/-- No key stands twice among some entries, nor in the tables under them. -/
structure HaveSingleKeys (entries : Entries) : Prop where
  nodup : (entries.map (·.1)).Nodup
  items : ∀ entry ∈ entries, entry.2.HasSingleKeys

variable {entries entries' : Entries} {key : String} {item : Item} {path : List String}
  {origin made : Origin} {change : Origin → Entries → Option Entries}

namespace HaveSingleKeys

theorem nil : HaveSingleKeys [] := ⟨List.nodup_nil, by simp⟩

theorem toItem (single : entries.HaveSingleKeys) : (Item.table origin entries).HasSingleKeys :=
  .table single.nodup single.items

theorem of_get? (single : entries.HaveSingleKeys) (found : entries.get? key = some item) :
    item.HasSingleKeys := by
  have mem := (valueAt?_eq_some_iff single.nodup).1 found
  exact single.items (key, item) mem

theorem append (single : entries.HaveSingleKeys) (fresh : entries.get? key = none)
    (item_single : item.HasSingleKeys) : (entries ++ [(key, item)]).HaveSingleKeys := by
  constructor
  · rw [List.map_append]
    exact nodup_append_singleton single.nodup (valueAt?_eq_none_iff.1 fresh)
  · intro entry mem
    rcases List.mem_append.1 mem with mem | last
    · exact single.items entry mem
    · rw [List.mem_singleton.1 last]
      exact item_single

/-- Setting an entry replaces the one with its key, or adds one. -/
theorem setEntry (single : entries.HaveSingleKeys) (item_single : item.HasSingleKeys) :
    HaveSingleKeys (setEntry entries key item) := by
  refine ⟨nodup_keys_setEntry single.nodup, fun entry mem => ?_⟩
  rcases mem_setEntry mem with rfl | old
  · exact item_single
  · exact single.items entry old

theorem of_mem_tables {items : List Entries} (single : (Item.tables items).HasSingleKeys)
    (mem : entries ∈ items) : entries.HaveSingleKeys := by
  cases single with
  | tables nodup inner => exact ⟨nodup entries mem, inner entries mem⟩

theorem tables {items : List Entries} (single : ∀ entries ∈ items, HaveSingleKeys entries) :
    (Item.tables items).HasSingleKeys :=
  .tables (fun entries mem => (single entries mem).nodup)
    fun entries mem => (single entries mem).items

/-- A change at the end of a path keeps keys single if it does so in the table found there. -/
theorem changeAt? (kept : ∀ origin entries entries', HaveSingleKeys entries →
      change origin entries = some entries' → HaveSingleKeys entries')
    (single : entries.HaveSingleKeys)
    (changed : Toml.changeAt? made change path origin entries = some entries') :
    entries'.HaveSingleKeys := by
  induction path generalizing origin entries entries' with
  | nil => exact kept origin entries entries' single changed
  | cons key path ih =>
      rw [Toml.changeAt?] at changed
      split at changed
      next fresh =>
        obtain ⟨inner, inside, result⟩ := Option.bind_eq_some_iff.1 changed
        cases result
        exact single.append fresh (ih nil inside).toItem
      next => cases changed
      next origin inner found =>
        split at changed
        · cases changed
        · obtain ⟨inner', inside, result⟩ := Option.bind_eq_some_iff.1 changed
          cases result
          cases single.of_get? found with
          | table nodup items => exact single.setEntry (ih ⟨nodup, items⟩ inside).toItem
      next items found =>
        split at changed
        · cases changed
        next last isLast =>
          have all := single.of_get? found
          obtain ⟨last', inside, result⟩ := Option.bind_eq_some_iff.1 changed
          cases result
          refine single.setEntry (tables fun entries mem => ?_)
          rcases List.mem_append.1 mem with mem | mem
          · exact of_mem_tables all (List.dropLast_subset items mem)
          · rw [List.mem_singleton.1 mem]
            exact ih (of_mem_tables all (List.mem_of_mem_getLast? isLast)) inside

/-! ## The changes that are made -/

/-- A value that is set anywhere below leaves single keys. -/
theorem setAt? {v : Value} (v_single : v.HasSingleKeys) (single : entries.HaveSingleKeys)
    (changed : Toml.setAt? path key v origin entries = some entries') :
    entries'.HaveSingleKeys := by
  refine single.changeAt? (fun origin entries entries' single added => ?_) changed
  rw [addValue?] at added
  split at added
  · cases added
  · split at added
    · cases added
    next fresh =>
      cases added
      exact single.append (Option.not_isSome_iff_eq_none.1 fresh) (.value v_single)

/-- Opening a table leaves single keys. -/
theorem openTable? (single : entries.HaveSingleKeys)
    (opened : Toml.openTable? key origin entries = some entries') : entries'.HaveSingleKeys := by
  rw [Toml.openTable?] at opened
  split at opened
  next fresh =>
    cases opened
    exact single.append fresh nil.toItem
  next inner found =>
    cases opened
    -- The table is taken out of its place first, so its key is new at the end.
    have others : HaveSingleKeys (entries.filter fun entry => entry.1 ≠ key) :=
      ⟨single.nodup.sublist (List.filter_sublist.map _),
        fun entry mem => single.items entry (List.mem_filter.1 mem).1⟩
    cases single.of_get? found with
    | table nodup items =>
        refine others.append (valueAt?_eq_none_iff.2 fun mem => ?_) (.table nodup items)
        obtain ⟨entry, mem, rfl⟩ := List.mem_map.1 mem
        simpa using (List.mem_filter.1 mem).2
  next => cases opened

/-- Adding a table to an array of tables leaves single keys. -/
theorem openItem? (single : entries.HaveSingleKeys)
    (opened : Toml.openItem? key origin entries = some entries') : entries'.HaveSingleKeys := by
  rw [Toml.openItem?] at opened
  split at opened
  next fresh =>
    cases opened
    refine single.append fresh (tables fun entries mem => ?_)
    rw [List.mem_singleton.1 mem]
    exact nil
  next items found =>
    cases opened
    refine single.setEntry (tables fun entries mem => ?_)
    rcases List.mem_append.1 mem with mem | mem
    · exact of_mem_tables (single.of_get? found) mem
    · rw [List.mem_singleton.1 mem]
      exact nil
  next => cases opened

end HaveSingleKeys

/-! ## Values -/

/-- Turning items into values keeps their keys. -/
theorem keys_entryValues (entries : Entries) :
    (entryValues entries).map (·.1) = entries.map (·.1) := by
  induction entries with
  | nil => rfl
  | cons entry entries ih => rw [entryValues, List.map_cons, ih, List.map_cons]

end Entries

/-- An item with single keys is a value with single keys. -/
theorem Item.HasSingleKeys.toValue {item : Item} (single : item.HasSingleKeys) :
    item.toValue.HasSingleKeys := by
  cases single with
  | value single => exact single
  | table nodup _ =>
      rw [Item.toValue, Value.HasSingleKeys, Entries.keys_entryValues]
      exact nodup
  | tables _ _ => trivial

section Numbers

variable {v : Value} {n : Int} {base : Nat} {isNegative : Bool} {digits cs rest more : List Char}
  {value? : Option Value}

theorem hasSingleKeys_of_integer? (read : integer? n = some v) : v.HasSingleKeys := by
  rw [integer?] at read
  split at read
  · cases read
    trivial
  · cases read

theorem hasSingleKeys_of_float? (read : float? isNegative digits n = some v) :
    v.HasSingleKeys := by
  simp only [float?] at read
  split at read
  · cases read
    trivial
  · split at read
    · cases read
    · cases read
      trivial

theorem hasSingleKeys_of_return (single : ∀ v, value? = some v → v.HasSingleKeys)
    (read : (do return (← value?, more)) = some (v, rest)) : v.HasSingleKeys := by
  obtain ⟨v, isValue, result⟩ := Option.bind_eq_some_iff.1 read
  cases result
  exact single v isValue

theorem hasSingleKeys_of_readInBase? (read : readInBase? base cs = some (v, rest)) :
    v.HasSingleKeys := by
  obtain ⟨⟨digits, more⟩, _, read⟩ := Option.bind_eq_some_iff.1 read
  exact hasSingleKeys_of_return (fun _ => hasSingleKeys_of_integer?) read

theorem hasSingleKeys_of_readDecimal? (read : readDecimal? isNegative cs = some (v, rest)) :
    v.HasSingleKeys := by
  obtain ⟨⟨whole, more⟩, _, read⟩ := Option.bind_eq_some_iff.1 read
  simp only at read
  split at read
  · obtain ⟨⟨fraction, more⟩, _, read⟩ := Option.bind_eq_some_iff.1 read
    simp only at read
    split at read
    · split at read
      · obtain ⟨⟨exponent, more⟩, _, read⟩ := Option.bind_eq_some_iff.1 read
        exact hasSingleKeys_of_return (fun _ => hasSingleKeys_of_float?) read
      · exact hasSingleKeys_of_return (fun _ => hasSingleKeys_of_float?) read
    · exact hasSingleKeys_of_return (fun _ => hasSingleKeys_of_float?) read
  · split at read
    · obtain ⟨⟨exponent, more⟩, _, read⟩ := Option.bind_eq_some_iff.1 read
      exact hasSingleKeys_of_return (fun _ => hasSingleKeys_of_float?) read
    · exact hasSingleKeys_of_return (fun _ => hasSingleKeys_of_integer?) read
  · exact hasSingleKeys_of_return (fun _ => hasSingleKeys_of_integer?) read

theorem hasSingleKeys_of_readNumber? (read : readNumber? cs = some (v, rest)) :
    v.HasSingleKeys := by
  unfold readNumber? at read
  split at read
  · exact hasSingleKeys_of_readInBase? read
  · exact hasSingleKeys_of_readInBase? read
  · exact hasSingleKeys_of_readInBase? read
  · split at read
    · cases read
      trivial
    · cases read
      trivial
    · exact hasSingleKeys_of_readDecimal? read

theorem hasSingleKeys_of_readMoment? (read : readMoment? cs = some (some (v, rest))) :
    v.HasSingleKeys := by
  unfold readMoment? at read
  split at read
  · split at read
    · obtain ⟨⟨date, more⟩, _, read⟩ := Option.bind_eq_some_iff.1 read
      obtain ⟨⟨time, more⟩, _, read⟩ := Option.bind_eq_some_iff.1 read
      cases read
      trivial
    · cases read
  · split at read
    · obtain ⟨⟨time, more⟩, _, read⟩ := Option.bind_eq_some_iff.1 read
      cases read
      trivial
    · cases read

/-- Numbers and moments hold no tables. -/
theorem hasSingleKeys_of_readNumberOrMoment? (read : readNumberOrMoment? cs = some (v, rest)) :
    v.HasSingleKeys := by
  obtain ⟨moment, isMoment, read⟩ := Option.bind_eq_some_iff.1 read
  split at read
  · cases read
    exact hasSingleKeys_of_readMoment? isMoment
  · exact hasSingleKeys_of_readNumber? read

end Numbers

/-- The pairs of an inline table set one entry after the other. -/
theorem haveSingleKeys_of_inlineEntries? {pairs : List (List String × String × Value)}
    {entries entries' : Entries} (values : ∀ pair ∈ pairs, pair.2.2.HasSingleKeys)
    (single : entries.HaveSingleKeys) (read : inlineEntries? pairs entries = some entries') :
    entries'.HaveSingleKeys := by
  induction pairs generalizing entries with
  | nil =>
      cases read
      exact single
  | cons pair pairs ih =>
      obtain ⟨first, others⟩ := List.forall_mem_cons.1 values
      obtain ⟨entered, set, read⟩ := Option.bind_eq_some_iff.1 read
      exact ih others (single.setAt? first set) read

mutual

/-- Every value that is read has single keys, since every change to an inline table keeps them. -/
theorem hasSingleKeys_of_readValue? {levels : Nat} :
    ∀ {n : Nat} {cs rest : List Char} {v : Value},
      readValue? levels n cs = some (v, rest) → v.HasSingleKeys
  | 0, cs, rest, v, read => by simp [readValue?] at read
  | n + 1, cs, rest, v, read => by
      unfold readValue? at read
      split at read
      · cases read
      · split at read
        · cases read
        · obtain ⟨_, _, result⟩ := Option.map_eq_some_iff.1 read
          cases result
          trivial
      · split at read
        · cases read
        · obtain ⟨⟨pairs, more⟩, inside, read⟩ := Option.bind_eq_some_iff.1 read
          obtain ⟨entries, entered, result⟩ := Option.bind_eq_some_iff.1 read
          cases result
          have values := hasSingleKeys_of_readPairs? inside
          have single := haveSingleKeys_of_inlineEntries? values .nil entered
          rw [Value.HasSingleKeys, Entries.keys_entryValues]
          exact single.nodup
      · split at read
        · obtain ⟨_, _, result⟩ := Option.map_eq_some_iff.1 read
          cases result
          trivial
        · split at read
          · obtain ⟨_, _, result⟩ := Option.map_eq_some_iff.1 read
            cases result
            trivial
          · split at read
            · obtain ⟨_, _, result⟩ := Option.map_eq_some_iff.1 read
              cases result
              trivial
            · exact hasSingleKeys_of_readNumberOrMoment? read

theorem hasSingleKeys_of_readPairs? {levels : Nat} :
    ∀ {n : Nat} {cs rest : List Char} {pairs : List (List String × String × Value)},
      readPairs? levels n cs = some (pairs, rest) → ∀ pair ∈ pairs, pair.2.2.HasSingleKeys
  | 0, cs, rest, pairs, read => by simp [readPairs?] at read
  | n + 1, cs, rest, pairs, read => by
      unfold readPairs? at read
      split at read
      · cases read
        simp
      · exact hasSingleKeys_of_readMorePairs? read

theorem hasSingleKeys_of_readMorePairs? {levels : Nat} :
    ∀ {n : Nat} {cs rest : List Char} {pairs : List (List String × String × Value)},
      readMorePairs? levels n cs = some (pairs, rest) → ∀ pair ∈ pairs, pair.2.2.HasSingleKeys
  | 0, cs, rest, pairs, read => by simp [readMorePairs?] at read
  | n + 1, cs, rest, pairs, read => by
      unfold readMorePairs? at read
      obtain ⟨⟨⟨path, key⟩, more⟩, _, read⟩ := Option.bind_eq_some_iff.1 read
      obtain ⟨more, _, read⟩ := Option.bind_eq_some_iff.1 read
      obtain ⟨⟨v, more⟩, inside, read⟩ := Option.bind_eq_some_iff.1 read
      have first := hasSingleKeys_of_readValue? inside
      dsimp only at read
      split at read
      · cases read
        simpa using first
      · obtain ⟨⟨others, more⟩, later, result⟩ := Option.bind_eq_some_iff.1 read
        cases result
        exact List.forall_mem_cons.2 ⟨first, hasSingleKeys_of_readMorePairs? later⟩
      · cases read

end

/-! ## Documents -/

namespace Draft

variable {v : Value} {key : String} {path : List String} {rest cs : List Char}

variable {draft draft' : Draft}

/-- A header opens a section by a change that leaves single keys. -/
theorem haveSingleKeys_of_openSection? {change : String → Origin → Entries → Option Entries}
    (kept : ∀ origin entries entries', Entries.HaveSingleKeys entries →
      change key origin entries = some entries' → entries'.HaveSingleKeys)
    (single : draft.entries.HaveSingleKeys)
    (opened : draft.openSection? change path key = some draft') :
    draft'.entries.HaveSingleKeys := by
  obtain ⟨entries, changed, result⟩ := Option.bind_eq_some_iff.1 opened
  cases result
  exact single.changeAt? kept changed

/-- An assignment leaves single keys. -/
theorem haveSingleKeys_of_set? (v_single : v.HasSingleKeys)
    (single : draft.entries.HaveSingleKeys) (set : draft.set? path key v = some draft') :
    draft'.entries.HaveSingleKeys := by
  obtain ⟨entries, changed, result⟩ := Option.bind_eq_some_iff.1 set
  cases result
  exact single.changeAt? (fun _ _ _ inner => inner.setAt? v_single) changed

/-- So does the header of a table. -/
theorem haveSingleKeys_of_readHeader? (single : draft.entries.HaveSingleKeys)
    (read : readHeader? draft cs = some (draft', rest)) : draft'.entries.HaveSingleKeys := by
  obtain ⟨⟨⟨path, key⟩, _⟩, _, read⟩ := Option.bind_eq_some_iff.1 read
  obtain ⟨_, _, read⟩ := Option.bind_eq_some_iff.1 read
  obtain ⟨_, _, read⟩ := Option.bind_eq_some_iff.1 read
  obtain ⟨changed, opened, result⟩ := Option.bind_eq_some_iff.1 read
  cases result
  exact haveSingleKeys_of_openSection? (fun _ _ _ inner => inner.openTable?) single opened

/-- So does the header of an item in an array. -/
theorem haveSingleKeys_of_readItemHeader? (single : draft.entries.HaveSingleKeys)
    (read : readItemHeader? draft cs = some (draft', rest)) : draft'.entries.HaveSingleKeys := by
  obtain ⟨⟨⟨path, key⟩, _⟩, _, read⟩ := Option.bind_eq_some_iff.1 read
  obtain ⟨_, _, read⟩ := Option.bind_eq_some_iff.1 read
  obtain ⟨_, _, read⟩ := Option.bind_eq_some_iff.1 read
  obtain ⟨_, _, read⟩ := Option.bind_eq_some_iff.1 read
  obtain ⟨changed, opened, result⟩ := Option.bind_eq_some_iff.1 read
  cases result
  exact haveSingleKeys_of_openSection? (fun _ _ _ inner => inner.openItem?) single opened

theorem haveSingleKeys_of_readAssignment? (single : draft.entries.HaveSingleKeys)
    (read : readAssignment? draft cs = some (draft', rest)) : draft'.entries.HaveSingleKeys := by
  obtain ⟨⟨⟨path, key⟩, _⟩, _, read⟩ := Option.bind_eq_some_iff.1 read
  obtain ⟨_, _, read⟩ := Option.bind_eq_some_iff.1 read
  obtain ⟨⟨v, _⟩, isValue, read⟩ := Option.bind_eq_some_iff.1 read
  obtain ⟨changed, set, read⟩ := Option.bind_eq_some_iff.1 read
  obtain ⟨_, _, result⟩ := Option.bind_eq_some_iff.1 read
  cases result
  exact haveSingleKeys_of_set? (hasSingleKeys_of_readValue? isValue) single set

/-- Line by line, the tables of a document keep single keys. -/
theorem haveSingleKeys_of_readLines? {n : Nat} (single : draft.entries.HaveSingleKeys)
    (read : readLines? n draft cs = some draft') : draft'.entries.HaveSingleKeys := by
  induction n generalizing draft cs with
  | zero => simp [readLines?] at read
  | succ n ih =>
      unfold readLines? at read
      split at read
      · cases read
        exact single
      · obtain ⟨_, _, read⟩ := Option.bind_eq_some_iff.1 read
        exact ih single read
      · obtain ⟨⟨next, _⟩, line, read⟩ := Option.bind_eq_some_iff.1 read
        exact ih (haveSingleKeys_of_readItemHeader? single line) read
      · obtain ⟨⟨next, _⟩, line, read⟩ := Option.bind_eq_some_iff.1 read
        exact ih (haveSingleKeys_of_readHeader? single line) read
      · exact ih single read
      · exact ih single read
      · obtain ⟨⟨next, _⟩, line, read⟩ := Option.bind_eq_some_iff.1 read
        exact ih (haveSingleKeys_of_readAssignment? single line) read

end Draft

theorem exists_of_mem_entryValues {entries : Entries} {member : String × Value}
    (mem : member ∈ entryValues entries) :
    ∃ entry ∈ entries, member = (entry.1, entry.2.toValue) := by
  induction entries with
  | nil => cases mem
  | cons entry entries ih =>
      rcases List.mem_cons.1 mem with rfl | mem
      · exact ⟨entry, List.mem_cons_self, rfl⟩
      · obtain ⟨entry, mem, eq⟩ := ih mem
        exact ⟨entry, List.mem_cons_of_mem _ mem, eq⟩

/-- No key stands twice in a table that is an entry of a document. -/
theorem hasSingleKeys_of_parse? {text : String} {members : List (String × Value)}
    (parsed : parse? text = some members) : ∀ member ∈ members, member.2.HasSingleKeys := by
  obtain ⟨draft, read, result⟩ := Option.bind_eq_some_iff.1 parsed
  cases result
  have single := Draft.haveSingleKeys_of_readLines? .nil read
  intro member mem
  obtain ⟨entry, here, rfl⟩ := exists_of_mem_entryValues mem
  exact (single.items entry here).toValue

end SchemaHealth.Toml
