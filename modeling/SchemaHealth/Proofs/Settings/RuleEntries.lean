import SchemaHealth.Proofs.LastEntry
import SchemaHealth.Proofs.Settings.Accepted
import SchemaHealth.Proofs.Toml.SingleKeys

/-!
# Entries about rules

A settings file may speak of one rule in several entries and spellings. The entries are settled
under their spellings first, and under the keys of the rules after that. So of the spellings of a
rule the one counts that comes up last as a new one, with the last value that it is given
(`Counts`). That is the last entry about the rule, unless the file is in JSON and repeats a spelling
there which another one has followed in between (`rules_of_load`).
-/

namespace SchemaHealth.Settings

variable {format : FileFormat} {text key path : String} {entries : List (String × Option Bool)}
  {read : String → Except FileError String} {s : Settings}

/-- The entries about rules in the text of a settings file, in order. -/
def FileFormat.listedRules? (format : FileFormat) (text : String) :
    Option (List (String × Option Bool)) := do
  let fields ← format.fields?
    ["rules", "blast_radius", "composite_keys", "reporter", "defaults"] (← format.tree? text)
  fields.getD? "rules" (Tree.entries? format.ruleSwitch?) []

/-- The place at which the spelling of an entry comes up for the first time. -/
def firstPlace (entries : List (String × Option Bool)) (entry : String × Option Bool) : Nat :=
  (entries.map (·.1)).idxOf entry.1

/-- An entry counts for the rule with a key: it is the last one in its spelling, and no other
spelling of the rule comes up later for the first time. -/
structure Counts (entries : List (String × Option Bool)) (key : String)
    (entry : String × Option Bool) : Prop where
  isLast : IsLastWith (fun other => other.1 = entry.1) entries entry
  about : ruleKey entry.1 = key
  newest : ∀ other ∈ entries, ruleKey other.1 = key →
    firstPlace entries other ≤ firstPlace entries entry

/-! ## Settled entries -/

/-- Settling keeps the spellings in order of first occurrence. -/
theorem pairwise_firstPlace_settled (entries : List (String × Option Bool)) :
    (settled entries).Pairwise fun a b => firstPlace entries a < firstPlace entries b := by
  have ordered := pairwise_idxOf_distinct (entries.map (·.1))
  rw [← keys_settled, List.pairwise_map] at ordered
  exact ordered

/-- Settling keeps every spelling. -/
theorem forall_mem_settled_iff (entries : List (String × Option Bool)) (p : String → Prop) :
    (∀ entry ∈ settled entries, p entry.1) ↔ ∀ entry ∈ entries, p entry.1 := by
  have inSettled := List.forall_mem_map (f := (·.1)) (l := settled entries) (P := p)
  have inEntries := List.forall_mem_map (f := (·.1)) (l := entries) (P := p)
  rw [← inSettled, ← inEntries, keys_settled]
  simp only [mem_distinct]

/-- The entry that counts is the last one about the rule when the spellings are settled. -/
theorem counts_iff {entry : String × Option Bool} : Counts entries key entry
    ↔ IsLastWith (fun entry => ruleKey entry.1 = key) (settled entries) entry := by
  rw [isLastWith_iff_of_pairwise (pairwise_firstPlace_settled entries), mem_settled_iff]
  have others := forall_mem_settled_iff entries fun name =>
    ruleKey name = key → (entries.map (·.1)).idxOf name ≤ firstPlace entries entry
  constructor
  · rintro ⟨isLast, about, newest⟩
    exact ⟨isLast, about, others.2 newest⟩
  · rintro ⟨isLast, about, newest⟩
    exact ⟨isLast, about, others.1 newest⟩

/-- The rules of some entries, by their keys. -/
def rulesOf (entries : List (String × Option Bool)) : Dictionary String (Option Bool) :=
  .ofList ((settled entries).map fun entry => (ruleKey entry.1, entry.2))

/-- The rules that are set are those with an entry, in whatever spelling. -/
theorem mem_keys_rulesOf :
    key ∈ (rulesOf entries).keys ↔ ∃ entry ∈ entries, ruleKey entry.1 = key := by
  have keys : (settled entries).map (fun entry => ruleKey entry.1)
      = (distinct (entries.map (·.1))).map ruleKey := by
    rw [← keys_settled, List.map_map]
    rfl
  rw [rulesOf, Dictionary.mem_keys_ofList, List.map_map, Function.comp_def, keys]
  simp

/-- A rule is set as its entry that counts says. -/
theorem get?_rulesOf {enabled : Option Bool} : (rulesOf entries).get? key = some enabled
    ↔ ∃ entry, Counts entries key entry ∧ entry.2 = enabled := by
  rw [rulesOf, Dictionary.get?_ofList_eq_some_iff, isLastWith_map]
  simp only [counts_iff]
  constructor
  · rintro ⟨entry, isLast, same⟩
    exact ⟨entry, isLast, (Prod.mk.inj same).2⟩
  · rintro ⟨entry, isLast, rfl⟩
    exact ⟨entry, isLast, Prod.ext isLast.property rfl⟩

/-! ## The last entry about a rule -/

/-- The last entry about a rule counts unless another spelling comes up later than its own. -/
theorem counts_or_returns {entry : String × Option Bool}
    (isLast : IsLastWith (fun other => ruleKey other.1 = key) entries entry) :
    Counts entries key entry ∨ ∃ other ∈ entries, ruleKey other.1 = key ∧
      firstPlace entries entry < firstPlace entries other := by
  by_cases newest : ∀ other ∈ entries, ruleKey other.1 = key →
      firstPlace entries other ≤ firstPlace entries entry
  · refine .inl ⟨?_, isLast.property, newest⟩
    obtain ⟨before, after, eq, about, others⟩ := isLast
    refine ⟨before, after, eq, rfl, fun other mem same => others other mem ?_⟩
    exact (congrArg ruleKey same).trans about
  · simp only [not_forall, Nat.not_le] at newest
    obtain ⟨other, mem, about, later⟩ := newest
    exact .inr ⟨other, mem, about, later⟩

/-- Where no spelling is repeated, the last entry about a rule has the spelling that comes up
last. -/
theorem firstPlace_le_of_nodup {entry other : String × Option Bool}
    (nodup : (entries.map (·.1)).Nodup)
    (isLast : IsLastWith (fun other => ruleKey other.1 = key) entries entry)
    (mem : other ∈ entries) (about : ruleKey other.1 = key) :
    firstPlace entries other ≤ firstPlace entries entry := by
  obtain ⟨before, after, rfl, _, others⟩ := isLast
  rw [List.map_append, List.map_cons] at nodup
  have fresh : entry.1 ∉ before.map (·.1) := fun old =>
    List.disjoint_of_nodup_append nodup old List.mem_cons_self
  rw [firstPlace, firstPlace, List.map_append, List.idxOf_append_of_notMem fresh]
  rcases List.mem_append.1 mem with earlier | mem
  · have old : other.1 ∈ before.map (·.1) := List.mem_map_of_mem earlier
    rw [List.idxOf_append_of_mem old]
    exact Nat.le_of_lt (Nat.lt_of_lt_of_le (List.idxOf_lt_length_of_mem old) (Nat.le_add_right _ _))
  · rcases List.mem_cons.1 mem with rfl | later
    · exact Nat.le_of_eq (List.idxOf_append_of_notMem fresh)
    · exact absurd about (others other later)

/-! ## Files -/

/-- The rules of parsed settings are what their entries come to. -/
theorem rules_of_parse? (parsed : parse? format text = some s) :
    ∃ entries, format.listedRules? text = some entries ∧ s.rules = rulesOf entries := by
  obtain ⟨tree, isTree, parsed⟩ := Option.bind_eq_some_iff.1 parsed
  obtain ⟨fields, areFields, parsed⟩ := Option.bind_eq_some_iff.1 parsed
  obtain ⟨⟨_, _⟩, _, parsed⟩ := Option.bind_eq_some_iff.1 parsed
  obtain ⟨rules, areRules, parsed⟩ := Option.bind_eq_some_iff.1 parsed
  obtain ⟨_, _, parsed⟩ := Option.bind_eq_some_iff.1 parsed
  obtain ⟨_, _, parsed⟩ := Option.bind_eq_some_iff.1 parsed
  obtain ⟨_, _, result⟩ := Option.bind_eq_some_iff.1 parsed
  cases result
  have listed : format.listedRules? text
      = fields.getD? "rules" (Tree.entries? format.ruleSwitch?) [] := by
    rw [FileFormat.listedRules?, isTree, Option.bind_eq_bind, Option.bind_some, areFields]
    rfl
  rw [listed]
  unfold Tree.Fields.getD? at areRules ⊢
  split at areRules
  · obtain ⟨keyed, areKeyed, rfl⟩ := Option.map_eq_some_iff.1 areRules
    obtain ⟨entries, areEntries, result⟩ := Option.bind_eq_some_iff.1 areKeyed
    cases result
    exact ⟨entries, areEntries, rfl⟩
  · cases areRules
    exact ⟨[], rfl, rfl⟩

/-! ## Files in TOML -/

section Toml

variable {α : Type} {decode? : Tree → Option α} {members : List (String × Toml.Value)}
  {v : Toml.Value} {read : List (String × α)}

/-- What is read from a table are its entries under their keys. -/
theorem forall₂_of_entries?
    (isRead : (Tree.table (Tree.ofTomlEntries members)).entries? decode? = some read) :
    List.Forall₂ (fun member entry => member.1 = entry.1 ∧
      decode? (Tree.ofToml member.2) = some entry.2) members read := by
  induction members generalizing read with
  | nil =>
      cases isRead
      exact .nil
  | cons member members ih =>
      rw [Tree.ofTomlEntries, Tree.entries?, List.mapM_cons] at isRead
      obtain ⟨entry, first, isRead⟩ := Option.bind_eq_some_iff.1 isRead
      obtain ⟨others, isOthers, result⟩ := Option.bind_eq_some_iff.1 isRead
      obtain ⟨name, isName, made⟩ := Option.bind_eq_some_iff.1 first
      obtain ⟨value, isValue, made⟩ := Option.bind_eq_some_iff.1 made
      cases isName
      cases made
      cases result
      exact .cons ⟨rfl, isValue⟩ (ih isOthers)

theorem eq_map_of_entries?_some {fields : Tree.Fields}
    (isRead : (Tree.table (Tree.ofTomlEntries members)).entries? some = some fields) :
    members.map (fun member => (member.1, Tree.ofToml member.2)) = fields := by
  rw [← List.forall₂_eq_eq_eq, List.forall₂_map_left_iff]
  exact (forall₂_of_entries? isRead).imp fun _ _ same => Prod.ext same.1 (Option.some.inj same.2)

/-- A table of TOML gives entries with different keys. -/
theorem nodup_of_entries? (single : v.HasSingleKeys)
    (isRead : (Tree.ofToml v).entries? decode? = some read) : (read.map (·.1)).Nodup := by
  cases v with
  | table members =>
      have keys : members.map (·.1) = read.map (·.1) := by
        rw [← List.forall₂_eq_eq_eq, List.forall₂_map_left_iff, List.forall₂_map_right_iff]
        exact (forall₂_of_entries? isRead).imp fun _ _ same => same.1
      exact keys ▸ single
  | moment written =>
      obtain ⟨_, _, result⟩ := Option.bind_eq_some_iff.1 isRead
      cases result
      exact List.nodup_singleton _
  | string _ | integer _ | float _ | boolean _ | array _ => cases isRead

/-- In TOML no spelling stands twice among the entries about rules. -/
theorem nodup_of_listedRules? (listed : FileFormat.toml.listedRules? text = some entries) :
    (entries.map (·.1)).Nodup := by
  obtain ⟨tree, isTree, listed⟩ := Option.bind_eq_some_iff.1 listed
  obtain ⟨fields, areFields, listed⟩ := Option.bind_eq_some_iff.1 listed
  obtain ⟨members, parsed, rfl⟩ := Option.map_eq_some_iff.1 isTree
  obtain ⟨all, read, kept⟩ := Option.bind_eq_some_iff.1 areFields
  have same : all = fields := by
    split at kept
    · exact Option.some.inj kept
    · cases kept
  subst same
  unfold Tree.Fields.getD? at listed
  split at listed
  next field found =>
    -- The field of the rules is an entry of the document, which has single keys.
    have mem := List.mem_of_find?_eq_some found
    rw [← eq_map_of_entries?_some read] at mem
    obtain ⟨member, inside, rfl⟩ := List.mem_map.1 mem
    exact nodup_of_entries? (Toml.hasSingleKeys_of_parse? parsed member inside) listed
  next =>
    cases listed
    exact List.nodup_nil

end Toml

/-- The rules in a file that loads are those that its entries name, under their keys, and for each
of them the entry counts whose spelling comes up last, with the last value of that spelling. This
is the last entry about the rule, except in JSON if its spelling was there before another one. -/
theorem rules_of_load (loaded : load read path = .ok s) :
    ∃ text entries, read path = .ok text ∧
      (FileFormat.ofPath path).listedRules? text = some entries ∧
      (∀ key, key ∈ s.rules.keys ↔ ∃ entry ∈ entries, ruleKey entry.1 = key) ∧
      (∀ key enabled, s.rules.get? key = some enabled
        ↔ ∃ entry, Counts entries key entry ∧ entry.2 = enabled) ∧
      ∀ key entry, IsLastWith (fun other => ruleKey other.1 = key) entries entry →
        s.rules.get? key = some entry.2 ∨
          FileFormat.ofPath path = .json ∧ ∃ other ∈ entries, ruleKey other.1 = key ∧
            firstPlace entries entry < firstPlace entries other := by
  obtain ⟨text, content, parsed⟩ := (load_eq_ok_iff.1 loaded).parsed
  obtain ⟨entries, listed, rules⟩ := rules_of_parse? parsed
  refine ⟨text, entries, content, listed, ?_⟩
  rw [rules]
  refine ⟨fun key => mem_keys_rulesOf, fun key enabled => get?_rulesOf, fun key entry isLast => ?_⟩
  rcases counts_or_returns isLast with counts | returns
  · exact .inl (get?_rulesOf.2 ⟨entry, counts, rfl⟩)
  · refine .inr ⟨?_, returns⟩
    cases format : FileFormat.ofPath path with
    | json => rfl
    | toml =>
        rw [format] at listed
        obtain ⟨other, mem, about, later⟩ := returns
        have := firstPlace_le_of_nodup (nodup_of_listedRules? listed) isLast mem about
        exact absurd later (Nat.not_lt.2 this)

/-- A settings file that speaks of one rule three times, in two spellings. -/
def wavering : String :=
  "\x7b\"rules\": \x7b\"pii\": \x7b\"enabled\": true\x7d, \"PII\": \x7b\"enabled\": false\x7d, " ++
    "\"pii\": \x7b\"enabled\": true\x7d\x7d\x7d"

/-- Where that is the only file. -/
def waveringFile (path : String) : Except FileError String :=
  if path = "rules.json" then .ok wavering else .error .noSuchFile

/-- The entries about rules in that file. -/
def waveringEntries : List (String × Option Bool) :=
  [("pii", some true), ("PII", some false), ("pii", some true)]

theorem listedRules?_wavering : FileFormat.json.listedRules? wavering = some waveringEntries := by
  decide +kernel

theorem load_wavering : load waveringFile "rules.json"
    = .ok { standard with rules := .ofList [("pii", some false)] } := by
  have isJson : FileFormat.ofPath "rules.json" = .json := by decide
  have content : waveringFile "rules.json" = .ok wavering := if_pos rfl
  have parsed : parse? (.ofPath "rules.json") wavering
      = some { standard with rules := .ofList [("pii", some false)] } := by
    rw [isJson]
    decide +kernel
  rw [load_of_parsed content parsed]
  rfl

/-- The entry that stands last for the rule, in the spelling that came first. -/
theorem isLastWith_wavering :
    IsLastWith (fun entry => ruleKey entry.1 = "pii") waveringEntries ("pii", some true) :=
  ⟨[("pii", some true), ("PII", some false)], [], rfl, by decide, fun _ mem => absurd mem (by simp)⟩

/-- The entry that counts for it: the other spelling came up later. -/
theorem counts_wavering : Counts waveringEntries "pii" ("PII", some false) where
  isLast := ⟨[("pii", some true)], [("pii", some true)], rfl, rfl, by simp⟩
  about := by decide
  newest := by decide +revert

/-- The last entry about a rule does not always count. -/
theorem last_entry_overruled : ∃ s : Settings,
    load waveringFile "rules.json" = .ok s ∧
    (FileFormat.ofPath "rules.json").listedRules? wavering = some waveringEntries ∧
    IsLastWith (fun entry => ruleKey entry.1 = "pii") waveringEntries ("pii", some true) ∧
    s.rules.get? "pii" = some (some false) :=
  ⟨_, load_wavering, listedRules?_wavering, isLastWith_wavering, by decide⟩

/-- In that file the entry in between counts, and the last one is the exception: its spelling was
there before the other one. -/
theorem rules_of_load_wavering : ∃ s : Settings,
    load waveringFile "rules.json" = .ok s ∧
    (∀ key, key ∈ s.rules.keys ↔ ∃ entry ∈ waveringEntries, ruleKey entry.1 = key) ∧
    Counts waveringEntries "pii" ("PII", some false) ∧
    s.rules.get? "pii" = some (some false) ∧
    IsLastWith (fun entry => ruleKey entry.1 = "pii") waveringEntries ("pii", some true) ∧
    FileFormat.ofPath "rules.json" = .json ∧
    ∃ other ∈ waveringEntries, ruleKey other.1 = "pii" ∧
      firstPlace waveringEntries ("pii", some true) < firstPlace waveringEntries other := by
  obtain ⟨text, entries, content, listed, keys, values, last⟩ := rules_of_load load_wavering
  cases content
  cases listed.symm.trans listedRules?_wavering
  have value := (values _ _).2 ⟨_, counts_wavering, rfl⟩
  refine ⟨_, load_wavering, keys, counts_wavering, value, isLastWith_wavering, ?_⟩
  rcases last _ _ isLastWith_wavering with counts | returns
  · cases value.symm.trans counts
  · exact returns

end SchemaHealth.Settings
