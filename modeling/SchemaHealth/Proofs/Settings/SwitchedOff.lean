import SchemaHealth.Proofs.DictionaryKeys
import SchemaHealth.Proofs.Rule.Isolation
import SchemaHealth.Settings.Basic

/-!
# Rules that are switched off

Switching a rule off replaces what the settings say of it in any spelling, while a look-up takes the
keys as they stand. The two go together for keys that are their own key, as those of the nine rules
are (`ruleKey_name`). So a rule is off just when its key was given off or one of the names switched
off is a spelling of its own (`Settings.isEnabled_foldl_disable`), and each of the rules that are
left gives in a report what it gives among all nine (`Settings.activeRules_foldl_disable`).
-/

namespace SchemaHealth

/-- The names of the nine rules, in order. -/
def ruleNames : List String :=
  ["PII", "Composite Keys", "Cycle Counter", "Null Blast Radius", "Deprecation", "Problem Union",
    "Nullable External", "Plural Collections", "Boolean Prefix"]

theorem map_name_battery (keyLimit : Nat) (policy : BlastPolicy) :
    (battery keyLimit policy).map (·.name) = ruleNames := rfl

/-- The key of a rule is spelled as its own key. -/
theorem ruleKey_name {keyLimit : Nat} {policy : BlastPolicy} {rule : Rule}
    (mem : rule ∈ battery keyLimit policy) : ruleKey (ruleKey rule.name) = ruleKey rule.name := by
  have own : ∀ name ∈ ruleNames, ruleKey (ruleKey name) = ruleKey name := by decide +kernel
  refine own rule.name ?_
  rw [← map_name_battery keyLimit policy]
  exact List.mem_map_of_mem mem

namespace Settings

variable {s : Settings} {names : List String} {name key rule : String}

/-- A rule is left out by settings in which some names are switched off: one of the names is a
spelling of its own, or the settings have it off under its key. -/
def LeavesOut (s : Settings) (names : List String) (rule : String) : Prop :=
  (∃ name ∈ names, ruleKey name = ruleKey rule) ∨ s.rules.get? (ruleKey rule) = some (some false)

instance (s : Settings) (names : List String) (rule : String) :
    Decidable (s.LeavesOut names rule) :=
  inferInstanceAs (Decidable (_ ∨ _))

/-! ## What is said of a rule -/

/-- Disabling a rule sets its own key, and no other one. -/
theorem get?_disable (own : ruleKey key = key) : (s.disable name).rules.get? key
    = if ruleKey name = key then some (some false) else s.rules.get? key := by
  -- Entries are left out by the key of their key, so only a key that is its own key is safe.
  rw [disable, Dictionary.get?_insert, Dictionary.get?_filterKeys, own]
  by_cases same : ruleKey name = key
  · rw [if_pos same, if_pos same]
  · rw [if_neg same, if_neg same, if_pos (decide_eq_true (Ne.symm same))]

/-- Disabling rules in a row switches off those that were named, in some spelling. -/
theorem get?_foldl_disable (own : ruleKey key = key) : (names.foldl disable s).rules.get? key
    = if ∃ name ∈ names, ruleKey name = key then some (some false) else s.rules.get? key := by
  induction names generalizing s with
  | nil => simp
  | cons first names ih =>
      rw [List.foldl_cons, ih, get?_disable own]
      by_cases later : ∃ name ∈ names, ruleKey name = key
      · simp [later]
      · by_cases here : ruleKey first = key <;> simp [later, here]

/-- Nothing but what is said of the rules changes when rules are switched off. -/
theorem foldl_disable_eq (s : Settings) (names : List String) :
    names.foldl disable s = { s with rules := (names.foldl disable s).rules } := by
  induction names generalizing s with
  | nil => rfl
  | cons first names ih => exact ih (s.disable first)

/-- A rule is off only if the settings say so. -/
theorem isEnabled_eq_false_iff :
    s.isEnabled rule = false ↔ s.rules.get? (ruleKey rule) = some (some false) := by
  rw [isEnabled]
  rcases s.rules.get? (ruleKey rule) with _ | _ | enabled <;> simp

/-- A rule with a stable key runs unless it is left out. -/
theorem isEnabled_foldl_disable (own : ruleKey (ruleKey rule) = ruleKey rule) :
    (names.foldl disable s).isEnabled rule = true ↔ ¬ s.LeavesOut names rule := by
  rw [← Bool.not_eq_false, isEnabled_eq_false_iff, get?_foldl_disable own, LeavesOut]
  by_cases spelled : ∃ name ∈ names, ruleKey name = ruleKey rule <;> simp [spelled]

end Settings

/-! ## The rules that are left -/

/-- A report by some of the rules gives of each what a report by all of them gives of it, in the
same order. -/
theorem Document.results_report_filter_sublist (d : Document) (rules : List Rule)
    (kept : Rule → Bool) (details : ReportDetails) :
    (d.report (rules.filter kept) details).results.Sublist (d.report rules details).results := by
  rw [results_report, results_report]
  exact List.filter_sublist.map _

/-- After some names were switched off, the rules that run are the nine without those left out. A
report has one result for each rule that runs, which is the one that it has in a report by all
nine, in the same order. -/
theorem Settings.activeRules_foldl_disable (s : Settings) (names : List String) :
    let rules := battery s.keyLimit s.blast
    let kept := fun rule : Rule => decide (¬ s.LeavesOut names rule.name)
    rules.map (·.name) = ruleNames ∧
    (names.foldl disable s).activeRules = rules.filter kept ∧
    ∀ (d : Document) (details : ReportDetails),
      let all := (d.report rules details).results
      let left := (d.report (names.foldl disable s).activeRules details).results
      all = rules.map (·.run d) ∧ left = (rules.filter kept).map (·.run d) ∧ left.Sublist all := by
  intro rules kept
  have active : (names.foldl disable s).activeRules = rules.filter kept := by
    have limit : (names.foldl disable s).keyLimit = s.keyLimit := by rw [foldl_disable_eq]
    have policy : (names.foldl disable s).blast = s.blast := by rw [foldl_disable_eq]
    rw [activeRules, limit, policy]
    refine List.filter_congr fun rule mem => ?_
    rw [Bool.eq_iff_iff, isEnabled_foldl_disable (ruleKey_name mem), decide_eq_true_iff]
  refine ⟨map_name_battery _ _, active, fun d details => ?_⟩
  dsimp only
  rw [active]
  exact ⟨d.results_report rules details, d.results_report (rules.filter kept) details,
    d.results_report_filter_sublist rules kept details⟩

/-- Settings with entries that no look-up finds, and with two spellings of one rule. -/
def spelledSettings : Settings :=
  { Settings.standard with
    rules := .ofList [("PII", some true), ("pii", some false), ("Cycle Counter", some false),
      ("boolean_prefix", some false), ("boolean-prefix", none), ("deprecation", some true)] }

/-- Of these entries only those under the very key of a rule count, and a rule that was on is off
after any spelling of it was switched off. -/
theorem activeRules_foldl_disable_spelled :
    let names := ["DeprecationRule", "plural_collections-rule", "Deprecation"]
    let left := ["Composite Keys", "Cycle Counter", "Null Blast Radius", "Problem Union",
      "Nullable External", "Boolean Prefix"]
    (names.foldl Settings.disable spelledSettings).activeRules.map (·.name) = left ∧
      ∀ (d : Document) (details : ReportDetails),
        (d.report (names.foldl Settings.disable spelledSettings).activeRules details).results.length
          = left.length := by
  intro names left
  obtain ⟨-, active, results⟩ := Settings.activeRules_foldl_disable spelledSettings names
  have kept : (names.foldl Settings.disable spelledSettings).activeRules.map (·.name) = left := by
    rw [active]
    decide +kernel
  refine ⟨kept, fun d details => ?_⟩
  obtain ⟨-, isLeft, -⟩ := results d details
  rw [isLeft, List.length_map, ← active, ← kept, List.length_map]

end SchemaHealth
