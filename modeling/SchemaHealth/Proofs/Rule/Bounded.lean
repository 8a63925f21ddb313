import SchemaHealth.Proofs.Cycle.Completeness
import SchemaHealth.Proofs.Graph.RequiredReads
import SchemaHealth.Proofs.Rule.Isolation
import SchemaHealth.Proofs.Rule.Places
import SchemaHealth.Settings.Basic
import Mathlib.Data.List.Perm.Subperm

/-!
# How much rules can find

A rule finds no more than there are places that it looks at. The fields and the object types are
counted by the schema itself. There are no more cycles than references between types, since every
cycle has an edge of its own (`Graph.length_cycles_le`), and no more fields in an analysis of blast
radii than declarations. So the counts in a report are bounded by the schema
(`Document.findings_bounded`).
-/

namespace SchemaHealth

/-- There are at most `n` findings, whether they are listed or counted. -/
def Findings.AtMost (n : Nat) (found : Findings) : Prop :=
  found.toList.length ≤ n ∧ found.size.toNat ≤ n

theorem Findings.AtMost.mono {found : Findings} {m n : Nat} (atMost : found.AtMost m)
    (le : m ≤ n) : found.AtMost n :=
  ⟨atMost.1.trans le, atMost.2.trans le⟩

/-- A count that is the length of a list taken as a word is not above it. -/
theorem Findings.atMost_length {found : Findings} (size : found.size = .ofNat found.toList.length) :
    found.AtMost found.toList.length := by
  refine ⟨Nat.le_refl _, ?_⟩
  rw [size, UInt64.toNat_ofNat']
  exact Nat.mod_le _ _

/-- Where nothing can be found, nothing is counted. -/
theorem Findings.AtMost.size_eq_zero {found : Findings} (atMost : found.AtMost 0) :
    found.size = 0 :=
  UInt64.toNat_inj.1 (Nat.le_zero.1 atMost.2)

theorem length_distinct_le {α : Type} [DecidableEq α] (l : List α) :
    (distinct l).length ≤ l.length :=
  ((nodup_distinct l).subperm fun _ mem => mem_distinct.1 mem).length_le

/-! ## Cycles -/

/-- There are no more cycles than edges, since each has an edge that no other cycle has. -/
theorem Graph.length_cycles_le {g : Graph} (plain : g.CommaFree) :
    g.cycles.length ≤ g.edges.length := by
  obtain ⟨j, finished⟩ := g.exists_isFinished
  have subset : j.closings ⊆ g.edges := fun e mem =>
    Graph.mem_edges.2 (finished.invariant.closing_edge e mem)
  rw [finished.length_cycles plain]
  exact (finished.invariant.nodup_closings.subperm subset).length_le

namespace Document

variable {d : Document} {rule : String} {places : List Location}

/-- The pairs of an object type and the base type of a field of it, each once; built-in scalars do
not count. -/
def referencePairs (d : Document) : List (Name × Name) :=
  distinct (d.objectFields.filterMap fun field =>
    field.2.type.dependency?.map fun target => (field.1.name, target))

/-- The reference pairs are the pairs of types of which the first refers to the second. -/
theorem mem_referencePairs {source target : Name} :
    (source, target) ∈ d.referencePairs ↔ d.RefersTo source target := by
  simp only [referencePairs, mem_distinct, List.mem_filterMap, mem_objectFields,
    Option.map_eq_some_iff, TypeRef.dependency?_eq_some_iff]
  constructor
  · rintro ⟨⟨t, f⟩, ⟨object, field⟩, _, depends, same⟩
    cases same
    exact ⟨t, object, rfl, f, field, depends⟩
  · rintro ⟨t, object, rfl, f, field, depends⟩
    exact ⟨(t, f), ⟨object, field⟩, target, depends, rfl⟩

/-- No pair of types makes more than one edge. -/
theorem length_edges_references_le (d : Document) :
    d.references.edges.length ≤ d.referencePairs.length := by
  have subset : d.references.edges
      ⊆ d.referencePairs.map fun pair => (pair.1.text, pair.2.text) := by
    rintro ⟨a, b⟩ mem
    obtain ⟨source, target, refers, rfl, rfl⟩ := edge_references.1 (Graph.mem_edges.1 mem)
    exact List.mem_map.2 ⟨(source, target), mem_referencePairs.2 refers, rfl⟩
  have le := (d.references.nodup_edges.subperm subset).length_le
  rwa [List.length_map] at le

/-- No field makes more than one pair. -/
theorem length_referencePairs_le (d : Document) :
    d.referencePairs.length ≤ d.objectFields.length :=
  (length_distinct_le _).trans (List.length_filterMap_le _ _)

/-- The fields of object types are among all fields. -/
theorem length_objectFields_le (d : Document) : d.objectFields.length ≤ d.totalFields :=
  d.objectFields_sublist.length_le

/-- There are no more cycles than references between types. -/
theorem length_cycles_le (d : Document) : d.references.cycles.length ≤ d.referencePairs.length :=
  (Graph.length_cycles_le d.commaFree_references).trans d.length_edges_references_le

/-! ## Required reads -/

/-- There are no more nodes than declarations, and fewer if a field is declared twice. -/
theorem length_nodes_requiredReads_le (d : Document) :
    d.requiredReads.nodes.length ≤ d.objectFields.length := by
  have declared : d.declaredIds.length = d.objectFields.length := by
    rw [declaredIds_eq, List.length_map]
  rw [nodes_requiredReads, List.length_map, ← declared]
  exact length_distinct_le _

end Document

/-! ## All rules -/

namespace Rule.LooksAt

variable {d : Document} {rule : String} {places : List Location}

/-- The rule on keys looks at no more places than there are object types. -/
theorem length_le_objects (looks : LooksAt d rule places) (name : rule = "Composite Keys") :
    places.length ≤ d.objects.length := by
  cases looks with
  | fields other => exact absurd (by rw [name]; decide) other
  | objects => exact (List.length_map _).le
  | objectFields => exact absurd name (by decide)
  | cycles => exact absurd name (by decide)
  | reads => exact absurd name (by decide)

/-- The rule on cycles looks at no more places than there are reference pairs. -/
theorem length_le_referencePairs (looks : LooksAt d rule places) (name : rule = "Cycle Counter") :
    places.length ≤ d.referencePairs.length := by
  cases looks with
  | fields other => exact absurd (by rw [name]; decide) other
  | cycles => exact (List.length_map _).trans_le d.length_cycles_le
  | objectFields => exact absurd name (by decide)
  | objects => exact absurd name (by decide)
  | reads => exact absurd name (by decide)

/-- Every other rule looks at no more places than there are fields. -/
theorem length_le_totalFields (looks : LooksAt d rule places) (other : rule ≠ "Composite Keys") :
    places.length ≤ d.totalFields := by
  have objectFields := d.length_objectFields_le
  cases looks with
  | fields => exact (List.length_map _).le
  | objectFields => exact (List.length_map _).trans_le objectFields
  | objects => exact absurd rfl other
  | cycles =>
      have pairs := d.length_cycles_le.trans d.length_referencePairs_le
      exact (List.length_map _).trans_le (pairs.trans objectFields)
  | reads => exact (List.length_map _).trans_le (d.length_nodes_requiredReads_le.trans objectFields)

end Rule.LooksAt

/-- The findings in a report are bounded by the schema: by the definitions of object types for the
rule on keys, and by the fields for all others; for the rule on cycles even by the pairs of types of
which one refers to the other. So without fields there is nothing to find but keys. -/
theorem Document.findings_bounded (d : Document) (s : Settings) (details : ReportDetails) :
    List.Forall₂ (fun (rule : Rule) (result : RuleResult) =>
        (rule.name = "Composite Keys" → result.findings.AtMost d.objects.length) ∧
        (rule.name ≠ "Composite Keys" → result.findings.AtMost d.totalFields) ∧
        (rule.name = "Cycle Counter" → result.findings.AtMost d.referencePairs.length) ∧
        (rule.name ≠ "Composite Keys" → d.totalFields = 0 → result.findings.size = 0))
      s.activeRules (d.report s.activeRules details).results ∧
    d.referencePairs.length ≤ d.objectFields.length := by
  refine ⟨?_, d.length_referencePairs_le⟩
  refine forall₂_results_report.2 fun rule active => ?_
  obtain ⟨_, size, places, looks, found⟩ := Rule.lists_run (List.mem_filter.1 active).1 d
  have atMost : (rule.run d).findings.AtMost places.length := by
    have le := found.length_le
    rw [List.length_map] at le
    exact (Findings.atMost_length size).mono le
  have onFields : rule.name ≠ "Composite Keys" →
      (rule.run d).findings.AtMost d.totalFields := fun other =>
    atMost.mono (looks.length_le_totalFields other)
  refine ⟨fun name => atMost.mono (looks.length_le_objects name), onFields,
    fun name => atMost.mono (looks.length_le_referencePairs name), fun other none => ?_⟩
  have nothing := onFields other
  rw [none] at nothing
  exact nothing.size_eq_zero

theorem isName_key : isName "key".toList = true := by decide

/-- Two types of a serial, each with three keys and with references to itself alone. -/
def serial : Document where
  types :=
    [ { name := ⟨"Episode", by decide⟩
        body := .object
          [⟨⟨"before", by decide⟩, .named ⟨"Episode", by decide⟩, [], ⟨2, 3⟩⟩,
            ⟨⟨"after", by decide⟩, .named ⟨"Episode", by decide⟩, [], ⟨3, 3⟩⟩]
        isExtension := false
        directives := List.replicate 3 ⟨⟨"key", isName_key⟩, []⟩
        position := ⟨1, 1⟩ },
      { name := ⟨"Season", by decide⟩
        body := .object [⟨⟨"next", by decide⟩, .named ⟨"Season", by decide⟩, [], ⟨6, 3⟩⟩]
        isExtension := false
        directives := List.replicate 3 ⟨⟨"key", isName_key⟩, []⟩
        position := ⟨5, 1⟩ } ]

/-- Here the bounds for keys and for cycles are reached. Both references of an episode are to
episodes, so there are fewer cycles than fields. -/
theorem findings_bounded_serial :
    let keys := (Rule.compositeKeys Settings.standardKeyLimit).run serial
    let cycles := Rule.cycleCounter.run serial
    keys.findings.size = 2 ∧ serial.objects.length = 2 ∧
      keys.findings.AtMost serial.objects.length ∧
      cycles.findings.size = 2 ∧ serial.referencePairs.length = 2 ∧ serial.totalFields = 3 ∧
      cycles.findings.AtMost serial.referencePairs.length := by
  intro keys cycles
  have bounded := Document.forall₂_results_report.1
    (serial.findings_bounded .standard ⟨"", none, none⟩).1
  have keysActive : Rule.compositeKeys Settings.standardKeyLimit ∈ Settings.standard.activeRules :=
    List.mem_filter.2 ⟨by simp [battery, Settings.standard], rfl⟩
  have cyclesActive : Rule.cycleCounter ∈ Settings.standard.activeRules :=
    List.mem_filter.2 ⟨by simp [battery], rfl⟩
  exact ⟨by decide, by decide, (bounded _ keysActive).1 rfl, by cbv, by decide, by decide,
    (bounded _ cyclesActive).2.2.1 rfl⟩

end SchemaHealth
