import SchemaHealth.BlastRadius.Analysis
import SchemaHealth.Cycle.Report
import SchemaHealth.Proofs.Graph.RequiredReads
import Mathlib.Data.List.Permutation

/-!
# Merging the definitions of a type

An object type may be defined and extended in several places. `Document.merged` puts all that these
declare into one definition, at the place of the first of them.

The analyses do not tell the difference (`Document.analyses_merged`). All they take from a schema
are the names of its object types in order of first occurrence and the declarations of each type,
and merging changes neither (`Document.names_merged`, `Document.declarations_merged`). The fields of
a schema may come in another order, for those of an extension now stand with the type; the graph of
required reads has the same nodes in that other order, and the same targets.
-/

namespace SchemaHealth

/-! ## Lists in parts -/

section Parts

variable {α β κ : Type} [DecidableEq κ] {l : List α} {k : κ} (key : α → κ)

/-- Taking the parts of a list one after the other takes their elements. -/
theorem flatMap_filter_key_perm {keys : List κ} (nodup : keys.Nodup) (l : List α) :
    (keys.flatMap fun k => l.filter fun a => key a = k).Perm (l.filter fun a => key a ∈ keys) := by
  induction keys with
  | nil => simp
  | cons k keys ih =>
      obtain ⟨fresh, nodup⟩ := List.nodup_cons.1 nodup
      -- What has the first key and what has a later one make up the list.
      have first : (l.filter fun a => key a ∈ k :: keys).filter (fun a => key a = k)
          = l.filter fun a => key a = k := by
        rw [List.filter_filter]
        refine List.filter_congr fun a _ => ?_
        by_cases same : key a = k <;> simp [same]
      have others : (l.filter fun a => key a ∈ k :: keys).filter (fun a => !decide (key a = k))
          = l.filter fun a => key a ∈ keys := by
        rw [List.filter_filter]
        refine List.filter_congr fun a _ => ?_
        by_cases same : key a = k <;> simp [same, fresh]
      have split := List.filter_append_perm (fun a => decide (key a = k))
        (l.filter fun a => key a ∈ k :: keys)
      rw [first, others] at split
      rw [List.flatMap_cons]
      exact ((ih nodup).append_left _).trans split

/-- A list consists of the parts that share a key. -/
theorem flatMap_filter_distinct_perm (l : List α) :
    ((distinct (l.map key)).flatMap fun k => l.filter fun a => key a = k).Perm l := by
  have all : l.filter (fun a => key a ∈ distinct (l.map key)) = l :=
    List.filter_eq_self.2 fun a mem => by simpa using ⟨a, mem, rfl⟩
  have parts := flatMap_filter_key_perm key (nodup_distinct (l.map key)) l
  rwa [all] at parts

/-- Where no key comes up twice, a part is one element or nothing. -/
theorem flatMap_filter_key_eq {f : α → List β} {part : κ → List β} (nodup : (l.map key).Nodup)
    (same : ∀ a ∈ l, f a = part (key a)) :
    (l.filter fun a => key a = k).flatMap f = if k ∈ l.map key then part k else [] := by
  induction l with
  | nil => simp
  | cons a l ih =>
      obtain ⟨fresh, nodup⟩ := List.nodup_cons.1 nodup
      have rest := ih nodup fun b mem => same b (List.mem_cons_of_mem _ mem)
      rw [List.filter_cons]
      by_cases here : key a = k
      · subst here
        rw [if_neg fresh] at rest
        simp [rest, same a List.mem_cons_self]
      · simp [here, Ne.symm here, rest]

end Parts

/-! ## Merging -/

namespace Document

/-- One definition of an object type that declares all that its definitions declare. -/
def definition (d : Document) (t : TypeDefinition) : TypeDefinition where
  name := t.name
  body := .object (d.declarations t.name)
  isExtension := false
  directives := (d.objects.filter fun u => u.name = t.name).flatMap (·.directives)
  position := t.position

/-- Some definitions of a schema with one definition for each object type, where its first one
stood. -/
def mergeTypes (d : Document) : List TypeDefinition → List TypeDefinition
  | [] => []
  | t :: ts =>
    if t.isObject then
      d.definition t :: (d.mergeTypes ts).filter fun u => !(u.isObject && u.name = t.name)
    else t :: d.mergeTypes ts

/-- A schema with one definition for each object type. -/
def merged (d : Document) : Document := ⟨d.mergeTypes d.types⟩

variable {d : Document} {t u : TypeDefinition} {ts : List TypeDefinition}

/-- Merging leaves one definition for each object type, in order of first occurrence. -/
theorem names_mergeTypes (d : Document) (ts : List TypeDefinition) :
    ((d.mergeTypes ts).filter TypeDefinition.isObject).map (·.name)
      = distinct ((ts.filter TypeDefinition.isObject).map (·.name)) := by
  induction ts with
  | nil => rfl
  | cons t ts ih =>
      rw [mergeTypes]
      split
      next object =>
        have later : ((d.mergeTypes ts).filter fun u => !(u.isObject && u.name = t.name)).filter
              TypeDefinition.isObject
            = ((d.mergeTypes ts).filter TypeDefinition.isObject).filter fun u =>
                decide (u.name ≠ t.name) := by
          rw [List.filter_filter, List.filter_filter]
          refine List.filter_congr fun u _ => ?_
          cases u.isObject <;> simp
        have isObject : (d.definition t).isObject = true := rfl
        rw [List.filter_cons_of_pos isObject, List.filter_cons_of_pos object, later, List.map_cons,
          List.map_cons, distinct, ← ih, List.filter_map]
        rfl
      next other =>
        rw [List.filter_cons_of_neg other, List.filter_cons_of_neg other, ih]

/-- A merged object type has the declarations of all its definitions. -/
theorem fields_of_mem_mergeTypes (mem : u ∈ d.mergeTypes ts) (object : u.isObject = true) :
    u.fields = d.declarations u.name := by
  induction ts with
  | nil => cases mem
  | cons t ts ih =>
      rw [mergeTypes] at mem
      split at mem
      next =>
        rcases List.mem_cons.1 mem with rfl | later
        · rfl
        · exact ih (List.mem_filter.1 later).1
      next other =>
        rcases List.mem_cons.1 mem with rfl | later
        · exact absurd object other
        · exact ih later

/-- Merging leaves the definitions of other kinds alone. -/
theorem others_mergeTypes (d : Document) (ts : List TypeDefinition) :
    (d.mergeTypes ts).filter (fun u => !u.isObject) = ts.filter fun u => !u.isObject := by
  induction ts with
  | nil => rfl
  | cons t ts ih =>
      rw [mergeTypes]
      split
      next object =>
        have kept : ((d.mergeTypes ts).filter fun u => !(u.isObject && u.name = t.name)).filter
              (fun u => !u.isObject) = (d.mergeTypes ts).filter fun u => !u.isObject := by
          rw [List.filter_filter]
          refine List.filter_congr fun u _ => ?_
          cases u.isObject <;> simp
        have isObject : (d.definition t).isObject = true := rfl
        rw [List.filter_cons_of_neg (by simp [isObject]), kept, ih,
          List.filter_cons_of_neg (by simp [object])]
      next other =>
        rw [List.filter_cons_of_pos (by simpa using other), ih,
          List.filter_cons_of_pos (by simpa using other)]

/-- The object types stay in the order of their first occurrences, each of them once. -/
theorem names_merged (d : Document) :
    d.merged.objects.map (·.name) = distinct (d.objects.map (·.name)) :=
  d.names_mergeTypes d.types

theorem fields_of_mem_objects_merged (mem : u ∈ d.merged.objects) :
    u.fields = d.declarations u.name := by
  obtain ⟨mem, object⟩ := List.mem_filter.1 mem
  exact fields_of_mem_mergeTypes mem object

/-- Every object type declares what it did, in the same order. -/
theorem declarations_merged (d : Document) (type : Name) :
    d.merged.declarations type = d.declarations type := by
  have nodup : (d.merged.objects.map (·.name)).Nodup := by
    rw [names_merged]
    exact nodup_distinct _
  have once := flatMap_filter_key_eq TypeDefinition.name (k := type) nodup fun _ mem =>
    fields_of_mem_objects_merged mem
  simp only [names_merged, mem_distinct] at once
  rw [declarations, once]
  split
  · rfl
  next absent =>
    have none : (d.objects.filter fun t => t.name = type) = [] := by
      refine List.filter_eq_nil_iff.2 fun t mem same => absent ?_
      exact List.mem_map.2 ⟨t, mem, of_decide_eq_true same⟩
    rw [declarations, none]
    rfl

/-- Fields that an extension adds come after those of the type, before other types. -/
example :
    let field (name : Name) : FieldDefinition := ⟨name, .named ⟨"Int", by decide⟩, [], .start⟩
    let object (name : Name) (isExtension : Bool) (fields : List FieldDefinition) :
        TypeDefinition := ⟨name, .object fields, isExtension, [], .start⟩
    let d : Document := ⟨[object ⟨"A", by decide⟩ false [field ⟨"x", by decide⟩],
      object ⟨"B", by decide⟩ false [field ⟨"y", by decide⟩],
      object ⟨"A", by decide⟩ true [field ⟨"z", by decide⟩]]⟩
    d.merged.types.map (fun t => (t.name.text, t.fields.map (·.name.text)))
      = [("A", ["x", "z"]), ("B", ["y"])] := by
  decide

/-- Merging moves declarations, and adds or drops none. -/
theorem objects_fields_perm (d : Document) :
    (d.merged.objects.flatMap (·.fields)).Perm (d.objects.flatMap (·.fields)) := by
  have fields : d.merged.objects.flatMap (·.fields)
      = (distinct (d.objects.map (·.name))).flatMap d.declarations := by
    rw [← names_merged, List.flatMap_map]
    exact List.flatMap_congr fun u mem => fields_of_mem_objects_merged mem
  rw [fields]
  have parts := (flatMap_filter_distinct_perm TypeDefinition.name d.objects).flatMap_right
    (·.fields)
  rwa [List.flatMap_assoc] at parts

theorem totalFields_eq (d : Document) : d.totalFields = (d.objects.flatMap (·.fields)).length
    + ((d.types.filter fun t => !t.isObject).flatMap (·.fields)).length := by
  have split := (List.filter_append_perm TypeDefinition.isObject d.types).flatMap_right (·.fields)
  rw [List.flatMap_append] at split
  rw [objects, ← List.length_append, split.length_eq, totalFields_eq_length]

/-- Merging does not change how many fields a schema has. -/
theorem totalFields_merged (d : Document) : d.merged.totalFields = d.totalFields := by
  have others : d.merged.types.filter (fun t => !t.isObject)
      = d.types.filter fun t => !t.isObject := d.others_mergeTypes d.types
  rw [totalFields_eq, totalFields_eq, others, d.objects_fields_perm.length_eq]

/-- Merging leaves the graph of references as it is, order included. -/
theorem references_merged (d : Document) : d.merged.references = d.references := by
  refine references_congr ?_ d.declarations_merged
  rw [names_merged]
  exact distinct_eq_self (nodup_distinct _)

end Document

/-! ## The analyses -/

/-- Graphs with the same nodes in some order and the same targets give the same results and the same
objections in some order. -/
theorem BlastAnalysis.perm_ofGraph {g h : Graph} (nodes : h.nodes.Perm g.nodes)
    (targets : ∀ x, h.targets x = g.targets x) (policy : BlastPolicy) :
    (ofGraph h policy).results.Perm (ofGraph g policy).results ∧
      (ofGraph h policy).violations.Perm (ofGraph g policy).violations := by
  have measures : measure h policy = measure g policy := by
    funext x
    rw [measure, Graph.reach_congr targets, measure]
  have results : (ofGraph h policy).results.Perm (ofGraph g policy).results := by
    simp only [ofGraph, measures]
    exact nodes.map _
  exact ⟨results, results.filterMap _⟩

/-- A schema and its merged form have the same report on cycles, the same blast radii and objections
to them, and as many fields. -/
theorem Document.analyses_merged (d : Document) :
    d.merged.cycleReport = d.cycleReport ∧
    (∀ policy,
      (d.merged.blastAnalysis policy).results.Perm (d.blastAnalysis policy).results ∧
      (d.merged.blastAnalysis policy).violations.Perm (d.blastAnalysis policy).violations ∧
      (d.merged.blastAnalysis policy).summary.totalFields
        = (d.blastAnalysis policy).summary.totalFields) ∧
    d.merged.totalFields = d.totalFields := by
  refine ⟨?_, fun policy => ?_, d.totalFields_merged⟩
  · rw [cycleReport, references_merged, cycleReport]
  · obtain ⟨nodes, targets⟩ := requiredReads_congr d.declarations_merged
    obtain ⟨results, violations⟩ := BlastAnalysis.perm_ofGraph nodes targets policy
    exact ⟨results, violations, results.length_eq⟩

end SchemaHealth
