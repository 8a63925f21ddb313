import SchemaHealth.Cycle.Report
import SchemaHealth.Proofs.BlastRadius.Superseded
import SchemaHealth.Proofs.Cycle.Completeness
import SchemaHealth.Proofs.Graph.Grouping
import Mathlib.Data.List.Flatten

/-!
# Declarations in another order

A schema is `Reordered` when its definitions come in another order, and the fields in each of them.
What is collected over all definitions is then the same up to order (`ReorderedTypes.flatMap_perm`).

Where no field is declared twice, both graphs keep their edges
(`Document.Reordered.edge_references`, `Document.Reordered.edge_requiredReads`), for no declaration
comes after another one of the same field. So the groups of types are the same
(`Document.Reordered.groups_eq`), and so are the blast radii (`Document.Reordered.blastAnalysis`).
The cycles found are not, only whether there are any (`Document.Reordered.cycles_eq_nil_iff`).
-/

namespace SchemaHealth

/-! ## Definitions -/

/-- The same body with its fields in some order. -/
inductive TypeBody.Reordered : TypeBody → TypeBody → Prop
  | scalar : Reordered .scalar .scalar
  | object {fs fs' : List FieldDefinition} : fs'.Perm fs → Reordered (.object fs) (.object fs')
  | interface {fs fs' : List FieldDefinition} :
    fs'.Perm fs → Reordered (.interface fs) (.interface fs')
  | union : Reordered .union .union
  | enum : Reordered .enum .enum
  | inputObject : Reordered .inputObject .inputObject

/-- The same definition at the same place, with its fields in some order. -/
structure TypeDefinition.Reordered (t t' : TypeDefinition) : Prop where
  name : t'.name = t.name
  body : t.body.Reordered t'.body
  isExtension : t'.isExtension = t.isExtension
  directives : t'.directives = t.directives
  position : t'.position = t.position

/-- The same definitions in some order, each with its fields in some order. -/
def ReorderedTypes (ts ts' : List TypeDefinition) : Prop :=
  ∃ between, ts.Perm between ∧ List.Forall₂ TypeDefinition.Reordered between ts'

/-- The same schema with its definitions, and the fields in each of them, in some order. -/
def Document.Reordered (d d' : Document) : Prop := ReorderedTypes d.types d'.types

/-- No field is declared twice for one object type, extensions included. -/
def Document.DeclaresOnce (d : Document) : Prop := d.declaredIds.Nodup

namespace TypeDefinition.Reordered

variable {t t' : TypeDefinition}

theorem isObject (reordered : t.Reordered t') : t'.isObject = t.isObject := by
  obtain ⟨_, _, _, _, _⟩ := t
  obtain ⟨_, _, _, _, _⟩ := t'
  cases reordered.body <;> rfl

theorem fields_perm (reordered : t.Reordered t') : t'.fields.Perm t.fields := by
  obtain ⟨_, _, _, _, _⟩ := t
  obtain ⟨_, _, _, _, _⟩ := t'
  cases reordered.body with
  | object perm => exact perm
  | interface perm => exact perm
  | scalar => rfl
  | union => rfl
  | enum => rfl
  | inputObject => rfl

theorem directiveCount_eq (reordered : t.Reordered t') (name : String) :
    t'.directiveCount name = t.directiveCount name := by
  rw [directiveCount, directiveCount, reordered.directives]

end TypeDefinition.Reordered

namespace ReorderedTypes

variable {α : Type} {ts ts' : List TypeDefinition}

theorem filter {p : TypeDefinition → Bool} (reordered : ReorderedTypes ts ts')
    (same : ∀ t t' : TypeDefinition, t.Reordered t' → p t' = p t) :
    ReorderedTypes (ts.filter p) (ts'.filter p) := by
  obtain ⟨between, perm, related⟩ := reordered
  refine ⟨between.filter p, perm.filter p, List.rel_filter (fun t t' paired => ?_) related⟩
  show p t = true ↔ p t' = true
  rw [same t t' paired]

/-- What each definition contributes in some order, all of them contribute in some order. -/
theorem flatMap_perm {part : TypeDefinition → List α} (reordered : ReorderedTypes ts ts')
    (same : ∀ t t' : TypeDefinition, t.Reordered t' → (part t').Perm (part t)) :
    (ts'.flatMap part).Perm (ts.flatMap part) := by
  obtain ⟨between, perm, related⟩ := reordered
  -- Permuting the definitions permutes their parts; it remains to compare them one by one.
  refine List.Perm.trans ?_ (perm.flatMap_right part).symm
  clear perm
  induction related with
  | nil => exact .nil
  | cons head _ ih =>
      rw [List.flatMap_cons, List.flatMap_cons]
      exact (same _ _ head).append ih

end ReorderedTypes

/-! ## Declarations -/

section Declarations

variable {fs fs' : List FieldDefinition} {f : FieldDefinition} {name : Name}

/-- Where no name comes up twice, every declaration is the last one of its name. -/
theorem lastNamed_iff_of_nodup (nodup : (fs.map (·.name)).Nodup) :
    LastNamed fs name f ↔ f ∈ fs ∧ f.name = name := by
  refine ⟨fun isLast => ⟨isLast.mem, isLast.name_eq⟩, ?_⟩
  rintro ⟨mem, named⟩
  obtain ⟨before, after, rfl⟩ := List.append_of_mem mem
  refine ⟨before, after, rfl, named, fun later mem' same => ?_⟩
  -- A later declaration of the name would repeat it.
  rw [List.map_append, List.map_cons] at nodup
  have fresh := (List.nodup_cons.1 nodup.of_append_right).1
  exact fresh (List.mem_map.2 ⟨later, mem', same.trans named.symm⟩)

/-- Where names do not come up twice, it makes no difference which declaration is the last. -/
theorem lastNamed_perm (nodup : (fs.map (·.name)).Nodup) (perm : fs'.Perm fs) :
    LastNamed fs' name f ↔ LastNamed fs name f := by
  have nodup' : (fs'.map (·.name)).Nodup := (perm.map _).nodup_iff.2 nodup
  rw [lastNamed_iff_of_nodup nodup', lastNamed_iff_of_nodup nodup, perm.mem_iff]

end Declarations

namespace Document

variable {d d' : Document} {a b : FieldId} {x y : String}

theorem DeclaresOnce.nodup_names (once : d.DeclaresOnce) (type : Name) :
    ((d.declarations type).map (·.name)).Nodup := by
  have own : ((d.objects.filter fun t => t.name = type).flatMap fun t =>
        t.fields.map fun f => (⟨t.name, f.name⟩ : FieldId))
      = ((d.declarations type).map (·.name)).map fun name => ⟨type, name⟩ := by
    rw [declarations, List.map_map, List.map_flatMap]
    refine List.flatMap_congr fun t mem => ?_
    rw [of_decide_eq_true (List.mem_filter.1 mem).2]
    rfl
  have part : (d.objects.filter fun t => t.name = type).Sublist d.objects := List.filter_sublist
  have nodup : (((d.declarations type).map (·.name)).map fun name =>
      (⟨type, name⟩ : FieldId)).Nodup := by
    rw [← own]
    exact (part.flatMap _).nodup once
  exact nodup.of_map _

namespace Reordered

theorem objects (reordered : d.Reordered d') : ReorderedTypes d.objects d'.objects :=
  ReorderedTypes.filter reordered fun _ _ paired => paired.isObject

/-- Each type has its declarations in some order. -/
theorem declarations_perm (reordered : d.Reordered d') (type : Name) :
    (d'.declarations type).Perm (d.declarations type) := by
  have named : ReorderedTypes (d.objects.filter fun t => t.name = type)
      (d'.objects.filter fun t => t.name = type) :=
    reordered.objects.filter fun t t' paired => by rw [paired.name]
  exact named.flatMap_perm fun _ _ paired => paired.fields_perm

theorem declaredIds_perm (reordered : d.Reordered d') : d'.declaredIds.Perm d.declaredIds := by
  refine reordered.objects.flatMap_perm fun t t' paired => ?_
  rw [paired.name]
  exact paired.fields_perm.map _

theorem totalFields_eq (reordered : d.Reordered d') : d'.totalFields = d.totalFields := by
  rw [totalFields_eq_length, totalFields_eq_length]
  exact (ReorderedTypes.flatMap_perm reordered fun _ _ paired => paired.fields_perm).length_eq

/-! ## Analyses -/

/-- The references are the same in any order. -/
theorem edge_references (reordered : d.Reordered d') :
    d'.references.Edge x y ↔ d.references.Edge x y := by
  simp only [Document.edge_references, refersTo_iff, (reordered.declarations_perm _).mem_iff]

theorem requires (reordered : d.Reordered d') (once : d.DeclaresOnce) :
    d'.Requires a b ↔ d.Requires a b := by
  -- What the last declaration says could change with the order; here it is the only one.
  have last : ∀ f, LastNamed (d'.declarations a.type) a.field f
      ↔ LastNamed (d.declarations a.type) a.field f := fun f =>
    lastNamed_perm (once.nodup_names a.type) (reordered.declarations_perm a.type)
  have mem : ∀ f, f ∈ d'.declarations b.type ↔ f ∈ d.declarations b.type := fun f =>
    (reordered.declarations_perm b.type).mem_iff
  constructor
  · rintro ⟨⟨f, isLast, base⟩, notBuiltin, g, promised⟩
    exact ⟨⟨f, (last f).1 isLast, base⟩, notBuiltin, g, (mem g).1 promised.1, promised.2⟩
  · rintro ⟨⟨f, isLast, base⟩, notBuiltin, g, promised⟩
    exact ⟨⟨f, (last f).2 isLast, base⟩, notBuiltin, g, (mem g).2 promised.1, promised.2⟩

/-- So are the required reads, when no field is declared twice. -/
theorem edge_requiredReads (reordered : d.Reordered d') (once : d.DeclaresOnce) :
    d'.requiredReads.Edge x y ↔ d.requiredReads.Edge x y := by
  simp only [Document.edge_requiredReads, reordered.requires once]

theorem nodes_requiredReads (reordered : d.Reordered d') :
    d'.requiredReads.nodes.Perm d.requiredReads.nodes :=
  nodes_requiredReads_perm fun _ => reordered.declaredIds_perm.mem_iff

/-- Cycles may be found in other forms and orders, but the groups are the same. -/
theorem groups_eq (reordered : d.Reordered d') :
    d'.cycleReport.groups = d.cycleReport.groups :=
  Graph.components_congr fun _ _ => reordered.edge_references

/-- Whether there are cycles does not depend on the order, which of them are found does. -/
theorem cycles_eq_nil_iff (reordered : d.Reordered d') :
    d'.cycleReport.cycles = [] ↔ d.cycleReport.cycles = [] := by
  have acyclic := Graph.acyclic_congr fun _ _ => reordered.edge_references
  exact (Graph.cycles_eq_nil_iff_acyclic d'.commaFree_references).trans
    (acyclic.trans (Graph.cycles_eq_nil_iff_acyclic d.commaFree_references).symm)

/-- The results of the two analyses agree, field by field. -/
theorem blastAnalysis (reordered : d.Reordered d') (once : d.DeclaresOnce) (policy : BlastPolicy) :
    (d'.blastAnalysis policy).Agrees (d.blastAnalysis policy) :=
  BlastAnalysis.agrees_ofGraph reordered.nodes_requiredReads
    (fun _ _ => reordered.edge_requiredReads once) policy

end Reordered

end Document

end SchemaHealth
