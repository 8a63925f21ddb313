import SchemaHealth.Proofs.BlastRadius.Tiers
import SchemaHealth.Proofs.Graph.RequiredReads
import Mathlib.Data.List.Perm.Subperm
import Mathlib.Data.List.Permutation

/-!
# More promises, stricter policies

A schema is `Tightened` when some nullable fields of object types are declared non-null, and a
policy when its thresholds are lowered and critical paths are added. Neither makes a finding go away
or less severe (`Document.blastAnalysis_mono`): what a field affects only grows, and so do its tier
and the set of the objections.
-/

namespace SchemaHealth

theorem exists_of_mem_forall₂ {α β : Type} {R : α → β → Prop} {xs : List α} {ys : List β} {x : α}
    (related : List.Forall₂ R xs ys) (mem : x ∈ xs) : ∃ y ∈ ys, R x y := by
  induction related with
  | nil => cases mem
  | @cons x' y xs ys head _ ih =>
      rcases List.mem_cons.1 mem with rfl | later
      · exact ⟨y, List.mem_cons_self, head⟩
      · obtain ⟨y', mem', related⟩ := ih later
        exact ⟨y', List.mem_cons_of_mem _ mem', related⟩

/-! ## Schemas -/

/-- A declaration of the same field, whose type may have become non-null. Directives and places do
not matter. -/
structure FieldDefinition.Tightened (f f' : FieldDefinition) : Prop where
  name : f'.name = f.name
  type : f'.type = f.type ∨ f.type.isNonNull = false ∧ f'.type = .nonNull f.type

/-- A definition of the same type with the same fields, some of them non-null now. -/
structure TypeDefinition.Tightened (t t' : TypeDefinition) : Prop where
  name : t'.name = t.name
  isObject : t'.isObject = t.isObject
  fields : List.Forall₂ FieldDefinition.Tightened t.fields t'.fields

/-- The schemas differ only in that some nullable fields become non-null. -/
def Document.Tightened (d d' : Document) : Prop :=
  List.Forall₂ TypeDefinition.Tightened d.types d'.types

namespace FieldDefinition.Tightened

variable {f f' : FieldDefinition}

/-- Tightening a declaration leaves its base type as it was. -/
theorem base_eq (tightened : f.Tightened f') : f'.type.base = f.type.base := by
  rcases tightened.type with same | ⟨_, nonNull⟩
  · rw [same]
  · rw [nonNull, TypeRef.base]

theorem isNonNull (tightened : f.Tightened f') (nonNull : f.type.isNonNull = true) :
    f'.type.isNonNull = true := by
  rcases tightened.type with same | ⟨nullable, _⟩
  · rwa [same]
  · rw [nullable] at nonNull
    cases nonNull

end FieldDefinition.Tightened

/-- Where declarations are tightened, so is the last one of a field. -/
theorem LastNamed.tightened {fs fs' : List FieldDefinition} {f : FieldDefinition} {name : Name}
    (isLast : LastNamed fs name f) (tightened : List.Forall₂ FieldDefinition.Tightened fs fs') :
    ∃ f', LastNamed fs' name f' ∧ f.Tightened f' := by
  induction tightened with
  | nil => exact absurd isLast not_lastNamed_nil
  | @cons first first' fs fs' head tail ih =>
      rcases lastNamed_cons.1 isLast with later | ⟨named, rfl, others⟩
      · obtain ⟨f', isLast', tight⟩ := ih later
        exact ⟨f', lastNamed_cons.2 (.inl isLast'), tight⟩
      · refine ⟨first', lastNamed_cons.2 (.inr ⟨head.name.trans named, rfl, ?_⟩), head⟩
        intro later' mem'
        obtain ⟨later, mem, tight⟩ := exists_of_mem_forall₂ tail.flip mem'
        rw [tight.name]
        exact others later mem

namespace Document.Tightened

variable {d d' : Document} {a b : FieldId} {x y : String}

/-- The object types of a tightened schema are those of the schema, one for one. -/
theorem objects (tightened : d.Tightened d') :
    List.Forall₂ TypeDefinition.Tightened d.objects d'.objects :=
  List.rel_filter (fun _ _ tight => (Bool.eq_iff_iff.1 tight.isObject).symm) tightened

theorem declarations (tightened : d.Tightened d') (type : Name) :
    List.Forall₂ FieldDefinition.Tightened (d.declarations type) (d'.declarations type) := by
  have named : List.Forall₂ TypeDefinition.Tightened
      (d.objects.filter fun t => t.name = type) (d'.objects.filter fun t => t.name = type) := by
    refine List.rel_filter (fun t t' tight => ?_) tightened.objects
    show decide (t.name = type) = true ↔ decide (t'.name = type) = true
    rw [tight.name]
  exact List.rel_flatMap named fun _ _ tight => tight.fields

theorem declaredIds_eq (tightened : d.Tightened d') : d'.declaredIds = d.declaredIds := by
  have same : List.Forall₂ (· = ·) d.declaredIds d'.declaredIds := by
    refine List.rel_flatMap tightened.objects fun t t' tight => ?_
    refine List.rel_map (fun f f' tight' => ?_) tight.fields
    rw [tight.name, tight'.name]
  rw [List.forall₂_eq_eq_eq] at same
  exact same.symm

/-- What reads a field still reads it when declarations are tightened. -/
theorem requires (tightened : d.Tightened d') (requires : d.Requires a b) : d'.Requires a b := by
  obtain ⟨⟨f, isLast, base⟩, notBuiltin, g, mem, named, nonNull⟩ := requires
  obtain ⟨f', isLast', tight⟩ := isLast.tightened (tightened.declarations a.type)
  -- any declaration of `b` may be the one that promises, so its own counterpart does
  obtain ⟨g', mem', tight'⟩ := exists_of_mem_forall₂ (tightened.declarations b.type) mem
  exact ⟨⟨f', isLast', tight.base_eq.trans base⟩, notBuiltin, g', mem', tight'.name.trans named,
    tight'.isNonNull nonNull⟩

/-- No required read goes away when a schema is tightened. -/
theorem edge (tightened : d.Tightened d') (edge : d.requiredReads.Edge x y) :
    d'.requiredReads.Edge x y := by
  obtain ⟨a, b, requires, rfl, rfl⟩ := edge_requiredReads.1 edge
  exact edge_requiredReads.2 ⟨a, b, tightened.requires requires, rfl, rfl⟩

/-- Tightening a schema adds no field to the analysis and takes none away. -/
theorem nodes_eq (tightened : d.Tightened d') : d'.requiredReads.nodes = d.requiredReads.nodes := by
  rw [nodes_requiredReads, nodes_requiredReads, tightened.declaredIds_eq]

end Document.Tightened

/-! ## Policies -/

/-- No threshold is raised and no critical path is given up. -/
structure BlastPolicy.Tightened (p p' : BlastPolicy) : Prop where
  maxRadius : p'.maxRadius ≤ p.maxRadius
  warningRadius : p'.warningRadius ≤ p.warningRadius
  criticalPaths : ∀ path ∈ p.criticalPaths, path ∈ p'.criticalPaths

namespace BlastPolicy.Tightened

variable {p p' : BlastPolicy} {n n' : Nat} {field : String}

/-- A larger radius is in no lower tier under a tightened policy. -/
theorem rank_severity_le (tightened : p.Tightened p') (more : n ≤ n') :
    (p.severity n).rank ≤ (p'.severity n').rank := by
  have maxRadius := tightened.maxRadius
  have warningRadius := tightened.warningRadius
  unfold severity
  split_ifs <;> simp only [Severity.rank] <;> omega

/-- A critical path stays one when the policy is tightened. -/
theorem isCriticalPath (tightened : p.Tightened p') (onPath : p.isCriticalPath field = true) :
    p'.isCriticalPath field = true := by
  obtain ⟨path, mem, start⟩ := List.any_eq_true.1 onPath
  exact List.any_eq_true.2 ⟨path, tightened.criticalPaths path mem, start⟩

end BlastPolicy.Tightened

/-! ## Analyses -/

/-- More edges reach no fewer names. -/
theorem Graph.reach_subset {g g' : Graph} (edges : ∀ x y, g.Edge x y → g'.Edge x y) (x : String) :
    g.reach x ⊆ g'.reach x := by
  intro y mem
  rw [mem_reach] at mem ⊢
  exact Relation.ReflTransGen.mono edges _ _ mem

/-- One result of a field says no less than another one. -/
structure BlastResult.AtMost (r r' : BlastResult) : Prop where
  field : r'.field = r.field
  affected : r.affected ⊆ r'.affected
  radius : r.radius ≤ r'.radius
  severity : r.severity.rank ≤ r'.severity.rank
  onCriticalPath : r.onCriticalPath = true → r'.onCriticalPath = true

namespace BlastAnalysis

variable {g g' : Graph} {p p' : BlastPolicy} {r r' : BlastResult} {v : BlastViolation}

/-- The measure of a field does not shrink when edges are added and the policy is tightened. -/
theorem atMost_measure (edges : ∀ x y, g.Edge x y → g'.Edge x y) (policy : p.Tightened p')
    (x : String) : (measure g p x).AtMost (measure g' p' x) := by
  have affected := Graph.reach_subset edges x
  have radius : (g.reach x).length ≤ (g'.reach x).length :=
    (List.Nodup.subperm (g.nodup_reach x) affected).length_le
  exact ⟨rfl, affected, radius, policy.rank_severity_le radius, policy.isCriticalPath⟩

/-- An objection is kept in its tier or a higher one when the result and the policy grow. -/
theorem exists_objection? (policy : p.Tightened p') (atMost : r.AtMost r') (records : r.Records p)
    (records' : r'.Records p') (objection : objection? p r = some v) :
    ∃ v', objection? p' r' = some v' ∧ v'.field = v.field ∧ v.severity.rank ≤ v'.severity.rank := by
  have repeats := repeats_of_objection? records objection
  -- a lower maximum turns a warning into a critical finding, which needs no critical path
  have objectionable : r'.isObjectionable = true := by
    have before : r.isObjectionable = true := by
      rw [← isSome_objection? records, objection]
      rfl
    have radius := atMost.radius
    rw [isObjectionable_iff records] at before
    rw [isObjectionable_iff records']
    rcases before with critical | ⟨warning, onPath⟩
    · exact .inl (policy.maxRadius.trans (critical.trans radius))
    · exact .inr ⟨policy.warningRadius.trans (warning.trans radius), atMost.onCriticalPath onPath⟩
  rw [← isSome_objection? records'] at objectionable
  obtain ⟨v', objection'⟩ := Option.isSome_iff_exists.1 objectionable
  have repeats' := repeats_of_objection? records' objection'
  refine ⟨v', objection', ?_, ?_⟩
  · rw [repeats'.field, repeats.field, atMost.field]
  · rw [repeats'.severity, repeats.severity]
    exact atMost.severity

/-- More edges between the same nodes and a stricter policy: no result says less and no objection is
given up. -/
theorem ofGraph_mono (nodes : g'.nodes = g.nodes) (edges : ∀ x y, g.Edge x y → g'.Edge x y)
    (policy : p.Tightened p') :
    List.Forall₂ BlastResult.AtMost (ofGraph g p).results (ofGraph g' p').results ∧
      ∀ v ∈ (ofGraph g p).violations, ∃ v' ∈ (ofGraph g' p').violations,
        v'.field = v.field ∧ v.severity.rank ≤ v'.severity.rank := by
  constructor
  · simp only [ofGraph, nodes]
    rw [List.forall₂_map_left_iff, List.forall₂_map_right_iff, List.forall₂_same]
    exact fun x _ => atMost_measure edges policy x
  · intro v mem
    obtain ⟨r, mem, objection⟩ := List.mem_filterMap.1 mem
    obtain ⟨x, node, rfl⟩ := List.mem_map.1 mem
    obtain ⟨v', objection', worse⟩ := exists_objection? policy (atMost_measure edges policy x)
      (records_measure x) (records_measure x) objection
    refine ⟨v', List.mem_filterMap.2 ⟨_, List.mem_map.2 ⟨x, ?_, rfl⟩, objection'⟩, worse⟩
    rwa [nodes]

end BlastAnalysis

/-- In a tightened schema under a tightened policy every field affects no fewer fields and is in no
lower tier, and what was objected to still is, in no lower tier. -/
theorem Document.blastAnalysis_mono {d d' : Document} {p p' : BlastPolicy}
    (schema : d.Tightened d') (policy : p.Tightened p') :
    List.Forall₂ BlastResult.AtMost (d.blastAnalysis p).results (d'.blastAnalysis p').results ∧
      ∀ v ∈ (d.blastAnalysis p).violations, ∃ v' ∈ (d'.blastAnalysis p').violations,
        v'.field = v.field ∧ v.severity.rank ≤ v'.severity.rank :=
  BlastAnalysis.ofGraph_mono schema.nodes_eq (fun _ _ edge => schema.edge edge) policy

/-- Users with an identifier that is declared twice and with tags that an extension adds. -/
def users (identifier tags : TypeRef) : Document where
  types :=
    [ { name := ⟨"Q", by decide⟩
        body := .object [⟨⟨"u", by decide⟩, .named ⟨"U", by decide⟩, [], .start⟩]
        isExtension := false
        directives := []
        position := .start },
      { name := ⟨"U", by decide⟩
        body := .object
          [⟨⟨"i", by decide⟩, .nonNull (.named ⟨"ID", by decide⟩), [], .start⟩,
            ⟨⟨"i", by decide⟩, identifier, [], .start⟩]
        isExtension := false
        directives := []
        position := .start },
      { name := ⟨"U", by decide⟩
        body := .object [⟨⟨"t", by decide⟩, tags, [], .start⟩]
        isExtension := true
        directives := []
        position := .start } ]

theorem tightened_users {identifier tags : TypeRef} (nullable : identifier.isNonNull = false)
    (nullable' : tags.isNonNull = false) :
    (users identifier tags).Tightened (users (.nonNull identifier) (.nonNull tags)) := by
  refine .cons ⟨rfl, rfl, ?_⟩ (.cons ⟨rfl, rfl, ?_⟩ (.cons ⟨rfl, rfl, ?_⟩ .nil))
  · exact .cons ⟨rfl, .inl rfl⟩ .nil
  · exact .cons ⟨rfl, .inl rfl⟩ (.cons ⟨rfl, .inr ⟨nullable, rfl⟩⟩ .nil)
  · exact .cons ⟨rfl, .inr ⟨nullable', rfl⟩⟩ .nil

theorem blastAnalysis_mono_users :
    let id : TypeRef := .named ⟨"ID", by decide⟩
    let d := users id (.list id)
    let d' := users (.nonNull id) (.nonNull (.list id))
    d.Tightened d' ∧ BlastPolicy.Tightened ⟨5, 2, ["Q"]⟩ ⟨3, 2, ["U", "Q"]⟩ ∧
      (d.blastAnalysis ⟨5, 2, ["Q"]⟩).violations.map (fun v => (v.field, v.severity))
        = [("Q.u", .warning)] ∧
      ∃ v' ∈ (d'.blastAnalysis ⟨3, 2, ["U", "Q"]⟩).violations,
        v'.field = "Q.u" ∧ Severity.warning.rank ≤ v'.severity.rank := by
  intro id d d'
  have schema : d.Tightened d' := tightened_users rfl rfl
  have policy : BlastPolicy.Tightened ⟨5, 2, ["Q"]⟩ ⟨3, 2, ["U", "Q"]⟩ :=
    ⟨by decide, by decide, by decide⟩
  have before : (d.blastAnalysis ⟨5, 2, ["Q"]⟩).violations.map (fun v => (v.field, v.severity))
      = [("Q.u", .warning)] := by
    have nodes : d.requiredReads.nodes = ["Q.u", "U.i", "U.t"] := by cbv
    have user : d.requiredReads.reach "Q.u" = ["Q.u", "U.i"] := by cbv
    have identifier : d.requiredReads.reach "U.i" = ["U.i"] := by cbv
    have tags : d.requiredReads.reach "U.t" = ["U.t"] := by cbv
    have onPath : BlastPolicy.isCriticalPath ⟨5, 2, ["Q"]⟩ "Q.u" = true := by decide
    simp [Document.blastAnalysis, BlastAnalysis.ofGraph, nodes, BlastAnalysis.measure, user,
      identifier, tags, BlastAnalysis.objection?, BlastResult.radius, onPath]
  refine ⟨schema, policy, before, ?_⟩
  have found : ("Q.u", Severity.warning) ∈
      (d.blastAnalysis ⟨5, 2, ["Q"]⟩).violations.map (fun v => (v.field, v.severity)) := by
    rw [before]
    exact List.mem_cons_self
  obtain ⟨v, mem, same⟩ := List.mem_map.1 found
  have fieldEq : v.field = "Q.u" := congrArg Prod.fst same
  have severityEq : v.severity = .warning := congrArg Prod.snd same
  obtain ⟨v', mem', field, severity⟩ := (Document.blastAnalysis_mono schema policy).2 v mem
  rw [fieldEq] at field
  rw [severityEq] at severity
  exact ⟨v', mem', field, severity⟩

end SchemaHealth
