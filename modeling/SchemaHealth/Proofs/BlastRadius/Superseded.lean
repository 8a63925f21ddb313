import SchemaHealth.Proofs.BlastRadius.Tiers
import SchemaHealth.Proofs.Graph.RequiredReads
import Mathlib.Data.Finset.Dedup

/-!
# Declarations that later ones replace

Of several declarations of a field the last one decides what the field depends on, but a promise
that the field is never null stays, whatever is declared later. `Document.keepLast` deletes the
declarations of a field that another one follows, in whatever definition or extension they stand.

* `Document.edge_keepLast`: the only edges that are lost lead to the field, and they are lost if its
  last declaration promises nothing.
* `BlastAnalysis.agrees_ofGraph`: where no edge is lost, every field affects what it did and the
  objections are the same.
-/

namespace SchemaHealth

/-! ## Declarations of one type -/

/-- Without the declarations of a name that another one follows, in the list or after it. -/
def FieldDefinition.keepLast (name : Name) (followed : Bool) :
    List FieldDefinition → List FieldDefinition
  | [] => []
  | f :: fs =>
    if f.name = name ∧ (followed ∨ ∃ later ∈ fs, later.name = name) then keepLast name followed fs
    else f :: keepLast name followed fs

namespace FieldDefinition

variable {fs gs : List FieldDefinition} {f : FieldDefinition} {name other : Name} {followed : Bool}
  {p : FieldDefinition → Prop}

/-- Of a declaration only what follows it matters: another one of its name makes it go. -/
theorem keepLast_append : keepLast name followed (fs ++ gs)
    = keepLast name (followed ∨ ∃ later ∈ gs, later.name = name) fs
      ++ keepLast name followed gs := by
  induction fs with
  | nil => rfl
  | cons f fs ih =>
      have follows : (followed = true ∨ ∃ later ∈ fs ++ gs, later.name = name)
          ↔ (followed = true ∨ ∃ later ∈ gs, later.name = name)
            ∨ ∃ later ∈ fs, later.name = name := by
        simp only [List.mem_append, or_and_right, exists_or]
        rw [or_assoc, or_comm (a := ∃ later, later ∈ gs ∧ later.name = name)]
      simp only [List.cons_append, keepLast, ih, follows, decide_eq_true_eq]
      split
      · rfl
      · rfl

/-- What is kept are the other declarations and, if none comes after the list, the last one. -/
theorem mem_keepLast : f ∈ keepLast name followed fs
    ↔ f ∈ fs ∧ f.name ≠ name ∨ followed = false ∧ LastNamed fs name f := by
  induction fs with
  | nil => simp [keepLast, not_lastNamed_nil]
  | cons first fs ih =>
      rw [keepLast, lastNamed_cons]
      split
      next superseded =>
        have follows : followed = false → ∃ later ∈ fs, later.name = name := by
          intro last
          exact superseded.2.resolve_left (by simp [last])
        rw [ih]
        grind
      next kept =>
        have isLast : first.name = name → followed = false ∧ ∀ later ∈ fs, later.name ≠ name := by
          intro named
          refine ⟨Bool.eq_false_iff.2 fun follows => kept ⟨named, .inl follows⟩, ?_⟩
          exact fun later mem named' => kept ⟨named, .inr ⟨later, mem, named'⟩⟩
        rw [List.mem_cons, ih]
        grind

/-- What is said of a field by some declaration is still said if the last declaration says it. -/
theorem exists_mem_keepLast : (∃ f ∈ keepLast name false fs, f.name = other ∧ p f)
    ↔ (∃ f ∈ fs, f.name = other ∧ p f) ∧ (other = name → ∃ f, LastNamed fs name f ∧ p f) := by
  constructor
  · rintro ⟨f, mem, named, holds⟩
    rcases mem_keepLast.1 mem with ⟨mem, ne⟩ | ⟨_, isLast⟩
    · exact ⟨⟨f, mem, named, holds⟩, fun same => absurd (named.trans same) ne⟩
    · exact ⟨⟨f, isLast.mem, named, holds⟩, fun _ => ⟨f, isLast, holds⟩⟩
  · rintro ⟨⟨f, mem, named, holds⟩, last⟩
    by_cases same : other = name
    · obtain ⟨f, isLast, holds⟩ := last same
      exact ⟨f, mem_keepLast.2 (.inr ⟨rfl, isLast⟩), isLast.name_eq.trans same.symm, holds⟩
    · exact ⟨f, mem_keepLast.2 (.inl ⟨mem, fun same' => same (named.symm.trans same')⟩), named,
        holds⟩

/-- Leaving out superseded declarations leaves a field declared. -/
theorem declared_keepLast : (∃ f ∈ keepLast name false fs, f.name = other)
    ↔ ∃ f ∈ fs, f.name = other := by
  have kept : (∃ f ∈ keepLast name false fs, f.name = other ∧ True)
      ↔ (∃ f ∈ fs, f.name = other ∧ True) ∧ (other = name → ∃ f, LastNamed fs name f ∧ True) :=
    exists_mem_keepLast
  simp only [and_true, exists_lastNamed_iff] at kept
  rw [kept]
  exact and_iff_left_of_imp fun declared same => same ▸ declared

/-- The last declarations stay what they are. -/
theorem lastNamed_keepLast : LastNamed (keepLast name false fs) other f ↔ LastNamed fs other f := by
  induction fs with
  | nil => rfl
  | cons first fs ih =>
      have others : (∀ later ∈ keepLast name false fs, later.name ≠ other)
          ↔ ∀ later ∈ fs, later.name ≠ other := by
        have same : (∃ f ∈ keepLast name false fs, f.name = other) ↔ ∃ f ∈ fs, f.name = other :=
          declared_keepLast
        simpa using not_congr same
      rw [keepLast]
      split
      next superseded =>
        -- the deleted declaration is not the last one of its name
        obtain ⟨named, follows⟩ := superseded
        rw [ih, lastNamed_cons]
        refine (or_iff_left ?_).symm
        rintro ⟨rfl, _, none⟩
        obtain ⟨later, mem, named'⟩ := follows.resolve_left Bool.false_ne_true
        exact none later mem (named'.trans named.symm)
      next kept => rw [lastNamed_cons, lastNamed_cons, ih, others]

end FieldDefinition

/-! ## Declarations of a schema -/

namespace TypeDefinition

/-- A definition of an object type without the declarations of a field that another one follows. -/
def keepLast (id : FieldId) (followed : Bool) (t : TypeDefinition) : TypeDefinition :=
  match t.body with
  | .object fs =>
    if t.name = id.type then
      { t with body := .object (FieldDefinition.keepLast id.field followed fs) }
    else t
  | _ => t

variable {id : FieldId} {followed : Bool} {t : TypeDefinition}

theorem name_keepLast : (t.keepLast id followed).name = t.name := by
  unfold keepLast
  split
  · split <;> rfl
  · rfl

theorem isObject_keepLast : (t.keepLast id followed).isObject = t.isObject := by
  unfold keepLast
  split
  next fs object =>
    split
    · rw [isObject, isObject, object]
    · rfl
  · rfl

theorem fields_keepLast (object : t.isObject = true) : (t.keepLast id followed).fields
    = if t.name = id.type then FieldDefinition.keepLast id.field followed t.fields
      else t.fields := by
  obtain ⟨name, body, isExtension, directives, position⟩ := t
  cases body with
  | object fs =>
      rw [keepLast]
      dsimp only
      split
      · rfl
      · rfl
  | _ => cases object

end TypeDefinition

namespace Document

/-- Some definitions without the declarations of a field that another one follows. -/
def keepLastIn (id : FieldId) : List TypeDefinition → List TypeDefinition
  | [] => []
  | t :: ts =>
    t.keepLast id (∃ later ∈ declarations ⟨ts⟩ id.type, later.name = id.field) :: keepLastIn id ts

/-- A schema without the declarations of a field that another one follows. -/
def keepLast (d : Document) (id : FieldId) : Document := ⟨keepLastIn id d.types⟩

/-- The last declaration of a field promises that it is never null. -/
def LastPromises (d : Document) (id : FieldId) : Prop :=
  ∃ f, LastNamed (d.declarations id.type) id.field f ∧ f.type.isNonNull = true

variable {d : Document} {id a b : FieldId} {t : TypeDefinition} {ts : List TypeDefinition}
  {type : Name} {f : FieldDefinition} {p : FieldDefinition → Prop} {x y : String}

theorem declarations_cons : declarations ⟨t :: ts⟩ type
    = (if t.isObject ∧ t.name = type then t.fields else []) ++ declarations ⟨ts⟩ type := by
  simp only [declarations, objects, List.filter_cons]
  by_cases object : t.isObject = true
  · by_cases named : t.name = type <;> simp [object, named]
  · simp [object]

/-- Only the declarations of the type of the field change. -/
theorem declarations_keepLast (d : Document) (id : FieldId) (type : Name) :
    (d.keepLast id).declarations type
      = if type = id.type then FieldDefinition.keepLast id.field false (d.declarations type)
        else d.declarations type := by
  obtain ⟨types⟩ := d
  rw [keepLast]
  induction types with
  | nil => simp [keepLastIn, declarations, objects, FieldDefinition.keepLast]
  | cons t ts ih =>
      rw [keepLastIn, declarations_cons, declarations_cons, ih, TypeDefinition.name_keepLast,
        TypeDefinition.isObject_keepLast]
      -- a definition is followed by what the definitions after it declare, as in `keepLast_append`
      by_cases counts : t.isObject = true ∧ t.name = type
      · rw [if_pos counts, if_pos counts, TypeDefinition.fields_keepLast counts.1, counts.2]
        by_cases same : type = id.type
        · simp [same, FieldDefinition.keepLast_append]
        · simp [same]
      · simp [counts]

theorem lastNamed_keepLast : LastNamed ((d.keepLast id).declarations a.type) a.field f
    ↔ LastNamed (d.declarations a.type) a.field f := by
  rw [declarations_keepLast]
  split
  · exact FieldDefinition.lastNamed_keepLast
  · rfl

theorem exists_mem_keepLast :
    (∃ f ∈ (d.keepLast id).declarations b.type, f.name = b.field ∧ p f)
      ↔ (∃ f ∈ d.declarations b.type, f.name = b.field ∧ p f) ∧
        (b = id → ∃ f, LastNamed (d.declarations id.type) id.field f ∧ p f) := by
  rw [declarations_keepLast]
  split
  next sameType =>
    rw [FieldDefinition.exists_mem_keepLast, sameType]
    have same : b = id ↔ b.field = id.field := by
      obtain ⟨type, field⟩ := b
      obtain ⟨type', field'⟩ := id
      simp_all
    rw [same]
  next otherType =>
    refine (and_iff_left ?_).symm
    rintro rfl
    exact absurd rfl otherType

theorem declared_keepLast : (∃ f ∈ (d.keepLast id).declarations b.type, f.name = b.field)
    ↔ ∃ f ∈ d.declarations b.type, f.name = b.field := by
  rw [declarations_keepLast]
  split
  · exact FieldDefinition.declared_keepLast
  · rfl

/-- Without the superseded declarations a field is required as before, but the field in question
only if its last declaration promises a value. -/
theorem requires_keepLast : (d.keepLast id).Requires a b
    ↔ d.Requires a b ∧ (b = id → d.LastPromises id) := by
  constructor
  · rintro ⟨⟨f, isLast, base⟩, notBuiltin, promised⟩
    obtain ⟨before, last⟩ := exists_mem_keepLast.1 promised
    exact ⟨⟨⟨f, lastNamed_keepLast.1 isLast, base⟩, notBuiltin, before⟩, last⟩
  · rintro ⟨⟨⟨f, isLast, base⟩, notBuiltin, promised⟩, last⟩
    exact ⟨⟨f, lastNamed_keepLast.2 isLast, base⟩, notBuiltin,
      exists_mem_keepLast.2 ⟨promised, last⟩⟩

/-- The required reads that go with the superseded declarations are those of the field in question,
unless its last declaration promises a value. -/
theorem edge_keepLast : (d.keepLast id).requiredReads.Edge x y
    ↔ d.requiredReads.Edge x y ∧ (y = id.text → d.LastPromises id) := by
  simp only [edge_requiredReads, requires_keepLast]
  constructor
  · rintro ⟨a, b, ⟨requires, last⟩, rfl, rfl⟩
    exact ⟨⟨a, b, requires, rfl, rfl⟩, fun same => last (FieldId.text_injective same)⟩
  · rintro ⟨⟨a, b, requires, rfl, rfl⟩, last⟩
    exact ⟨a, b, ⟨requires, fun same => last (congrArg FieldId.text same)⟩, rfl, rfl⟩

/-- A field may be declared later than before, so the order of the nodes can change. -/
theorem nodes_keepLast (d : Document) (id : FieldId) :
    (d.keepLast id).requiredReads.nodes.Perm d.requiredReads.nodes :=
  nodes_requiredReads_perm fun a => by
    rw [mem_declaredIds, mem_declaredIds, declared_keepLast]

end Document

/-! ## Analyses -/

/-- Graphs with the same edges reach the same names. -/
theorem Graph.reach_perm {g g' : Graph} (edges : ∀ x y, g'.Edge x y ↔ g.Edge x y) (x : String) :
    (g'.reach x).Perm (g.reach x) := by
  have same : g'.Edge = g.Edge := edge_ext edges
  refine (List.perm_ext_iff_of_nodup (g'.nodup_reach x) (g.nodup_reach x)).2 fun y => ?_
  rw [mem_reach, mem_reach, Reaches, same]

/-- What a result says, whatever the order of the fields that are affected. -/
def BlastResult.content (r : BlastResult) : String × Finset String × Nat × Severity × Bool :=
  (r.field, r.affected.toFinset, r.radius, r.severity, r.onCriticalPath)

namespace BlastAnalysis

/-- The same results and the same objections, maybe in other orders. -/
structure Agrees (a b : BlastAnalysis) : Prop where
  results : (a.results.map BlastResult.content).Perm (b.results.map BlastResult.content)
  violations : a.violations.Perm b.violations

variable {g g' : Graph} {policy : BlastPolicy} {r r' : BlastResult}

theorem content_measure (edges : ∀ x y, g'.Edge x y ↔ g.Edge x y) (x : String) :
    (measure g' policy x).content = (measure g policy x).content := by
  have same := Graph.reach_perm edges x
  simp only [BlastResult.content, BlastResult.radius, measure, same.length_eq,
    List.toFinset_eq_of_perm _ _ same]

/-- An objection does not depend on the order in which the affected fields are listed. -/
theorem objection?_eq (same : r'.content = r.content) :
    objection? policy r' = objection? policy r := by
  simp only [BlastResult.content, Prod.mk.injEq] at same
  obtain ⟨field, _, radius, _, onPath⟩ := same
  rw [objection?, objection?, field, radius, onPath]

/-- The analyses of graphs with the same nodes and edges agree. -/
theorem agrees_ofGraph (nodes : g'.nodes.Perm g.nodes) (edges : ∀ x y, g'.Edge x y ↔ g.Edge x y)
    (policy : BlastPolicy) : (ofGraph g' policy).Agrees (ofGraph g policy) := by
  constructor
  · simp only [ofGraph, List.map_map]
    have same : BlastResult.content ∘ measure g' policy = BlastResult.content ∘ measure g policy :=
      funext (content_measure edges)
    rw [same]
    exact nodes.map _
  · simp only [ofGraph, List.filterMap_map]
    have same : objection? policy ∘ measure g' policy = objection? policy ∘ measure g policy :=
      funext fun x => objection?_eq (content_measure edges x)
    rw [same]
    exact nodes.filterMap _

end BlastAnalysis

/-- Without the declarations of a field that another one follows, every field depends on what it
did, but for the field itself: it is no longer required anywhere if its last declaration promises
nothing. If it was not required anyway, or the last declaration promises it, the analysis is the
same. -/
theorem Document.superseded_declarations (d : Document) (id : FieldId) :
    (∀ x y, (d.keepLast id).requiredReads.Edge x y
      ↔ d.requiredReads.Edge x y ∧ (y = id.text → d.LastPromises id)) ∧
    ((∀ x, d.requiredReads.Edge x id.text → d.LastPromises id) →
      ∀ policy, ((d.keepLast id).blastAnalysis policy).Agrees (d.blastAnalysis policy)) := by
  refine ⟨fun x y => edge_keepLast, fun promised policy => ?_⟩
  refine BlastAnalysis.agrees_ofGraph (d.nodes_keepLast id) (fun x y => ?_) policy
  rw [edge_keepLast]
  refine and_iff_left_of_imp ?_
  rintro edge rfl
  exact promised x edge

/-- A user with an identifier that is declared twice. -/
def redeclared (first last : TypeRef) : Document where
  types :=
    [ { name := ⟨"Query", by decide⟩
        body := .object [⟨⟨"user", by decide⟩, .named ⟨"User", by decide⟩, [], .start⟩]
        isExtension := false
        directives := []
        position := .start },
      { name := ⟨"User", by decide⟩
        body := .object
          [⟨⟨"id", by decide⟩, first, [], .start⟩, ⟨⟨"id", by decide⟩, last, [], .start⟩]
        isExtension := false
        directives := []
        position := .start } ]

/-- The field that is declared twice. -/
def redeclaredId : FieldId := ⟨⟨"User", by decide⟩, ⟨"id", by decide⟩⟩

section Redeclared

variable {first last : TypeRef}

theorem lastPromises_redeclared :
    (redeclared first last).LastPromises redeclaredId ↔ last.isNonNull = true := by
  have declarations : (redeclared first last).declarations redeclaredId.type
      = [⟨⟨"id", by decide⟩, first, [], .start⟩] ++ [⟨⟨"id", by decide⟩, last, [], .start⟩] := rfl
  rw [Document.LastPromises, declarations]
  constructor
  · rintro ⟨f, isLast, promises⟩
    rcases lastNamed_concat.1 isLast with ⟨_, rfl⟩ | ⟨other, _⟩
    · exact promises
    · exact absurd rfl other
  · exact fun promises => ⟨_, lastNamed_concat.2 (.inl ⟨rfl, rfl⟩), promises⟩

theorem edge_redeclared (promises : first.isNonNull = true ∨ last.isNonNull = true) :
    (redeclared first last).requiredReads.Edge "Query.user" "User.id" := by
  refine Document.edge_requiredReads.2
    ⟨⟨⟨"Query", by decide⟩, ⟨"user", by decide⟩⟩, redeclaredId, ⟨?_, by decide, ?_⟩, rfl, rfl⟩
  · refine ⟨⟨⟨"user", by decide⟩, .named ⟨"User", by decide⟩, [], .start⟩, ?_, rfl⟩
    exact lastNamed_cons.2 (.inr ⟨rfl, rfl, fun later mem => absurd mem List.not_mem_nil⟩)
  · rcases promises with promises | promises
    · exact ⟨_, List.mem_cons_self, rfl, promises⟩
    · exact ⟨_, List.mem_cons_of_mem _ List.mem_cons_self, rfl, promises⟩

end Redeclared

/-- A promise that is withdrawn by a later declaration still counts, and no longer does when the
declaration that was replaced is deleted. -/
theorem withdrawn_promise :
    let id : TypeRef := .named ⟨"ID", by decide⟩
    let d := redeclared (.nonNull id) id
    d.requiredReads.Edge "Query.user" "User.id" ∧
      ¬ (d.keepLast redeclaredId).requiredReads.Edge "Query.user" "User.id" := by
  intro id d
  refine ⟨edge_redeclared (.inl rfl), fun edge => ?_⟩
  have last := (Document.edge_keepLast.1 edge).2 rfl
  rw [lastPromises_redeclared] at last
  cases last

theorem superseded_declarations_redeclared :
    let id : TypeRef := .named ⟨"ID", by decide⟩
    let d := redeclared id (.nonNull id)
    (d.keepLast redeclaredId).requiredReads.Edge "Query.user" "User.id" ∧
      ∀ policy,
        ((d.keepLast redeclaredId).blastAnalysis policy).Agrees (d.blastAnalysis policy) := by
  intro id d
  have promises : d.LastPromises redeclaredId := lastPromises_redeclared.2 rfl
  obtain ⟨edges, agrees⟩ := d.superseded_declarations redeclaredId
  refine ⟨?_, agrees fun _ _ => promises⟩
  exact (edges "Query.user" "User.id").2 ⟨edge_redeclared (.inr rfl), fun _ => promises⟩

end SchemaHealth
