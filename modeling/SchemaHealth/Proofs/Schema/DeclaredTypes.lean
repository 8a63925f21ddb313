import SchemaHealth.Proofs.Schema.Advancing
import SchemaHealth.Proofs.Schema.DocumentText

/-!
# Declared types in a schema

A field has the type whose text is declared. At any place of a text a field is read with a type just
if what comes before its type can be read there and the text of the type follows
(`Schema.fieldDefinition_iff`), and each field of a schema has been read at some place of the text
(`Schema.isDeclared_of_parse`).
-/

namespace SchemaHealth

namespace Schema

namespace Reader

variable {α β : Type} {text : List Char} {r s : Reader α} {f : α → Reader β} {P : α → Prop}
  {Q : β → Prop}

/-- What a reader succeeds with at a place of a text is of some kind. -/
def Finds (text : List Char) (r : Reader α) (P : α → Prop) : Prop :=
  ∀ c a d, c.rest <:+ text → (r c).result = some (a, d) → P a

namespace Finds

theorem of_forall (always : ∀ a, P a) : Finds text r P := fun _ a _ _ _ => always a

protected theorem mono {P' : α → Prop} (finds : Finds text r P) (weaker : ∀ a, P a → P' a) :
    Finds text r P' := fun c a d inside result => weaker a (finds c a d inside result)

protected theorem pure {a : α} (property : P a) : Finds text (pure a) P := by
  intro c b d _ result
  cases result
  exact property

protected theorem bind [forward : Advances r] (first : Finds text r P)
    (next : ∀ a, P a → Finds text (f a) Q) : Finds text (r >>= f) Q := by
  intro c b e inside result
  rw [result_bind] at result
  obtain ⟨⟨a, d⟩, result, result'⟩ := Option.bind_eq_some_iff.1 result
  exact next a (first c a d inside result) d b e ((forward.suffix result).trans inside) result'

/-- What was read before does not matter for the rest. -/
theorem after [Advances r] (next : ∀ a, Finds text (f a) Q) : Finds text (r >>= f) Q :=
  Finds.bind (P := fun _ => True) (fun _ _ _ _ _ => trivial) fun a _ => next a

protected theorem orElse (left : Finds text r P) (right : Finds text s P) :
    Finds text (r <|> s) P := by
  intro c a d inside result
  rw [result_orElse] at result
  rcases Option.or_eq_some_iff.1 result with result | ⟨-, result⟩
  · exact left c a d inside result
  · exact right c a d inside result

protected theorem rule (finds : Finds text r P) : Finds text (rule r) P := by
  intro c a d inside result
  rw [result_rule] at result
  exact finds c.skip a d ((Advances.rest_drop_suffix _ _).trans inside) result

protected theorem optional [Advances r] (finds : Finds text r P) :
    Finds text (optional r) (fun o => ∀ a ∈ o, P a) := by
  refine .orElse (.bind finds fun a property => .pure fun b same => ?_) (.pure nofun)
  cases same
  exact property

protected theorem upTo [Advances r] (finds : Finds text r P) (n : Nat) :
    Finds text (r.upTo n) (fun as => ∀ a ∈ as, P a) := by
  induction n with
  | zero => exact .pure (by simp)
  | succ n ih =>
      refine .orElse (.bind finds fun a first => .bind ih fun as others => ?_) (.pure (by simp))
      exact .pure (List.forall_mem_cons.2 ⟨first, others⟩)

protected theorem many1 [Advances r] (finds : Finds text r P) :
    Finds text r.many1 (fun as => ∀ a ∈ as, P a) := by
  have many : Finds text r.many (fun as => ∀ a ∈ as, P a) := fun c => Finds.upTo finds _ c
  refine .bind finds fun a first => .bind many fun as others => .pure ?_
  exact List.forall_mem_cons.2 ⟨first, others⟩

end Finds

end Reader

open Reader

/-! ## The declaration of a field -/

/-- The part of a declaration before the type: its place and the name of the field. -/
def fieldHead : Reader (Position × Name) := do
  let position ← here
  discard (optional string)
  let key ← name
  discard (optional argumentDefinitions)
  literal ":"
  return (position, key)

/-- At a place of a text a field is declared: after the part before its type stands the text of the
type. -/
def DeclaredAt (c : Cursor) (f : FieldDefinition) : Prop :=
  ∃ d rest, (fieldHead c).result = some ((f.position, f.name), d) ∧
    d.skip.rest = f.type.printChars ++ rest ∧ f.type.EndsBefore rest

/-- A declaration is its head, its type and its directives, each read where the one before ended. -/
theorem result_fieldDefinition (c : Cursor) : (fieldDefinition c).result
    = (fieldHead c.skip).result.bind fun head => (typeRef head.2).result.bind fun type =>
      (anyDirectives type.2).result.map fun applied =>
        (⟨head.1.2, type.1, applied.1, head.1.1⟩, applied.2) := by
  rw [fieldDefinition, result_rule]
  simp only [fieldHead, result_bind, Option.bind_assoc, Option.map_eq_bind]
  rfl

/-- Reading directives does not fail: there may be none. -/
theorem exists_result_anyDirectives (c : Cursor) :
    ∃ applied d, (anyDirectives c).result = some (applied, d) := by
  rw [anyDirectives, result_bind, result_optional]
  exact ⟨_, _, rfl⟩

/-- A type is read just when it stands in the text, after blanks, and ends there. -/
theorem result_typeRef_iff (c : Cursor) (t : TypeRef) :
    (∃ d, (typeRef c).result = some (t, d)) ↔ t.SingleMarks ∧
      ∃ rest, c.skip.rest = t.printChars ++ rest ∧ t.EndsBefore rest := by
  rw [typeRef, result_lexeme, ← Cursor.rest_skip]
  constructor
  · rintro ⟨d, result⟩
    obtain ⟨⟨t', rest⟩, read, made⟩ := Option.map_eq_some_iff.1 result
    cases made
    obtain ⟨single, text, ends⟩ := TypeRef.read?_eq_some_iff.1 read
    exact ⟨single, rest, text, ends⟩
  · rintro ⟨single, rest, text, ends⟩
    rw [TypeRef.read?_eq_some_iff.2 ⟨single, text, ends⟩]
    exact ⟨_, rfl⟩

/-- At any place a field is read with a type just if it is declared there with the type, and no
part of the type has two marks. -/
theorem fieldDefinition_iff (c : Cursor) (f : FieldDefinition) :
    (∃ applied d, (fieldDefinition c).result = some ({ f with directives := applied }, d))
      ↔ f.type.SingleMarks ∧ DeclaredAt c.skip f := by
  obtain ⟨key, type, _, position⟩ := f
  simp only [result_fieldDefinition]
  constructor
  · rintro ⟨applied, e, result⟩
    obtain ⟨⟨⟨_, _⟩, d⟩, isHead, result⟩ := Option.bind_eq_some_iff.1 result
    obtain ⟨⟨type, d'⟩, isType, result⟩ := Option.bind_eq_some_iff.1 result
    obtain ⟨_, _, made⟩ := Option.map_eq_some_iff.1 result
    cases made
    obtain ⟨single, rest, text, ends⟩ := (result_typeRef_iff d type).1 ⟨d', isType⟩
    exact ⟨single, d, rest, isHead, text, ends⟩
  · rintro ⟨single, d, rest, head, text, ends⟩
    obtain ⟨d', isType⟩ := (result_typeRef_iff d type).2 ⟨single, rest, text, ends⟩
    obtain ⟨applied, e, areApplied⟩ := exists_result_anyDirectives d'
    refine ⟨applied, e, ?_⟩
    rw [head, Option.bind_some, isType, Option.bind_some, areApplied]
    rfl

/-! ## The fields of a schema -/

/-- A field is declared somewhere in a text, with a type none of whose parts has two marks. -/
def IsDeclared (text : List Char) (f : FieldDefinition) : Prop :=
  f.type.SingleMarks ∧ ∃ c : Cursor, c.rest <:+ text ∧ DeclaredAt c f

section IsDeclared

variable {text : List Char}

/-- A declaration that is read stands in the text. -/
theorem finds_fieldDefinition : Finds text fieldDefinition (IsDeclared text) := by
  intro c f d inside result
  obtain ⟨single, declared⟩ := (fieldDefinition_iff c f).1 ⟨f.directives, d, result⟩
  refine ⟨single, c.skip, ?_, declared⟩
  exact (Advances.rest_drop_suffix _ _).trans inside

theorem finds_fieldDefinitions :
    Finds text fieldDefinitions (fun fs => ∀ f ∈ fs, IsDeclared text f) :=
  .rule <| .after fun _ => .bind (.many1 finds_fieldDefinition) fun _ all =>
    .after fun _ => .pure all

variable {α : Type} {contents : Reader α} {P : α → Prop}

/-- What holds of the contents in braces holds of contents that may be missing. -/
theorem finds_anyContents [Advances contents] (finds : Finds text contents P) :
    Finds text (anyContents contents) (fun x => ∀ a ∈ x.2, P a) :=
  .after fun _ => .bind (.optional finds) fun _ all => .pure all

theorem finds_someContents [Advances contents] (finds : Finds text contents P) :
    Finds text (someContents contents) (fun x => ∀ a ∈ x.2, P a) := by
  refine .orElse (.after fun _ => .bind finds fun a property => .pure fun b same => ?_)
    (.after fun _ => .pure nofun)
  cases same
  exact property

/-- Contents of a body all of whose fields are declared. -/
def Contains (text : List Char) (body : Option α → TypeBody) (x : List Directive × Option α) :
    Prop :=
  ∀ t : TypeDefinition, t.body = body x.2 → ∀ f ∈ t.fields, IsDeclared text f

theorem finds_definition {body : Option α → TypeBody}
    {defined extended : Reader (List Directive × Option α)} [Advances defined] [Advances extended]
    (keyword : String) (finds : Finds text defined (Contains text body))
    (finds' : Finds text extended (Contains text body)) :
    Finds text (definition keyword body defined extended)
      (fun t => ∀ f ∈ t.fields, IsDeclared text f) := by
  refine .rule (.after fun position => .orElse ?_ ?_)
  · refine .after fun _ => .after fun _ => .after fun key => .bind finds fun x all => .pure ?_
    exact all _ rfl
  · refine .after fun _ => .after fun _ => .after fun key => .bind finds' fun x all => .pure ?_
    exact all _ rfl

/-- Where no fields are kept, all that are kept are declared. -/
theorem finds_bareDefinition {body : Option α → TypeBody}
    {defined extended : Reader (List Directive × Option α)} [Advances defined] [Advances extended]
    (keyword : String)
    (bare : ∀ (t : TypeDefinition) contents, t.body = body contents → t.fields = []) :
    Finds text (definition keyword body defined extended)
      (fun t => ∀ f ∈ t.fields, IsDeclared text f) := by
  have contains (x : List Directive × Option α) : Contains text body x := fun t same f mem => by
    rw [bare t x.2 same] at mem
    cases mem
  exact finds_definition keyword (.of_forall contains) (.of_forall contains)

theorem finds_contains {r : Reader (List Directive × Option (List FieldDefinition))}
    {body : Option (List FieldDefinition) → TypeBody}
    (fields : ∀ (t : TypeDefinition) contents, t.body = body contents →
      t.fields = contents.getD [])
    (finds : Finds text r fun x => ∀ fs ∈ x.2, ∀ f ∈ fs, IsDeclared text f) :
    Finds text r (Contains text body) := by
  refine finds.mono fun x all t same f mem => ?_
  rw [fields t x.2 same] at mem
  cases contents : x.2 with
  | none =>
      rw [contents] at mem
      cases mem
  | some fs =>
      rw [contents] at mem
      exact all fs contents f mem

/-- Whatever kind of definition is read, its fields stand in the text. -/
theorem finds_typeDefinition :
    Finds text typeDefinition (fun t => ∀ f ∈ t.fields, IsDeclared text f) := by
  have any : Finds text (anyContents fieldDefinitions) fun x => ∀ fs ∈ x.2, ∀ f ∈ fs,
      IsDeclared text f := finds_anyContents finds_fieldDefinitions
  have some : Finds text (someContents fieldDefinitions) fun x => ∀ fs ∈ x.2, ∀ f ∈ fs,
      IsDeclared text f := finds_someContents finds_fieldDefinitions
  refine .rule (.orElse ?scalar (.orElse ?object (.orElse ?interface (.orElse ?union
    (.orElse ?enum ?input)))))
  case object =>
    have fields (t : TypeDefinition) (contents : Option (List FieldDefinition))
        (same : t.body = .object (contents.getD [])) : t.fields = contents.getD [] := by
      rw [TypeDefinition.fields, same]
    exact finds_definition "type" (finds_contains fields (.after fun _ => any))
      (finds_contains fields (.orElse (.after fun _ => some) (.after fun _ => .pure nofun)))
  case interface =>
    have fields (t : TypeDefinition) (contents : Option (List FieldDefinition))
        (same : t.body = .interface (contents.getD [])) : t.fields = contents.getD [] := by
      rw [TypeDefinition.fields, same]
    exact finds_definition "interface" (finds_contains fields (.after fun _ => any))
      (finds_contains fields (.after fun _ => some))
  case scalar =>
    exact finds_bareDefinition "scalar" fun t _ same => by rw [TypeDefinition.fields, same]
  case union =>
    exact finds_bareDefinition "union" fun t _ same => by rw [TypeDefinition.fields, same]
  case enum =>
    exact finds_bareDefinition "enum" fun t _ same => by rw [TypeDefinition.fields, same]
  case input =>
    exact finds_bareDefinition "input" fun t _ same => by rw [TypeDefinition.fields, same]

/-- The fields of a schema stand in the text from which it is read. -/
theorem finds_document :
    Finds text document (fun d => ∀ t ∈ d.types, ∀ f ∈ t.fields, IsDeclared text f) := by
  have kept : Finds text systemDefinition
      (fun kept => ∀ t ∈ kept, ∀ f ∈ t.fields, IsDeclared text f) := by
    refine .rule (.orElse (.after fun _ => .pure nofun) (.orElse ?_ (.after fun _ => .pure nofun)))
    refine .bind finds_typeDefinition fun t declared => .pure fun u same => ?_
    cases same
    exact declared
  refine .bind (.many1 kept) fun all declared => .after fun _ => .pure fun t mem => ?_
  obtain ⟨kept, mem, same⟩ := List.mem_filterMap.1 mem
  exact declared kept mem t same

/-- No field is made up: each one that is read off a text is declared there. -/
theorem isDeclared_of_parse {text : String} {d : Document} (parsed : Document.parse text = .ok d) :
    ∀ t ∈ d.types, ∀ f ∈ t.fields, IsDeclared text.toList f := by
  obtain ⟨e, result⟩ := Document.exists_result_of_parse parsed
  exact finds_document _ d e (List.suffix_refl _) result

end IsDeclared

end Schema

/-- Declared types survive writing and reading. A text starts with a type just if no part of the
type has two marks, its text comes first and nothing after that goes on with it. At any place of a
text a field is read with a type just if it is declared there with it. So the text of a schema
without directives reads as that schema, and in whatever a text reads as, each field has a type that
the text declares. -/
theorem declaredTypes_survive :
    (∀ (t : TypeRef) (cs rest : List Char), TypeRef.read? cs = some (t, rest)
      ↔ t.SingleMarks ∧ cs = t.print.toList ++ rest ∧ t.EndsBefore rest) ∧
    (∀ (c : Schema.Cursor) (f : FieldDefinition),
      (∃ applied d, (Schema.fieldDefinition c).result = some ({ f with directives := applied }, d))
        ↔ f.type.SingleMarks ∧ Schema.DeclaredAt c.skip f) ∧
    (∀ d : Document, d.types ≠ [] → (∀ t ∈ d.types, t.IsPlain) →
      ∃ read, Document.parse d.text = .ok read ∧ read.unplaced = d.unplaced) ∧
    ∀ (text : String) (d : Document), Document.parse text = .ok d →
      ∀ t ∈ d.types, ∀ f ∈ t.fields, Schema.IsDeclared text.toList f := by
  refine ⟨fun t cs rest => ?_, Schema.fieldDefinition_iff, fun d some plain => ?_, ?_⟩
  · rw [TypeRef.print, String.toList_ofList]
    exact TypeRef.read?_eq_some_iff
  · exact Document.parse_text some plain
  · exact fun text d parsed => Schema.isDeclared_of_parse parsed

/-- A schema with a list in a list. -/
def gridSchema : Document where
  types :=
    [ { name := ⟨"Grid", by decide⟩
        body := .object
          [⟨⟨"cells", by decide⟩, .nonNull (.list (.list (.nonNull (.named ⟨"Cell", by decide⟩)))),
              [], .start⟩,
            ⟨⟨"type", by decide⟩, .named ⟨"Symbol", by decide⟩, [], .start⟩]
        isExtension := false
        directives := []
        position := .start },
      { name := ⟨"Node", by decide⟩
        body := .interface [⟨⟨"key", by decide⟩, .nonNull (.named ⟨"Key", by decide⟩), [], .start⟩]
        isExtension := true
        directives := []
        position := .start } ]

theorem declaredTypes_survive_gridSchema :
    let text := "\ntype Grid \x7b cells: [[Cell!]]! type: Symbol \x7d\n" ++
      "extend interface Node \x7b key: Key! \x7d"
    gridSchema.text = text ∧ (∀ t ∈ gridSchema.types, t.IsPlain) ∧
      ∃ read, Document.parse text = .ok read ∧ read.unplaced = gridSchema.unplaced ∧
        ∀ t ∈ read.types, ∀ f ∈ t.fields, Schema.IsDeclared text.toList f := by
  intro text
  have written : gridSchema.text = text := by decide
  have plain : ∀ t ∈ gridSchema.types, t.IsPlain := by
    refine List.forall_mem_cons.2 ⟨⟨rfl, ?_, nofun⟩, List.forall_mem_singleton.2 ⟨rfl, ?_, ?_⟩⟩
    · simp [TypeDefinition.fields, TypeRef.SingleMarks, TypeRef.isNonNull]
    · simp [TypeDefinition.fields, TypeRef.SingleMarks, TypeRef.isNonNull]
    · exact fun _ => List.cons_ne_nil _ _
  obtain ⟨-, -, survives, isDeclared⟩ := declaredTypes_survive
  obtain ⟨read, parsed, same⟩ := survives gridSchema (by simp [gridSchema]) plain
  rw [written] at parsed
  exact ⟨written, plain, read, parsed, same, isDeclared text read parsed⟩

end SchemaHealth
