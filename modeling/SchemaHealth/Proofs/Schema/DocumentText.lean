import SchemaHealth.Schema.Grammar
import SchemaHealth.Proofs.Schema.Reading
import SchemaHealth.Proofs.Schema.TypeText

/-!
# The text of a schema

A schema without directives can be written: `Document.text` gives each definition a line, with its
fields in braces. What is read from the text is the schema again, up to the places of its parts
(`Document.parse_text`).
-/

namespace SchemaHealth

/-! ## Writing -/

/-- A declaration after a blank. -/
def FieldDefinition.chars (f : FieldDefinition) : List Char :=
  ' ' :: (f.name.text.toList ++ ':' :: ' ' :: f.type.printChars)

/-- The declarations in a definition, in braces if there are any. -/
def FieldDefinition.allChars : List FieldDefinition → List Char
  | [] => []
  | f :: fs => " \x7b".toList ++ ((f :: fs).flatMap chars ++ " \x7d".toList)

/-- The keyword of a definition. -/
def TypeBody.keyword : TypeBody → String
  | scalar => "scalar"
  | object _ => "type"
  | interface _ => "interface"
  | union => "union"
  | enum => "enum"
  | inputObject => "input"

namespace TypeDefinition

/-- A definition, or an extension made of it. -/
def extension (isExtension : Bool) (cs : List Char) : List Char :=
  if isExtension then "extend".toList ++ ' ' :: cs else cs

/-- A definition on a line of its own. -/
def chars (t : TypeDefinition) : List Char :=
  '\n' :: extension t.isExtension (t.body.keyword.toList ++ ' ' ::
    (t.name.text.toList ++ FieldDefinition.allChars t.fields))

/-- A definition without directives. An extension declares fields. -/
structure IsPlain (t : TypeDefinition) : Prop where
  directives : t.directives = []
  fields : ∀ f ∈ t.fields, f.directives = [] ∧ f.type.SingleMarks
  extension : t.isExtension = true → t.fields ≠ []

end TypeDefinition

/-- The text of a schema without directives. -/
def Document.text (d : Document) : String := String.ofList (d.types.flatMap TypeDefinition.chars)

/-! ## Places -/

/-- A declaration without its place. -/
def FieldDefinition.unplaced (f : FieldDefinition) : FieldDefinition :=
  { f with position := .start }

/-- Contents without their places. -/
def TypeBody.unplaced : TypeBody → TypeBody
  | object fields => object (fields.map FieldDefinition.unplaced)
  | interface fields => interface (fields.map FieldDefinition.unplaced)
  | body => body

/-- A definition without its place. -/
def TypeDefinition.unplaced (t : TypeDefinition) : TypeDefinition :=
  { t with body := t.body.unplaced, position := .start }

/-- A schema without places. -/
def Document.unplaced (d : Document) : Document := ⟨d.types.map TypeDefinition.unplaced⟩

namespace Schema

open Reader

variable {cs ds tail rest : List Char}

/-! ## Words -/

/-- The keywords of type definitions. -/
def keywords : List String := ["scalar", "type", "interface", "union", "enum", "input"]

/-- The words that a definition may start with. -/
def openings : List String := "schema" :: "extend" :: "directive" :: keywords

/-- None of some words starts with another one. -/
theorem not_isPrefix_openings : ∀ v ∈ openings, ∀ w ∈ "implements" :: openings, v ≠ w →
    ¬ w.toList <+: v.toList ∧ ¬ v.toList <+: w.toList := by
  decide

theorem not_isPrefix_append {v w : String} (isOpening : v ∈ openings)
    (isWord : w ∈ "implements" :: openings) (ne : v ≠ w) : ¬ w.toList <+: v.toList ++ ds := by
  obtain ⟨shorter, longer⟩ := not_isPrefix_openings v isOpening w isWord ne
  intro start
  exact (List.prefix_or_prefix_of_prefix start (List.prefix_append _ _)).elim shorter longer

/-- Every opening word starts like a name. -/
theorem isNameStart_openings : ∀ w ∈ openings, ∃ c ∈ w.toList.head?, isNameStart c := by
  have starts : openings.all fun w => w.toList.head?.any isNameStart := by decide
  intro w isOpening
  obtain ⟨c, first, start⟩ :=
    (Option.any_eq_true _ _).1 (List.all_eq_true.1 starts w isOpening)
  exact ⟨c, first, start⟩

/-- No blanks come before an opening word. -/
theorem skipped_opening {w : String} (isOpening : w ∈ openings) :
    skipped (w.toList ++ ds) = w.toList ++ ds := by
  obtain ⟨c, first, start⟩ := isNameStart_openings w isOpening
  obtain ⟨others, chars⟩ := List.head?_eq_some_iff.1 first
  exact skipped_of_isNameStart (by rw [chars]; rfl) start

theorem head?_opening_ne {w : String} (isOpening : w ∈ openings) {c : Char}
    (other : isNameStart c = false) : (w.toList ++ ds).head? ≠ some c := by
  obtain ⟨d, first, start⟩ := isNameStart_openings w isOpening
  obtain ⟨others, chars⟩ := List.head?_eq_some_iff.1 first
  rw [chars]
  rintro same
  cases same
  exact absurd start (Bool.eq_false_iff.1 other)

/-! ## Names and types in a text -/

theorem exists_head?_name (n : Name) (cs : List Char) :
    ∃ c, (n.text.toList ++ cs).head? = some c ∧ isNameStart c := by
  have wellFormed := n.wellFormed
  cases chars : n.text.toList with
  | nil => exact absurd chars n.toList_ne_nil
  | cons c parts =>
      rw [chars, isName, Bool.and_eq_true] at wellFormed
      exact ⟨c, rfl, wellFormed.1⟩

theorem head?_name_ne (n : Name) {c : Char} (other : isNameStart c = false) :
    (n.text.toList ++ cs).head? ≠ some c := by
  obtain ⟨d, first, start⟩ := exists_head?_name n cs
  rintro same
  cases same.symm.trans first
  exact absurd start (Bool.eq_false_iff.1 other)

/-- No blanks come before a name. -/
theorem skipped_name (n : Name) : skipped (n.text.toList ++ cs) = n.text.toList ++ cs := by
  obtain ⟨c, first, start⟩ := exists_head?_name n cs
  exact skipped_of_isNameStart first start

/-- No blanks come before a type. -/
theorem skipped_printChars (t : TypeRef) : skipped (t.printChars ++ cs) = t.printChars ++ cs := by
  induction t generalizing cs with
  | named n => exact skipped_name n
  | list item => rfl
  | nonNull inner ih =>
      rw [TypeRef.printChars, List.append_assoc]
      exact ih

/-- A name is read up to a character that cannot be part of it. -/
theorem reads_name (n : Name) (start : skipped cs = n.text.toList ++ ds)
    (ends : ∀ c ∈ ds.head?, isNamePart c = false) : Reads name cs (· = n) ds :=
  .lexeme (start ▸ n.read?_append ends) ⟨_, start.symm⟩

/-- A printed type is read up to what may follow it. -/
theorem reads_typeRef {t : TypeRef} (single : t.SingleMarks)
    (start : skipped cs = t.printChars ++ ds) (ends : t.EndsBefore ds) :
    Reads typeRef cs (· = t) ds :=
  .lexeme (TypeRef.read?_eq_some_iff.2 ⟨single, start, ends⟩) ⟨_, start.symm⟩

/-! ## Parts that are left out -/

theorem readString?_eq_none (unquoted : cs.head? ≠ some '"') : readString? cs = none := by
  have block : readBlockString? cs = none := by
    unfold readBlockString?
    split
    · exact absurd rfl unquoted
    · rfl
  have quoted : readQuotedString? cs = none := by
    unfold readQuotedString?
    split
    · exact absurd rfl unquoted
    · rfl
  rw [readString?, block, quoted]
  rfl

/-- No description comes first, nor anything else that starts with one of some characters. -/
theorem refuses_string (unquoted : (skipped cs).head? ≠ some '"') : Refuses string cs :=
  .lexeme (readString?_eq_none unquoted)

/-- A word does not stand where another character comes first. -/
theorem refuses_literal {word : String} {c : Char} (first : word.toList.head? = some c)
    (other : (skipped cs).head? ≠ some c) : Refuses (literal word) cs := by
  refine .literal ?_
  rintro ⟨rest, start⟩
  obtain ⟨others, chars⟩ := List.head?_eq_some_iff.1 first
  rw [chars] at start
  exact other (start ▸ rfl)

/-- Without a sign for directives there are none. -/
theorem reads_anyDirectives (other : (skipped cs).head? ≠ some '@') :
    Reads anyDirectives cs (· = []) cs := by
  have refuses : Refuses directives cs := by
    refine .rule (.bind (.rule (.bind (refuses_literal rfl ?_))))
    rwa [skipped_skipped, skipped_skipped]
  exact .bind (.optional_none refuses) fun _ none => .pure (by rw [none]; rfl)

/-! ## Declarations -/

/-- What may follow a declaration: a blank, and no directive after that. -/
def FollowsField (cs : List Char) : Prop :=
  cs.head? = some ' ' ∧ (skipped cs).head? ≠ some '@'

/-- A blank ends every type. -/
theorem endsBefore_of_space (t : TypeRef) (space : cs.head? = some ' ') : t.EndsBefore cs := by
  have first : ∀ c ∈ cs.head?, isNamePart c = false ∧ c ≠ '!' := fun c first => by
    cases space.symm.trans first
    decide
  cases t with
  | named n => exact first
  | list item => exact fun c mem => (first c mem).2
  | nonNull inner => trivial

/-- A written declaration is read back, but for its place. -/
theorem reads_fieldDefinition {f : FieldDefinition} (undirected : f.directives = [])
    (single : f.type.SingleMarks) (follows : FollowsField tail) :
    Reads fieldDefinition (f.chars ++ tail) (·.unplaced = f.unplaced) tail := by
  have text : skipped (f.chars ++ tail)
      = f.name.text.toList ++ ':' :: ' ' :: (f.type.printChars ++ tail) := by
    simp [FieldDefinition.chars, skipped_space, skipped_name]
  refine .rule (text ▸ ?_)
  refine .bind .here fun position _ => ?_
  refine .bind (Reads.discard (.optional_none (refuses_string ?_))) fun _ _ => ?_
  · rw [skipped_name]
    exact head?_name_ne _ rfl
  refine .bind (reads_name f.name (skipped_name f.name) ?_) fun n isName => ?_
  · rintro c first
    cases first
    rfl
  have noArguments : Refuses argumentDefinitions (':' :: ' ' :: (f.type.printChars ++ tail)) :=
    .rule (.bind (refuses_literal rfl (ne_of_beq_false rfl)))
  refine .bind (Reads.discard (.optional_none noArguments)) fun _ _ => ?_
  refine .bind (.literal rfl) fun _ _ => ?_
  refine .bind (reads_typeRef single ?_ (endsBefore_of_space _ follows.1)) fun t isType => ?_
  · rw [skipped_space, skipped_printChars]
  refine .bind (reads_anyDirectives follows.2) fun applied none => .pure ?_
  rw [isName, isType, none, ← undirected]
  rfl

/-- Declarations end before a brace. -/
theorem refuses_fieldDefinition : Refuses fieldDefinition (" \x7d".toList ++ tail) := by
  refine .rule (.bind_right .here fun _ _ => ?_)
  have noDescription : Refuses string (skipped (" \x7d".toList ++ tail)) :=
    refuses_string (ne_of_beq_false rfl)
  refine .bind_right (Reads.discard (.optional_none noDescription)) fun _ _ => ?_
  exact .bind (.lexeme rfl)

/-- Written declarations form a row that a brace ends. -/
theorem row_fieldDefinitions {fields : List FieldDefinition}
    (plain : ∀ f ∈ fields, f.directives = [] ∧ f.type.SingleMarks) :
    Row fieldDefinition FieldDefinition.chars FieldDefinition.unplaced FieldDefinition.unplaced
      FollowsField fields (" \x7d".toList ++ tail) where
  visible _ _ := List.cons_ne_nil _ _
  reads f mem _ follows := reads_fieldDefinition (plain f mem).1 (plain f mem).2 follows
  goes f _ _ := by
    refine ⟨rfl, ?_⟩
    rw [FieldDefinition.chars, List.cons_append, skipped_space, List.append_assoc, skipped_name]
    exact head?_name_ne _ rfl
  last := ⟨rfl, ne_of_beq_false rfl⟩
  ended := refuses_fieldDefinition

/-- Declarations in braces are read back, but for their places. -/
theorem reads_fieldDefinitions {fields : List FieldDefinition}
    (plain : ∀ f ∈ fields, f.directives = [] ∧ f.type.SingleMarks) (some : fields ≠ []) :
    Reads fieldDefinitions (FieldDefinition.allChars fields ++ tail)
      (fun fs => fs.map FieldDefinition.unplaced = fields.map FieldDefinition.unplaced) tail := by
  have text : FieldDefinition.allChars fields ++ tail
      = " \x7b".toList ++ (fields.flatMap FieldDefinition.chars ++ (" \x7d".toList ++ tail)) := by
    cases fields with
    | nil => exact absurd rfl some
    | cons f fields => simp [FieldDefinition.allChars]
  refine text ▸ .rule (.bind (.literal rfl) fun _ _ => ?_)
  refine .bind ((row_fieldDefinitions plain).reads_many1 some) fun fs same => ?_
  exact .bind (.literal rfl) fun _ _ => .pure same

/-! ## Definitions -/

/-- What may follow a definition: nothing, or another definition on a line of its own. -/
def FollowsType (cs : List Char) : Prop :=
  cs = [] ∨ ∃ word ∈ openings, ∃ rest, cs = '\n' :: (word.toList ++ rest)

theorem FollowsType.head?_ne (follows : FollowsType cs) {c : Char} (other : isNameStart c = false) :
    (skipped cs).head? ≠ some c := by
  rcases follows with rfl | ⟨word, isOpening, rest, rfl⟩
  · exact nofun
  · rw [skipped_newline, skipped_opening isOpening]
    exact head?_opening_ne isOpening other

theorem FollowsType.not_implements (follows : FollowsType cs) :
    ¬ "implements".toList <+: skipped cs := by
  rcases follows with rfl | ⟨word, isOpening, rest, rfl⟩
  · exact fun start => absurd (List.prefix_nil.1 start) (by decide)
  · rw [skipped_newline, skipped_opening isOpening]
    refine not_isPrefix_append isOpening List.mem_cons_self ?_
    rintro rfl
    exact absurd isOpening (by decide)

/-- No contents start there that have a sign of their own. -/
theorem FollowsType.refuses_contents {α : Type} {word : String} {c : Char}
    {next : Unit → Reader α} (follows : FollowsType cs) (first : word.toList.head? = some c)
    (other : isNameStart c = false) : Refuses (rule (literal word >>= next)) cs := by
  refine .rule (.bind (refuses_literal first ?_))
  rw [skipped_skipped]
  exact follows.head?_ne other

section Definition

variable {α β : Type} {body : Option α → TypeBody}
  {defined extended : Reader (List Directive × Option α)}

/-- One opening word is not taken for another. -/
theorem refuses_opening {v w : String} (isOpening : v ∈ openings) (isWord : w ∈ openings)
    (ne : v ≠ w) : Refuses (literal w) (v.toList ++ ds) := by
  refine .literal ?_
  rw [skipped_opening isOpening]
  exact not_isPrefix_append isOpening (List.mem_cons_of_mem _ isWord) ne

theorem reads_opening {w : String} (isOpening : w ∈ openings) :
    Reads (literal w) (w.toList ++ ds) (fun _ => True) ds :=
  .literal (skipped_opening isOpening)

theorem reads_spacedOpening {w : String} (isOpening : w ∈ openings) :
    Reads (literal w) (' ' :: (w.toList ++ ds)) (fun _ => True) ds :=
  .literal (by rw [skipped_space, skipped_opening isOpening])

theorem mem_openings_extend : "extend" ∈ openings := by decide

theorem mem_openings_of_mem_keywords : ∀ w ∈ keywords, w ∈ openings ∧ w ≠ "extend" := by decide

theorem reads_extend : Reads extend ("extend".toList ++ ds) (fun _ => True) ds := by
  refine .rule ?_
  rw [skipped_opening mem_openings_extend]
  exact reads_opening mem_openings_extend

theorem refuses_extend {w : String} (isOpening : w ∈ openings) (ne : w ≠ "extend") :
    Refuses extend (w.toList ++ ds) := by
  refine .rule ?_
  rw [skipped_opening isOpening]
  exact refuses_opening isOpening mem_openings_extend ne

section Extension

open TypeDefinition (extension)

variable {v w : String} {isExtension : Bool}

theorem skipped_extension (isKeyword : v ∈ keywords) :
    skipped (extension isExtension (v.toList ++ ds)) = extension isExtension (v.toList ++ ds) := by
  cases isExtension with
  | false => exact skipped_opening (mem_openings_of_mem_keywords v isKeyword).1
  | true => exact skipped_opening mem_openings_extend

/-- No description comes before a definition. -/
theorem reads_noDescription (isKeyword : v ∈ keywords) :
    Reads (discard (optional string)) (extension isExtension (v.toList ++ ds)) (fun _ => True)
      (extension isExtension (v.toList ++ ds)) := by
  refine Reads.discard (.optional_none (refuses_string ?_))
  rw [skipped_extension isKeyword]
  cases isExtension with
  | false => exact head?_opening_ne (mem_openings_of_mem_keywords v isKeyword).1 rfl
  | true => exact head?_opening_ne mem_openings_extend rfl

/-- A definition is read back when its contents are. -/
theorem reads_definition {n : Name} {b : TypeBody} (isKeyword : v ∈ keywords)
    (ends : ∀ c ∈ ds.head?, isNamePart c = false)
    (contents : Reads (if isExtension then extended else defined) ds
      (fun x => x.1 = [] ∧ (body x.2).unplaced = b.unplaced) tail) :
    Reads (definition v body defined extended)
      (extension isExtension (v.toList ++ ' ' :: (n.text.toList ++ ds)))
      (·.unplaced = ⟨n, b.unplaced, isExtension, [], .start⟩) tail := by
  obtain ⟨isOpening, notExtend⟩ := mem_openings_of_mem_keywords v isKeyword
  have isName : Reads name (' ' :: (n.text.toList ++ ds)) (· = n) ds :=
    reads_name n (by rw [skipped_space, skipped_name]) ends
  refine .rule ?_
  rw [skipped_extension isKeyword]
  refine .bind .here fun position _ => ?_
  cases isExtension with
  | false =>
      refine .orElse_left (.bind (reads_noDescription isKeyword) fun _ _ => ?_)
      refine .bind (reads_opening isOpening) fun _ _ => ?_
      refine .bind isName fun key same => .bind contents fun x property => .pure ?_
      rw [same, TypeDefinition.unplaced, property.1, property.2]
  | true =>
      refine .orElse_right (.bind_right (reads_noDescription isKeyword) fun _ _ => ?_) ?_
      · exact .bind (refuses_opening mem_openings_extend isOpening notExtend.symm)
      · refine .bind reads_extend fun _ _ => .bind (reads_spacedOpening isOpening) fun _ _ => ?_
        refine .bind isName fun key same => .bind contents fun x property => .pure ?_
        rw [same, TypeDefinition.unplaced, property.1, property.2]

/-- Where a definition of another kind starts, there is no keyword `w`. -/
theorem refuses_otherKeyword (isKeyword : v ∈ keywords) (isOpening : w ∈ openings)
    (notExtend : w ≠ "extend") (ne : v ≠ w) :
    Refuses (literal w) (extension isExtension (v.toList ++ ds)) := by
  cases isExtension with
  | false => exact refuses_opening (mem_openings_of_mem_keywords v isKeyword).1 isOpening ne
  | true => exact refuses_opening mem_openings_extend isOpening notExtend.symm

/-- Nor is there an extension with that keyword. -/
theorem refuses_otherExtension {next : Unit → Reader β} (isKeyword : v ∈ keywords)
    (isOpening : w ∈ openings) (ne : v ≠ w) :
    Refuses (extend >>= fun _ => literal w >>= next)
      (extension isExtension (v.toList ++ ds)) := by
  obtain ⟨isOpening', notExtend⟩ := mem_openings_of_mem_keywords v isKeyword
  cases isExtension with
  | false => exact .bind (refuses_extend isOpening' notExtend)
  | true =>
      refine .bind_right reads_extend fun _ _ => .bind (.literal ?_)
      rw [skipped_space, skipped_opening isOpening']
      exact not_isPrefix_append isOpening' (List.mem_cons_of_mem _ isOpening) ne

/-- A definition with one keyword is not taken for one with another. -/
theorem refuses_definition (isKeyword : v ∈ keywords) (isKeyword' : w ∈ keywords) (ne : v ≠ w) :
    Refuses (definition w body defined extended) (extension isExtension (v.toList ++ ds)) := by
  obtain ⟨isOpening, notExtend⟩ := mem_openings_of_mem_keywords w isKeyword'
  refine .rule ?_
  rw [skipped_extension isKeyword]
  refine .bind_right .here fun position _ => .orElse ?_ ?_
  · refine .bind_right (reads_noDescription isKeyword) fun _ _ => ?_
    exact .bind (refuses_otherKeyword isKeyword isOpening notExtend ne)
  · exact refuses_otherExtension isKeyword isOpening ne

theorem refuses_schemaDefinition (isKeyword : v ∈ keywords) :
    Refuses schemaDefinition (extension isExtension (v.toList ++ ds)) := by
  have isOpening : "schema" ∈ openings := by decide
  have ne : v ≠ "schema" := by
    rintro rfl
    exact absurd isKeyword (by decide)
  refine .rule ?_
  rw [skipped_extension isKeyword]
  refine .bind_right .here fun position _ => .orElse ?_ ?_
  · exact .bind (refuses_otherKeyword isKeyword isOpening (by decide) ne)
  · exact refuses_otherExtension isKeyword isOpening ne

end Extension

end Definition

/-! ## Contents -/

section Contents

variable {α : Type} {contents : Reader α} {fields : List FieldDefinition}

/-- Where fields are declared, or nothing is, no other contents start. -/
theorem head?_allChars_ne (follows : FollowsType tail) {c : Char} (other : isNameStart c = false)
    (noBrace : c ≠ '\x7b') :
    (skipped (FieldDefinition.allChars fields ++ tail)).head? ≠ some c := by
  cases fields with
  | nil => exact follows.head?_ne other
  | cons f fields =>
      rintro same
      cases same
      exact noBrace rfl

theorem isNamePart_head?_allChars (fields : List FieldDefinition) (follows : FollowsType tail) :
    ∀ c ∈ (FieldDefinition.allChars fields ++ tail).head?, isNamePart c = false := by
  intro c first
  cases fields with
  | nil =>
      rcases follows with rfl | ⟨word, -, rest, rfl⟩
      · cases first
      · cases first
        rfl
  | cons f fields =>
      cases first
      rfl

theorem reads_noInterfaces (follows : FollowsType tail) :
    Reads (discard (optional interfaces)) (FieldDefinition.allChars fields ++ tail) (fun _ => True)
      (FieldDefinition.allChars fields ++ tail) := by
  refine Reads.discard (.optional_none (.rule (.bind ?_)))
  cases fields with
  | nil => exact .literal (by rw [skipped_skipped]; exact follows.not_implements)
  | cons f fields => exact refuses_literal rfl (ne_of_beq_false rfl)

/-- Nothing declared reads as no contents. -/
theorem reads_noContents (follows : FollowsType tail) (refuses : Refuses contents tail) :
    Reads (anyContents contents) tail (fun x => x = ([], none)) tail :=
  .bind (reads_anyDirectives (follows.head?_ne rfl)) fun _ isNil =>
    .bind (.optional_none refuses) fun _ isNone => .pure (by rw [isNil, isNone])

/-- Directives and declarations as those of a definition, but for the places. -/
def Declares (fields : List FieldDefinition)
    (x : List Directive × Option (List FieldDefinition)) : Prop :=
  x.1 = [] ∧ (x.2.getD []).map FieldDefinition.unplaced = fields.map FieldDefinition.unplaced

/-- The fields of a type are read back, and there may be none. -/
theorem reads_anyFields (plain : ∀ f ∈ fields, f.directives = [] ∧ f.type.SingleMarks)
    (follows : FollowsType tail) :
    Reads (discard (optional interfaces) >>= fun _ => anyContents fieldDefinitions)
      (FieldDefinition.allChars fields ++ tail) (Declares fields) tail := by
  refine .bind (reads_noInterfaces follows) fun _ _ => ?_
  by_cases none : fields = []
  · subst none
    refine (reads_noContents follows (follows.refuses_contents rfl rfl)).mono ?_
    rintro _ rfl
    exact ⟨rfl, rfl⟩
  · refine .bind (reads_anyDirectives ?_) fun _ isNil => ?_
    · exact head?_allChars_ne follows rfl (by decide)
    refine .bind (.optional_some (reads_fieldDefinitions plain none)) fun all isSome => .pure ?_
    obtain ⟨fs, rfl, same⟩ := isSome
    exact ⟨isNil, same⟩

/-- The fields of an extension are read back, if there are any. -/
theorem reads_someFields (plain : ∀ f ∈ fields, f.directives = [] ∧ f.type.SingleMarks)
    (some : fields ≠ []) (follows : FollowsType tail) :
    Reads (discard (optional interfaces) >>= fun _ => someContents fieldDefinitions)
      (FieldDefinition.allChars fields ++ tail) (Declares fields) tail := by
  refine .bind (reads_noInterfaces follows) fun _ _ => ?_
  refine .orElse_left (.bind (reads_anyDirectives ?_) fun _ isNil => ?_)
  · exact head?_allChars_ne follows rfl (by decide)
  · exact .bind (reads_fieldDefinitions plain some) fun fs same => .pure ⟨isNil, same⟩

end Contents

theorem chars_append (t : TypeDefinition) (tail : List Char) :
    t.chars ++ tail = '\n' :: TypeDefinition.extension t.isExtension (t.body.keyword.toList ++
      ' ' :: (t.name.text.toList ++ (FieldDefinition.allChars t.fields ++ tail))) := by
  unfold TypeDefinition.chars TypeDefinition.extension
  cases t.isExtension with
  | false => simp
  | true => simp

theorem mem_keywords (body : TypeBody) : body.keyword ∈ keywords := by
  cases body with
  | _ => simp [TypeBody.keyword, keywords]

/-- A definition that declares no fields. -/
theorem reads_bareDefinition {α : Type} {body : Option α → TypeBody}
    {defined extended : Reader (List Directive × Option α)} {v : String} {n : Name}
    (isKeyword : v ∈ keywords) (follows : FollowsType tail)
    (contents : Reads defined tail (fun x => x = ([], none)) tail) :
    Reads (definition v body defined extended)
      (TypeDefinition.extension false (v.toList ++ ' ' :: (n.text.toList ++ tail)))
      (·.unplaced = ⟨n, (body none).unplaced, false, [], .start⟩) tail := by
  refine reads_definition isKeyword (isNamePart_head?_allChars [] follows) (contents.mono ?_)
  rintro _ rfl
  exact ⟨rfl, rfl⟩

/-- A definition is read back, but for the places in it: only the reader of its own keyword
succeeds. -/
theorem reads_typeDefinition {t : TypeDefinition} (plain : t.IsPlain) (follows : FollowsType tail) :
    Reads typeDefinition (TypeDefinition.extension t.isExtension (t.body.keyword.toList ++
      ' ' :: (t.name.text.toList ++ (FieldDefinition.allChars t.fields ++ tail))))
      (·.unplaced = t.unplaced) tail := by
  obtain ⟨n, body, isExtension, applied, position⟩ := t
  obtain ⟨undirected, fields, extended⟩ := plain
  have undirected : applied = [] := undirected
  subst undirected
  have isKeyword := mem_keywords body
  refine .rule ?_
  rw [skipped_extension isKeyword]
  cases body with
  | scalar =>
      cases isExtension with
      | true => exact absurd rfl (extended rfl)
      | false =>
          refine .orElse_left (reads_bareDefinition isKeyword follows ?_)
          refine .bind (reads_anyDirectives (follows.head?_ne rfl)) fun _ isNil => .pure ?_
          rw [isNil]
  | object fs =>
      have notScalar : (TypeBody.object fs).keyword ≠ "scalar" := by simp [TypeBody.keyword]
      refine .orElse_right (refuses_definition isKeyword (by decide) notScalar) ?_
      refine .orElse_left <|
        reads_definition (b := .object fs) isKeyword (isNamePart_head?_allChars fs follows) ?_
      cases isExtension with
      | false =>
          exact (reads_anyFields fields follows).mono fun x declares =>
            ⟨declares.1, congrArg TypeBody.object declares.2⟩
      | true =>
          exact .orElse_left <| (reads_someFields fields (extended rfl) follows).mono
            fun x declares => ⟨declares.1, congrArg TypeBody.object declares.2⟩
  | interface fs =>
      have notScalar : (TypeBody.interface fs).keyword ≠ "scalar" := by simp [TypeBody.keyword]
      have notObject : (TypeBody.interface fs).keyword ≠ "type" := by simp [TypeBody.keyword]
      refine .orElse_right (refuses_definition isKeyword (by decide) notScalar) ?_
      refine .orElse_right (refuses_definition isKeyword (by decide) notObject) ?_
      refine .orElse_left <|
        reads_definition (b := .interface fs) isKeyword (isNamePart_head?_allChars fs follows) ?_
      cases isExtension with
      | false =>
          exact (reads_anyFields fields follows).mono fun x declares =>
            ⟨declares.1, congrArg TypeBody.interface declares.2⟩
      | true =>
          exact (reads_someFields fields (extended rfl) follows).mono fun x declares =>
            ⟨declares.1, congrArg TypeBody.interface declares.2⟩
  | union =>
      cases isExtension with
      | true => exact absurd rfl (extended rfl)
      | false =>
          refine .orElse_right (refuses_definition isKeyword (by decide) (by decide)) ?_
          refine .orElse_right (refuses_definition isKeyword (by decide) (by decide)) ?_
          refine .orElse_right (refuses_definition isKeyword (by decide) (by decide)) ?_
          refine .orElse_left (reads_bareDefinition isKeyword follows ?_)
          exact reads_noContents follows (follows.refuses_contents rfl rfl)
  | enum =>
      cases isExtension with
      | true => exact absurd rfl (extended rfl)
      | false =>
          refine .orElse_right (refuses_definition isKeyword (by decide) (by decide)) ?_
          refine .orElse_right (refuses_definition isKeyword (by decide) (by decide)) ?_
          refine .orElse_right (refuses_definition isKeyword (by decide) (by decide)) ?_
          refine .orElse_right (refuses_definition isKeyword (by decide) (by decide)) ?_
          refine .orElse_left (reads_bareDefinition isKeyword follows ?_)
          exact reads_noContents follows (follows.refuses_contents rfl rfl)
  | inputObject =>
      cases isExtension with
      | true => exact absurd rfl (extended rfl)
      | false =>
          refine .orElse_right (refuses_definition isKeyword (by decide) (by decide)) ?_
          refine .orElse_right (refuses_definition isKeyword (by decide) (by decide)) ?_
          refine .orElse_right (refuses_definition isKeyword (by decide) (by decide)) ?_
          refine .orElse_right (refuses_definition isKeyword (by decide) (by decide)) ?_
          refine .orElse_right (refuses_definition isKeyword (by decide) (by decide)) ?_
          refine reads_bareDefinition isKeyword follows ?_
          exact reads_noContents follows (follows.refuses_contents rfl rfl)

/-! ## Whole texts -/

/-- Among all that may stand in a schema, a type definition is read as such. -/
theorem reads_systemDefinition {t : TypeDefinition} (plain : t.IsPlain)
    (follows : FollowsType tail) :
    Reads systemDefinition (t.chars ++ tail)
      (fun kept => kept.map TypeDefinition.unplaced = some t.unplaced) tail := by
  rw [chars_append]
  refine .rule ?_
  rw [skipped_newline, skipped_extension (mem_keywords t.body)]
  refine .orElse_right (.bind (refuses_schemaDefinition (mem_keywords t.body))) ?_
  exact .orElse_left (.bind (reads_typeDefinition plain follows) fun _ same =>
    .pure (congrArg some same))

theorem refuses_literal_nil {w : String} (isOpening : w ∈ openings) : Refuses (literal w) [] := by
  have visible : ∀ w ∈ openings, w.toList ≠ [] := by decide
  exact .literal fun start => visible w isOpening (List.prefix_nil.1 start)

theorem refuses_extend_nil : Refuses extend [] := .rule (refuses_literal_nil mem_openings_extend)

theorem reads_noDescription_nil : Reads (discard (optional string)) [] (fun _ => True) [] :=
  Reads.discard (.optional_none (refuses_string nofun))

theorem refuses_definition_nil {α : Type} {body : Option α → TypeBody}
    {defined extended : Reader (List Directive × Option α)} {w : String}
    (isKeyword : w ∈ keywords) :
    Refuses (definition w body defined extended) [] := by
  obtain ⟨isOpening, -⟩ := mem_openings_of_mem_keywords w isKeyword
  refine .rule (.bind_right .here fun position _ => .orElse ?_ (.bind refuses_extend_nil))
  exact .bind_right reads_noDescription_nil fun _ _ => .bind (refuses_literal_nil isOpening)

/-- No definition is left at the end of a text. -/
theorem refuses_systemDefinition_nil : Refuses systemDefinition [] := by
  refine .rule (.orElse (.bind (.rule ?_)) (.orElse (.bind (.rule ?_)) (.bind (.rule ?_))))
  · exact .bind_right .here fun position _ =>
      .orElse (.bind (refuses_literal_nil (by decide))) (.bind refuses_extend_nil)
  · exact .orElse (refuses_definition_nil (by decide)) <|
      .orElse (refuses_definition_nil (by decide)) <|
      .orElse (refuses_definition_nil (by decide)) <|
      .orElse (refuses_definition_nil (by decide)) <|
      .orElse (refuses_definition_nil (by decide)) (refuses_definition_nil (by decide))
  · exact .bind_right reads_noDescription_nil fun _ _ => .bind (refuses_literal_nil (by decide))

theorem reads_finish : Reads finish [] (fun _ => True) [] := by
  refine .rule fun c text => ⟨(), c, ?_, trivial, text, rfl⟩
  have ended : c.rest = [] := text
  rw [ended]
  rfl

/-- The definitions of a schema form a row that the end of the text ends. -/
theorem row_systemDefinition {types : List TypeDefinition} (plain : ∀ t ∈ types, t.IsPlain) :
    Row systemDefinition TypeDefinition.chars (fun t => some t.unplaced)
      (Option.map TypeDefinition.unplaced) FollowsType types [] where
  visible _ _ := List.cons_ne_nil _ _
  reads t mem _ follows := reads_systemDefinition (plain t mem) follows
  goes t _ tail := by
    rw [chars_append]
    cases isExtension : t.isExtension with
    | false =>
        exact .inr ⟨_, (mem_openings_of_mem_keywords _ (mem_keywords t.body)).1, _, rfl⟩
    | true => exact .inr ⟨_, mem_openings_extend, _, rfl⟩
  last := .inl rfl
  ended := refuses_systemDefinition_nil

/-- A schema is read back from its definitions, but for the places in it. -/
theorem reads_document {d : Document} (some : d.types ≠ []) (plain : ∀ t ∈ d.types, t.IsPlain) :
    Reads document (d.types.flatMap TypeDefinition.chars) (·.unplaced = d.unplaced) [] := by
  have all := (row_systemDefinition plain).reads_many1 some
  rw [List.append_nil] at all
  refine .bind all fun kept same => .bind reads_finish fun _ _ => .pure ?_
  have same := congrArg (List.filterMap id) same
  rw [List.filterMap_map, List.filterMap_map] at same
  rw [Document.unplaced, List.map_filterMap]
  refine congrArg Document.mk (same.trans ?_)
  exact congrFun (List.filterMap_eq_map (f := TypeDefinition.unplaced)) d.types

end Schema

/-- Parsing succeeds where the text is read without a fault. -/
theorem Document.parse_eq_ok {text : String} {d : Document} {e : Schema.Cursor}
    (result : (Schema.document (.start text.toList)).result = some (d, e))
    (fault : e.fault = none) : parse text = .ok d := by
  unfold parse
  dsimp only
  generalize Schema.document (.start text.toList) = attempt at result
  obtain ⟨reach, outcome⟩ := attempt
  cases result
  simp only [fault]

/-- What parses has been read from the start of the text. -/
theorem Document.exists_result_of_parse {text : String} {d : Document}
    (parsed : parse text = .ok d) :
    ∃ e, (Schema.document (.start text.toList)).result = some (d, e) := by
  unfold parse at parsed
  dsimp only at parsed
  generalize Schema.document (.start text.toList) = attempt at parsed
  obtain ⟨reach, _ | ⟨read, e⟩⟩ := attempt
  · cases parsed
  · dsimp only at parsed
    split at parsed
    · cases parsed
    · cases parsed
      exact ⟨e, rfl⟩

/-- The text of a schema without directives reads as the schema, up to the places. -/
theorem Document.parse_text {d : Document} (some : d.types ≠ [])
    (plain : ∀ t ∈ d.types, t.IsPlain) :
    ∃ read, parse d.text = .ok read ∧ read.unplaced = d.unplaced := by
  have text : (Schema.Cursor.start d.text.toList).rest = d.types.flatMap TypeDefinition.chars := by
    rw [Schema.Cursor.start, text, String.toList_ofList]
  obtain ⟨read, e, result, same, -, fault⟩ := Schema.reads_document some plain _ text
  exact ⟨read, parse_eq_ok result fault, same⟩

end SchemaHealth
