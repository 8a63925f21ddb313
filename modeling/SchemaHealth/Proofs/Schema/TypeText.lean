import SchemaHealth.Schema.TypeRef

/-!
# The text of a declared type

A declared type is taken off a text exactly if the text starts with what `TypeRef.print` makes of
it, and goes on with something else (`TypeRef.read?_eq_some_iff`). The types that can be declared
are those with single marks: a mark tells only once that a part may not be null
(`TypeRef.singleMarks_ofParsed`), and each of these types is declared by some text
(`TypeRef.exists_ofParsed_eq`).
-/

namespace SchemaHealth

variable {cs rest : List Char}

/-! ## Names -/

namespace Name

/-- A name is read back from a text in which it ends. -/
theorem read?_append (n : Name) (ends : ∀ c ∈ rest.head?, isNamePart c = false) :
    read? (n.text.toList ++ rest) = some (n, rest) := by
  have wellFormed := n.wellFormed
  cases chars : n.text.toList with
  | nil => exact absurd chars n.toList_ne_nil
  | cons c parts =>
      rw [chars, isName, Bool.and_eq_true] at wellFormed
      obtain ⟨start, isParts⟩ := wellFormed
      have isParts := List.all_eq_true.1 isParts
      have none : rest.takeWhile isNamePart = [] ∧ rest.dropWhile isNamePart = rest := by
        cases rest with
        | nil => exact ⟨rfl, rfl⟩
        | cons d rest => simp [ends d rfl]
      have text : n.text = String.ofList (c :: parts) := by rw [← chars, String.ofList_toList]
      rw [List.cons_append, read?, dif_pos start]
      simp only [List.takeWhile_append_of_pos isParts, List.dropWhile_append_of_pos isParts, none,
        List.append_nil]
      exact congrArg (fun name => some (name, rest)) (Name.ext text.symm)

/-- A name that is read is the longest one at the start of the text. -/
theorem eq_append_of_read? {n : Name} (read : read? cs = some (n, rest)) :
    cs = n.text.toList ++ rest ∧ ∀ c ∈ rest.head?, isNamePart c = false := by
  cases cs with
  | nil => cases read
  | cons c cs =>
      rw [read?] at read
      split at read
      · cases read
        refine ⟨?_, fun d first => ?_⟩
        · simp [ofChars]
        · have := List.head?_dropWhile_not isNamePart cs
          rw [first] at this
          exact this
      · cases read

end Name

/-! ## Marks -/

/-- A mark that is read stands there, and none is overlooked. -/
theorem ParsedType.readMark_eq {nullable : Bool} (isMark : readMark cs = (nullable, rest)) :
    cs = (if nullable then [] else ['!']) ++ rest ∧
      (nullable = true → ∀ c ∈ rest.head?, c ≠ '!') := by
  unfold readMark at isMark
  split at isMark
  · cases isMark
    exact ⟨rfl, nofun⟩
  next unmarked =>
    cases isMark
    refine ⟨rfl, fun _ c first same => ?_⟩
    obtain ⟨others, rfl⟩ := List.head?_eq_some_iff.1 first
    exact unmarked others (same ▸ rfl)

theorem ParsedType.readMark_append {nullable : Bool}
    (ends : nullable = true → ∀ c ∈ rest.head?, c ≠ '!') :
    readMark ((if nullable then [] else ['!']) ++ rest) = (nullable, rest) := by
  cases nullable with
  | false => rfl
  | true =>
      unfold readMark
      split
      next others same =>
        have same : rest = '!' :: others := same
        exact absurd rfl (ends rfl '!' (same ▸ rfl))
      · rfl

namespace TypeRef

variable {t : TypeRef} {nullable : Bool}

theorem printChars_withNull :
    (withNull nullable t).printChars = t.printChars ++ if nullable then [] else ['!'] := by
  cases nullable with
  | false => rfl
  | true => exact (List.append_nil _).symm

/-- The text after a declared type does not go on with it: no name becomes longer, and what may be
null so far stays so. -/
def EndsBefore (rest : List Char) : TypeRef → Prop
  | named _ => ∀ c ∈ rest.head?, isNamePart c = false ∧ c ≠ '!'
  | list _ => ∀ c ∈ rest.head?, c ≠ '!'
  | nonNull _ => True

/-- With a mark a type ends before any text, without one where the type itself does. -/
theorem endsBefore_withNull :
    (withNull nullable t).EndsBefore rest ↔ (nullable = true → t.EndsBefore rest) := by
  cases nullable with
  | false => exact ⟨fun _ => nofun, fun _ => trivial⟩
  | true => exact ⟨fun ends _ => ends, fun ends => ends rfl⟩

theorem endsBefore_bracket (t : TypeRef) : t.EndsBefore (']' :: rest) := by
  have first : ∀ c ∈ (']' :: rest).head?, isNamePart c = false ∧ c ≠ '!' := fun c first => by
    cases first
    decide
  cases t with
  | named name => exact first
  | list item => exact fun c mem => (first c mem).2
  | nonNull inner => trivial

/-! ## Types in wrappers -/

/-- A type that has no mark of its own is told from the others. -/
theorem singleMarks_withNull (single : t.SingleMarks) (unmarked : t.isNonNull = false) :
    (withNull nullable t).SingleMarks := by
  cases nullable with
  | false => exact ⟨unmarked, single⟩
  | true => exact single

/-- No type that is read off a text has two marks in a row. -/
theorem singleMarks_ofParsed (parsed : ParsedType) : (ofParsed parsed).SingleMarks := by
  induction parsed with
  | named name nullable => exact singleMarks_withNull trivial rfl
  | list item nullable ih => exact singleMarks_withNull ih rfl

/-- Every type with single marks has a parsed form. -/
theorem exists_ofParsed_eq (single : t.SingleMarks) : ∃ parsed, ofParsed parsed = t := by
  induction t with
  | named name => exact ⟨.named name true, rfl⟩
  | list item ih =>
      obtain ⟨parsed, rfl⟩ := ih single
      exact ⟨.list parsed true, rfl⟩
  | nonNull inner ih =>
      obtain ⟨unmarked, single⟩ := single
      obtain ⟨parsed, rfl⟩ := ih single
      -- Without a mark of its own the type inside may be null, and a mark makes it what is asked.
      cases parsed with
      | named name nullable =>
          cases nullable with
          | false => cases unmarked
          | true => exact ⟨.named name false, rfl⟩
      | list item nullable =>
          cases nullable with
          | false => cases unmarked
          | true => exact ⟨.list item false, rfl⟩

end TypeRef

/-! ## Reading and writing -/

namespace ParsedType

open TypeRef (ofParsed)

theorem eq_append_of_read? {parsed : ParsedType} (read : read? cs = some (parsed, rest)) :
    cs = (ofParsed parsed).printChars ++ rest ∧ (ofParsed parsed).EndsBefore rest := by
  fun_induction read? cs generalizing parsed rest with
  | case1 cs item others isItem ih =>
      obtain ⟨text, -⟩ := ih isItem
      rcases marked : readMark others with ⟨nullable, after⟩
      rw [marked] at read
      cases read
      obtain ⟨rfl, ends⟩ := readMark_eq marked
      rw [ofParsed, TypeRef.endsBefore_withNull, TypeRef.printChars_withNull, TypeRef.printChars]
      exact ⟨by simp [text], ends⟩
  | case2 => cases read
  | case3 cs unlisted =>
      obtain ⟨⟨name, others⟩, isName, made⟩ := Option.map_eq_some_iff.1 read
      obtain ⟨text, ended⟩ := Name.eq_append_of_read? isName
      rcases marked : readMark others with ⟨nullable, after⟩
      simp only [marked] at made
      cases made
      obtain ⟨rfl, ends⟩ := readMark_eq marked
      rw [ofParsed, TypeRef.endsBefore_withNull, TypeRef.printChars_withNull, TypeRef.printChars]
      refine ⟨by simp [text], ?_⟩
      rintro rfl c first
      exact ⟨ended c first, ends rfl c first⟩

theorem read?_append (parsed : ParsedType) (ends : (ofParsed parsed).EndsBefore rest) :
    read? ((ofParsed parsed).printChars ++ rest) = some (parsed, rest) := by
  induction parsed generalizing rest with
  | named name nullable =>
      rw [ofParsed, TypeRef.endsBefore_withNull] at ends
      have marked := readMark_append fun isNullable c first => (ends isNullable c first).2
      have ended : ∀ c ∈ ((if nullable then [] else ['!']) ++ rest).head?,
          isNamePart c = false := by
        cases nullable with
        | false => exact fun c first => Option.some.inj first ▸ rfl
        | true => exact fun c first => (ends rfl c first).1
      have isName := name.read?_append ended
      rw [ofParsed, TypeRef.printChars_withNull, List.append_assoc, TypeRef.printChars]
      unfold read?
      split
      · next cs listed =>
          rw [listed] at isName
          cases isName
      · rw [isName, Option.map_some]
        simp only [marked]
  | list item nullable ih =>
      rw [ofParsed, TypeRef.endsBefore_withNull] at ends
      have marked := readMark_append ends
      have ended : (ofParsed item).EndsBefore (']' :: ((if nullable then [] else ['!']) ++ rest)) :=
        TypeRef.endsBefore_bracket _
      have isItem := ih ended
      have text : (ofParsed (list item nullable)).printChars ++ rest = '[' ::
          ((ofParsed item).printChars ++ ']' :: ((if nullable then [] else ['!']) ++ rest)) := by
        rw [ofParsed, TypeRef.printChars_withNull, TypeRef.printChars]
        simp
      rw [text, read?, isItem]
      simp only [marked]

end ParsedType

/-- A type is read just when it stands at the start of the text, as printed, and ends there. -/
theorem TypeRef.read?_eq_some_iff {t : TypeRef} :
    read? cs = some (t, rest) ↔ t.SingleMarks ∧ cs = t.printChars ++ rest ∧ t.EndsBefore rest := by
  constructor
  · intro read
    obtain ⟨⟨parsed, others⟩, isParsed, made⟩ := Option.map_eq_some_iff.1 read
    cases made
    exact ⟨singleMarks_ofParsed parsed, ParsedType.eq_append_of_read? isParsed⟩
  · rintro ⟨single, rfl, ends⟩
    obtain ⟨parsed, rfl⟩ := exists_ofParsed_eq single
    rw [read?, ParsedType.read?_append parsed ends]
    rfl

end SchemaHealth
