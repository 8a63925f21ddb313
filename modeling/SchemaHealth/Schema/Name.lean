/-!
# Names

The names of the schema language: an ASCII letter or underscore, followed by ASCII letters, digits
and underscores. A `Name` carries the proof that its text is one, so no name contains a point or a
comma. `Name.read?` takes the longest name off a text.
-/

namespace SchemaHealth

/-- Whether a name may start with a character. -/
def isNameStart (c : Char) : Bool := c.isAlpha || c == '_'

/-- Whether a name may go on with a character. -/
def isNamePart (c : Char) : Bool := c.isAlphanum || c == '_'

/-- Whether some characters are a name. -/
def isName : List Char → Bool
  | [] => false
  | c :: cs => isNameStart c && cs.all isNamePart

/-- A name of the schema language. -/
structure Name where
  text : String
  wellFormed : isName text.toList = true
deriving DecidableEq

namespace Name

instance : Repr Name := ⟨fun n _ => repr n.text⟩

@[ext] theorem ext {m n : Name} (same : m.text = n.text) : m = n := by
  cases m; cases n; cases same; rfl

/-- The name made of a first character and further ones. -/
def ofChars (c : Char) (cs : List Char) (start : isNameStart c = true)
    (parts : cs.all isNamePart = true) : Name :=
  ⟨String.ofList (c :: cs), by simp [isName, start, parts]⟩

/-- The longest name that a text starts with, and the rest of the text. -/
def read? : List Char → Option (Name × List Char)
  | [] => none
  | c :: cs =>
    if start : isNameStart c then
      some (ofChars c (cs.takeWhile isNamePart) start List.all_takeWhile, cs.dropWhile isNamePart)
    else none

theorem isNamePart_of_isNameStart {c : Char} (start : isNameStart c) : isNamePart c := by
  simp only [isNameStart, isNamePart, Char.isAlphanum, Bool.or_eq_true] at start ⊢
  exact start.imp_left .inl

/-- Every character of a name is a name character. -/
theorem isNamePart_of_mem (n : Name) {c : Char} (mem : c ∈ n.text.toList) : isNamePart c := by
  have wellFormed := n.wellFormed
  cases chars : n.text.toList with
  | nil => simp [chars] at mem
  | cons d ds =>
    rw [chars] at mem wellFormed
    simp only [isName, Bool.and_eq_true, List.all_eq_true] at wellFormed
    rcases List.mem_cons.1 mem with rfl | later
    · exact isNamePart_of_isNameStart wellFormed.1
    · exact wellFormed.2 c later

theorem toList_ne_nil (n : Name) : n.text.toList ≠ [] := fun empty => by
  have wellFormed := n.wellFormed
  simp [empty, isName] at wellFormed

/-- No name contains a point. -/
theorem point_not_mem (n : Name) : '.' ∉ n.text.toList := fun mem => by
  have := n.isNamePart_of_mem mem
  revert this
  decide

/-- No name contains a comma. -/
theorem comma_not_mem (n : Name) : ',' ∉ n.text.toList := fun mem => by
  have := n.isNamePart_of_mem mem
  revert this
  decide

end Name

end SchemaHealth
