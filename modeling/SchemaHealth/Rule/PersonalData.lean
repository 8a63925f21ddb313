import SchemaHealth.Text.Phrase

/-!
# Names that hint at personal data

A name hints at personal data when it contains one of certain words, or two words in order on one
line. Case does not matter; the long `ſ` counts as an `s` and the Kelvin sign as a `k`.
-/

namespace SchemaHealth

/-- A hint at personal data. -/
inductive Clue where
  | word (text : String)
  | pair (first second : String)
deriving DecidableEq, Repr

/-- A character as the clues see it. -/
def foldCase (c : Char) : Char :=
  if c = '\u017F' then 's' else if c = '\u212A' then 'k' else c.toLower

/-- Whether two phrases occur one after the other on one line. -/
def occursThen (first second : List Char) : List Char → Bool
  | [] => false
  | c :: cs =>
    (first.isPrefixOf? (c :: cs)).any (fun rest => Text.occurs second (rest.takeWhile (· ≠ '\n')))
      || occursThen first second cs

/-- Whether a clue is found in a text without upper-case letters. -/
def Clue.foundIn (cs : List Char) : Clue → Bool
  | word text => Text.occurs text.toList cs
  | pair first second => occursThen first.toList second.toList cs

/-- What hints at personal data. -/
def personalDataClues : List Clue :=
  [.word "email", .word "phone", .word "address", .word "street", .word "ssn",
    .pair "social" "security", .word "passport", .word "license", .word "birthday", .word "dob",
    .pair "birth" "date", .word "name", .word "zip", .word "postal", .pair "credit" "card",
    .pair "card" "number", .pair "tax" "id", .word "nationality", .word "citizenship"]

/-- Whether a name hints at personal data. -/
def hintsAtPersonalData (name : String) : Bool :=
  personalDataClues.any (Clue.foundIn (name.toList.map foldCase))

end SchemaHealth
