/-!
# Phrases in texts

Where one text occurs in another, as lists of characters.
-/

namespace SchemaHealth.Text

/-- The rest of a text after the first place at which a phrase occurs in it. -/
def after? (phrase : List Char) : List Char → Option (List Char)
  | [] => phrase.isPrefixOf? []
  | c :: cs => phrase.isPrefixOf? (c :: cs) <|> after? phrase cs

/-- Whether a phrase occurs in a text. -/
def occurs (phrase cs : List Char) : Bool := (after? phrase cs).isSome

/-- A text split at the first occurrence of a character, which belongs to neither part. -/
def splitAtFirst (c : Char) (cs : List Char) : List Char × Option (List Char) :=
  (cs.takeWhile (· ≠ c), (cs.dropWhile (· ≠ c)).tail?)

theorem splitAtFirst_append {c : Char} {before : List Char} (free : c ∉ before)
    (rest : List Char) : splitAtFirst c (before ++ c :: rest) = (before, some rest) := by
  induction before with
  | nil => simp [splitAtFirst]
  | cons d before ih =>
    have different : d ≠ c := fun same => free (by simp [same])
    have := ih fun mem => free (List.mem_cons_of_mem _ mem)
    simp_all [splitAtFirst]

theorem splitAtFirst_of_not_mem {c : Char} {cs : List Char} (free : c ∉ cs) :
    splitAtFirst c cs = (cs, none) := by
  induction cs with
  | nil => rfl
  | cons d cs ih =>
    have different : d ≠ c := fun same => free (by simp [same])
    have := ih fun mem => free (List.mem_cons_of_mem _ mem)
    simp_all [splitAtFirst]

end SchemaHealth.Text
