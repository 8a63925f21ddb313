/-!
# Laying out texts

Texts joined with a separator, and texts filled up to a width with blanks. A text that is wider
than its place stays whole. Widths count characters.
-/

namespace SchemaHealth.Text

/-- The texts with a separator between any two of them. -/
def joined (separator : String) : List String → String
  | [] => ""
  | [text] => text
  | text :: rest => text ++ separator ++ joined separator rest

/-- Blanks that fill a text up to a width. -/
def fill (width : Nat) (text : String) : String :=
  String.ofList (List.replicate (width - text.length) ' ')

/-- A text at the left of its place. -/
def padRight (width : Nat) (text : String) : String := text ++ fill width text

/-- A text at the right of its place. -/
def padLeft (width : Nat) (text : String) : String := fill width text ++ text

/-- The given number of copies of a character. -/
def repeated (width : Nat) (c : Char) : String := String.ofList (List.replicate width c)

theorem joined_cons_cons (separator a b : String) (rest : List String) :
    joined separator (a :: b :: rest) = a ++ separator ++ joined separator (b :: rest) := rfl

theorem length_padRight (width : Nat) (text : String) :
    (padRight width text).length = max width text.length := by
  simp [padRight, fill, String.length_append, String.length_ofList]
  omega

theorem length_padLeft (width : Nat) (text : String) :
    (padLeft width text).length = max width text.length := by
  simp [padLeft, fill, String.length_append, String.length_ofList]
  omega

end SchemaHealth.Text
