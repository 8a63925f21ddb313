import SchemaHealth.Text.Blank
import SchemaHealth.Text.Case

/-!
# Spellings of rule names

Settings may spell the name of a rule as it is displayed, run together, with underscores or with
dashes. `ruleKey` brings all spellings into one: lower-case words with dashes between them, without
a closing `-rule`.
-/

namespace SchemaHealth

/-- The key of the rest of a name. A dash goes before an upper-case letter that starts a word: one
after a lower-case letter, or the last of several upper-case letters before a lower-case one.
Blanks and underscores become a dash, unless the key so far ends in one. -/
def keyFrom (before : Option Char) (dashed : Bool) : List Char → List Char
  | [] => []
  | c :: cs =>
    if Text.isUppercase c then
      let startsWord := before.any Text.isLowercase
        || before.any Text.isUppercase && cs.head?.any Text.isLowercase
      (if startsWord then ['-'] else []) ++ Text.lowered c ++ keyFrom (some c) false cs
    else if c = '_' || Text.isBlank c then
      if dashed then keyFrom (some c) true cs else '-' :: keyFrom (some c) true cs
    else c :: keyFrom (some c) (c = '-') cs

/-- A reversed key without any `-rule` at its end. -/
def dropRuleEndings : List Char → List Char
  | 'e' :: 'l' :: 'u' :: 'r' :: '-' :: cs => dropRuleEndings cs
  | cs => cs

/-- The key that all spellings of a rule name share. -/
def ruleKey (name : String) : String :=
  String.ofList (dropRuleEndings (keyFrom none false (Text.trim name.toList)).reverse).reverse

end SchemaHealth
