import SchemaHealth.Text.Case
import SchemaHealth.Text.Word

/-!
# English plurals

A word is plural when forming its plural leaves it as it is. Words that have no plural of their own
count as plural, and irregular words are looked up; all others follow the first ending rule that
fits.

An ending rule says what a word has to end in before a dropped ending, which endings are dropped,
and what is put in their place.
-/

namespace SchemaHealth

/-- A letter that a context asks for. -/
inductive Letter where
  | among (letters : List Char)
  | notAmong (letters : List Char)
  | beyondAscii
deriving DecidableEq, Repr

/-- Whether a letter is the one asked for. -/
def Letter.accepts (c : Char) : Letter → Bool
  | among letters => c ∈ letters
  | notAmong letters => c ∉ letters
  | beyondAscii => 0x80 ≤ c.toNat

/-- The letters that a stem has to end in. -/
abbrev Context := List Letter

/-- Where in a word a context may stand. -/
inductive Place where
  | anywhere
  | startOfPart
  | startOfWord
deriving DecidableEq, Repr

/-- Whether a context may stand after some letters, which come in reverse order. -/
def Place.allows (before : List Char) : Place → Bool
  | anywhere => true
  | startOfPart => before.head?.all fun c => !Text.isWordChar c
  | startOfWord => before.isEmpty

/-- What stands before a context, both in reverse order. -/
def beforeContext? : List Letter → List Char → Option (List Char)
  | [], cs => some cs
  | _ :: _, [] => none
  | letter :: letters, c :: cs => if letter.accepts c then beforeContext? letters cs else none

/-- A rule for the plural of words with certain endings. -/
structure EndingRule where
  place : Place
  contexts : List Context
  /-- The endings that are dropped, a longer one before any that it ends in. -/
  dropped : List String
  added : String
deriving Repr

namespace EndingRule

/-- The stem of a word without an ending. -/
def stem? (word ending : List Char) : Option (List Char) :=
  (ending.reverse.isPrefixOf? word.reverse).map List.reverse

/-- Whether the rule has a context that a stem ends in. -/
def fits (rule : EndingRule) (stem : List Char) : Bool :=
  rule.contexts.any fun context =>
    (beforeContext? context.reverse stem.reverse).any fun before => rule.place.allows before

/-- The plural of a word by the rule, if it fits. -/
def inflected? (rule : EndingRule) (word : List Char) : Option (List Char) :=
  rule.dropped.findSome? fun ending =>
    match stem? word ending.toList with
    | some stem => if rule.fits stem then some (stem ++ rule.added.toList) else none
    | none => none

end EndingRule

/-! ## The rules -/

/-- The context of certain letters in order. -/
def spelled (text : String) : Context := text.toList.map fun c => .among [c]

/-- Endings are dropped and another one added after one of the given stems. -/
def after (stems dropped : List String) (added : String) : EndingRule :=
  ⟨.anywhere, stems.map spelled, dropped, added⟩

/-- A word that ends in one of the given ways stays as it is. -/
def unchanged (contexts : List Context) : EndingRule := ⟨.anywhere, contexts, [""], ""⟩

/-- Any letter but the vowels. -/
def noVowel : Letter := .notAmong ['a', 'e', 'i', 'o', 'u']

/-- The vowels. -/
def vowel : Letter := .among ['a', 'e', 'i', 'o', 'u']

/-- The ending rules; of several that fit the first one counts. -/
def endingRules : List EndingRule :=
  [unchanged [spelled "sheep"],
    unchanged [spelled "pox"],
    unchanged [spelled "ois", spelled "ous"],
    unchanged [spelled "measles"],
    unchanged [spelled "fish"],
    unchanged [spelled "deer"],
    unchanged [noVowel :: spelled "ese"],
    ⟨.startOfWord, [[]], ["thou"], "you"⟩,
    after ["m"] ["an", "en"] "en",
    unchanged [spelled "eaux"],
    after ["child"] ["ren", ""] "ren",
    after ["pe"] ["rson", "ople"] "ople",
    ⟨.startOfPart, [spelled "titm", spelled "m", spelled "l"], ["ice", "ouse"], "ice"⟩,
    after ["matr", "cod", "mur", "sil", "vert", "ind", "append"] ["ix", "ex"] "ices",
    after ["x", "ch", "ss", "sh", "zz"] [""] "es",
    ⟨.anywhere,
      [[.notAmong ['c', 'h'], .among ['i', 'e', 'o'], .among ['l', 'n']]], ["ey"], "ies"⟩,
    ⟨.anywhere, [[.notAmong ['a', 'e', 'i', 'o', 'u', 'y']], spelled "qu"], ["y"], "ies"⟩,
    after ["kni", "wi", "li"] ["fe"] "ves",
    after ["ar", "l", "ea", "eo", "oa", "hoo"] ["f"] "ves",
    after ["s"] ["is"] "es",
    after ["apheli", "hyperbat", "periheli", "asyndet", "noumen", "phenomen", "criteri", "organ",
      "prolegomen", "hedr", "automat"] ["on", "a"] "a",
    after ["agend", "addend", "millenni", "dat", "extrem", "bacteri", "desiderat", "strat",
      "candelabr", "errat", "ov", "symposi", "curricul", "quor"] ["um", "a"] "a",
    after ["her", "at", "gr"] ["o"] "oes",
    after ["seraph", "cherub"] ["im", ""] "im",
    after ["alumn", "alg", "vertebr"] ["ae", "a"] "ae",
    after ["alumn", "syllab", "vir", "radi", "nucle", "fung", "cact", "stimul", "termin",
      "bacill", "foc", "uter", "loc", "strat"] ["us", "i"] "i",
    unchanged [.notAmong ['l'] :: spelled "ias", vowel :: spelled "las",
      .among ['e', 'j', 'z', 'r'] :: spelled "as", .among ['i', 'u'] :: spelled "am"],
    ⟨.anywhere, [[.among ['e'], .among ['m', 'n'], .among ['u']]], ["s", ""], "s"⟩,
    ⟨.anywhere,
      [spelled "alias", .notAmong ['a', 'o', 'u'] :: spelled "us",
        .among ['t'] :: .among ['l', 'm'] :: spelled "as", spelled "gas", spelled "ris"],
      [""], "es"⟩,
    after ["ax", "test"] ["is"] "es",
    unchanged [[.beyondAscii]],
    ⟨.anywhere, [[]], ["s", ""], "s"⟩]

/-- The plural of a word by the ending rules alone. -/
def inflect (word : List Char) : List Char :=
  (endingRules.findSome? fun rule => rule.inflected? word).getD word

/-! ## Words outside the rules -/

/-- Words without a plural of their own. -/
def uncountableWords : List String :=
  ["advice", "aircraft", "analytics", "athletics", "audio", "cash", "chassis", "clothing",
    "commerce", "corps", "data", "debris", "equipment", "feedback", "firmware", "hardware",
    "headquarters", "health", "homework", "information", "inventory", "jeans", "knowledge",
    "luggage", "mail", "media", "metadata", "money", "moose", "music", "news", "personnel",
    "police", "research", "rice", "salmon", "scissors", "series", "sheep", "software", "sms",
    "species", "staff", "traffic", "weather", "wildlife"]

/-- Irregular words with their plurals. -/
def irregularPlurals : List (String × String) :=
  [("person", "people"), ("man", "men"), ("child", "children"), ("ox", "oxen"), ("foot", "feet"),
    ("tooth", "teeth"), ("goose", "geese"), ("die", "dice"), ("axe", "axes"), ("quiz", "quizzes"),
    ("echo", "echoes"), ("hero", "heroes"), ("potato", "potatoes"), ("tomato", "tomatoes"),
    ("schema", "schemata"), ("genus", "genera"), ("thief", "thieves"), ("proof", "proofs"),
    ("canvas", "canvases"), ("passerby", "passersby"), ("pickaxe", "pickaxes"),
    ("stigma", "stigmata"), ("dogma", "dogmata"), ("valve", "valves"), ("groove", "grooves"),
    ("human", "humans"), ("this", "these"), ("that", "those")]

/-- Whether a word reads as a plural, whatever its case. -/
def isPlural (text : String) : Bool :=
  let word := Text.lowercase text.toList
  let token := String.ofList word
  if word.isEmpty || token ∈ uncountableWords then true
  else if irregularPlurals.any fun pair => pair.2 = token then true
  else if irregularPlurals.any fun pair => pair.1 = token then false
  else inflect word = word

end SchemaHealth
