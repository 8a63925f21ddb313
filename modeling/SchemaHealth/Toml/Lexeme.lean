import SchemaHealth.Text.Escape

/-!
# Blanks, strings and keys of TOML

Each reader takes one lexeme off a text and gives back the rest. Strings are quoted with escapes or
literal, each on one line or between triple quotes. A string between triple quotes loses a line
break right at its start, may hold up to two quotes in a row, also before the closing ones, and
writes every line break as a line feed.
-/

namespace SchemaHealth.Toml

/-! ## Blanks and comments -/

/-- Whether a character separates the parts of a line. -/
def isBlank (c : Char) : Bool := c == ' ' || c == '\t'

/-- Whether a character may stand in comments and strings: no control character but the tab. -/
def isPlain (c : Char) : Bool := c == '\t' || (0x20 ≤ c.toNat && c.toNat ≠ 0x7F)

/-- A text without the blanks that it starts with. -/
def skipBlanks (cs : List Char) : List Char := cs.dropWhile isBlank

/-- The rest after a line break; the end of the text is one too. -/
def readLineEnd? : List Char → Option (List Char)
  | [] => some []
  | '\n' :: rest => some rest
  | '\r' :: '\n' :: rest => some rest
  | _ => none

/-- The rest after the end of a line, with blanks and a comment before it. -/
def readLineRest? (cs : List Char) : Option (List Char) :=
  match skipBlanks cs with
  | '#' :: rest => readLineEnd? (rest.dropWhile isPlain)
  | rest => readLineEnd? rest

/-- A text without the blanks, line breaks and comments that it starts with; a comment may have
begun before it. -/
def skipLines (inComment : Bool) : List Char → List Char
  | [] => []
  | '\r' :: '\n' :: cs => skipLines false cs
  | c :: cs =>
    if c = '\n' then skipLines false cs
    else if inComment then if isPlain c then skipLines true cs else c :: cs
    else if isBlank c then skipLines false cs
    else if c = '#' then skipLines true cs
    else c :: cs

/-! ## Strings -/

/-- The character of a letter escape. The slash has none. -/
def letterEscape? (c : Char) : Option Char := if c = '/' then none else Text.letterEscape? c

/-- A character put in front of what is read after it. -/
def consRead (c : Char) : Option (List Char × List Char) → Option (List Char × List Char) :=
  Option.map fun (cs, rest) => (c :: cs, rest)

/-- A quoted string on one line, after its opening quote. -/
def readQuoted? : List Char → Option (List Char × List Char)
  | [] => none
  | '"' :: rest => some ([], rest)
  | '\\' :: 'u' :: a :: b :: c :: d :: rest => do
    consRead (← Text.scalar? (← Text.hexValue4? a b c d)) (readQuoted? rest)
  | '\\' :: 'U' :: a :: b :: c :: d :: e :: f :: g :: h :: rest => do
    let high ← Text.hexValue4? a b c d
    let low ← Text.hexValue4? e f g h
    consRead (← Text.scalar? (high * 0x10000 + low)) (readQuoted? rest)
  | '\\' :: e :: rest => do consRead (← letterEscape? e) (readQuoted? rest)
  | c :: rest => if isPlain c && c != '\\' then consRead c (readQuoted? rest) else none

/-- A literal string on one line, after its opening quote. -/
def readLiteral? : List Char → Option (List Char × List Char)
  | [] => none
  | '\'' :: rest => some ([], rest)
  | c :: rest => if isPlain c then consRead c (readLiteral? rest) else none

/-- Whether there is nothing but blanks before the next line break. -/
def lineEnds (cs : List Char) : Bool :=
  match skipBlanks cs with
  | '\n' :: _ | '\r' :: '\n' :: _ => true
  | _ => false

/-- A quoted string between triple quotes, after the opening ones. A backslash at the end of a line
takes away all blanks and line breaks up to the next other character; `skipping` says that these are
being taken away. -/
def readQuotedLines? (skipping : Bool) : List Char → Option (List Char × List Char)
  | [] => none
  | '"' :: '"' :: '"' :: '"' :: '"' :: rest => some (['"', '"'], rest)
  | '"' :: '"' :: '"' :: '"' :: rest => some (['"'], rest)
  | '"' :: '"' :: '"' :: rest => some ([], rest)
  | '\\' :: 'u' :: a :: b :: c :: d :: rest => do
    consRead (← Text.scalar? (← Text.hexValue4? a b c d)) (readQuotedLines? false rest)
  | '\\' :: 'U' :: a :: b :: c :: d :: e :: f :: g :: h :: rest => do
    let high ← Text.hexValue4? a b c d
    let low ← Text.hexValue4? e f g h
    consRead (← Text.scalar? (high * 0x10000 + low)) (readQuotedLines? false rest)
  | '\\' :: e :: rest =>
    if lineEnds (e :: rest) then readQuotedLines? true (e :: rest)
    else do consRead (← letterEscape? e) (readQuotedLines? false rest)
  | '\r' :: '\n' :: rest =>
    if skipping then readQuotedLines? true rest else consRead '\n' (readQuotedLines? false rest)
  | c :: rest =>
    if skipping && (c == '\n' || isBlank c) then readQuotedLines? true rest
    else if c == '\n' || isPlain c && c != '\\' then consRead c (readQuotedLines? false rest)
    else none

/-- A literal string between triple quotes, after the opening ones. -/
def readLiteralLines? : List Char → Option (List Char × List Char)
  | [] => none
  | '\'' :: '\'' :: '\'' :: '\'' :: '\'' :: rest => some (['\'', '\''], rest)
  | '\'' :: '\'' :: '\'' :: '\'' :: rest => some (['\''], rest)
  | '\'' :: '\'' :: '\'' :: rest => some ([], rest)
  | '\r' :: '\n' :: rest => consRead '\n' (readLiteralLines? rest)
  | c :: rest => if c == '\n' || isPlain c then consRead c (readLiteralLines? rest) else none

/-- A text without a line break right at its start. -/
def dropLineBreak : List Char → List Char
  | '\n' :: rest => rest
  | '\r' :: '\n' :: rest => rest
  | cs => cs

/-- A string of any kind. -/
def readString? : List Char → Option (String × List Char)
  | '"' :: '"' :: '"' :: rest =>
    (readQuotedLines? false (dropLineBreak rest)).map fun (cs, rest) => (String.ofList cs, rest)
  | '"' :: rest => (readQuoted? rest).map fun (cs, rest) => (String.ofList cs, rest)
  | '\'' :: '\'' :: '\'' :: rest =>
    (readLiteralLines? (dropLineBreak rest)).map fun (cs, rest) => (String.ofList cs, rest)
  | '\'' :: rest => (readLiteral? rest).map fun (cs, rest) => (String.ofList cs, rest)
  | _ => none

/-! ## Keys -/

/-- Whether a character may stand in a bare key. -/
def isBareKeyPart (c : Char) : Bool := c.isAlphanum || c == '-' || c == '_'

/-- One part of a key: a string on one line, or a bare word. -/
def readKeyPart? : List Char → Option (String × List Char)
  | '"' :: rest => (readQuoted? rest).map fun (cs, rest) => (String.ofList cs, rest)
  | '\'' :: rest => (readLiteral? rest).map fun (cs, rest) => (String.ofList cs, rest)
  | cs =>
    match cs.takeWhile isBareKeyPart with
    | [] => none
    | word => some (String.ofList word, cs.dropWhile isBareKeyPart)

/-- A key of at most `n` parts, with blanks around each. -/
def readKeyParts? : Nat → List Char → Option (List String × List Char)
  | 0, _ => none
  | n + 1, cs => do
    let (part, rest) ← readKeyPart? (skipBlanks cs)
    match skipBlanks rest with
    | '.' :: rest =>
      let (parts, rest) ← readKeyParts? n rest
      return (part :: parts, rest)
    | rest => return ([part], rest)

/-- Keys have fewer parts than this, and arrays and inline tables are nested less deep. -/
def nestingLimit : Nat := 80

/-- A key, as the path to its table and the last part. -/
def readKey? (cs : List Char) : Option ((List String × String) × List Char) := do
  let (parts, rest) ← readKeyParts? (nestingLimit - 1) cs
  return ((parts.dropLast, parts.getLastD ""), rest)

end SchemaHealth.Toml
