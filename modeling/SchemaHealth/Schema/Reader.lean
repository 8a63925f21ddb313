import SchemaHealth.Schema.Document

/-!
# Readers of schema texts

A `Reader` goes over a schema text from a `Cursor`. Readers are tried in order and the first that
succeeds decides: what follows never sends it back to another choice.

Between any two parts of a text may stand blanks, commas and comments. Every rule skips them before
it starts. A reader that fails reports its *reach*: the furthest offset at which one of its rules
was tried in vain. The reach of the whole reading is where a malformed text is reported.
-/

namespace SchemaHealth.Schema

/-- The roots that a schema definition may name. -/
inductive Root where
  | query
  | mutation
  | subscription
deriving DecidableEq, Repr

/-- What can be wrong with a text. All but the first concern texts that follow the grammar. -/
inductive Flaw where
  | malformed
  | numberOutOfRange
  | missingQueryRoot
  | repeatedRoot (root : Root)
deriving DecidableEq, Repr

/-- Something wrong at a place of a text. -/
structure Fault where
  flaw : Flaw
  position : Position
deriving DecidableEq, Repr

/-- The name of a root. -/
def Root.name : Root → String
  | query => "query"
  | mutation => "mutation"
  | subscription => "subscription"

/-- What is wrong, in words. -/
def Flaw.message : Flaw → String
  | malformed => "syntax"
  | numberOutOfRange => "invalid number"
  | missingQueryRoot => "schema definition is missing query root"
  | repeatedRoot root => "multiple " ++ root.name ++ " roots in schema definition"

/-- The fault and its place, in words. -/
def Fault.message (f : Fault) : String :=
  "failed to parse schema at " ++ toString f.position.line.toNat ++ ":" ++
    toString f.position.column.toNat ++ ": " ++ f.flaw.message

/-- The place after a character: a line feed starts a line, a carriage return goes back to the
first column. -/
def nextPosition (p : Position) (c : Char) : Position :=
  if c = '\n' then ⟨p.line + 1, 1⟩
  else if c = '\r' then ⟨p.line, 1⟩
  else ⟨p.line, p.column + 1⟩

/-- How far a text has been read. -/
structure Cursor where
  rest : List Char
  /-- The number of characters before. -/
  offset : Nat
  position : Position
  /-- The first fault so far of the parts that were read. -/
  fault : Option Fault

namespace Cursor

/-- The cursor at the start of a text. -/
def start (text : List Char) : Cursor := ⟨text, 0, .start, none⟩

/-- The cursor a number of characters further on. -/
def drop : Nat → Cursor → Cursor
  | 0, c => c
  | n + 1, c =>
    match c.rest with
    | [] => c
    | ch :: rest => drop n ⟨rest, c.offset + 1, nextPosition c.position ch, c.fault⟩

/-- The cursor at a later part of its text. -/
def moveTo (c : Cursor) (rest : List Char) : Cursor := c.drop (c.rest.length - rest.length)

theorem rest_drop (n : Nat) (c : Cursor) : (c.drop n).rest = c.rest.drop n := by
  induction n generalizing c with
  | zero => rfl
  | succ n ih =>
    obtain ⟨rest, offset, position, fault⟩ := c
    cases rest with
    | nil => rfl
    | cons ch rest => exact ih _

theorem rest_moveTo {c : Cursor} {rest : List Char} (later : rest <:+ c.rest) :
    (c.moveTo rest).rest = rest := by
  rw [moveTo, rest_drop]
  exact (List.suffix_iff_eq_drop.1 later).symm

end Cursor

/-- Whether a character ends a line. -/
def isLineEnd (c : Char) : Bool := c == '\n' || c == '\r'

/-- Whether a character is skipped between the parts of a text. -/
def isIgnored (c : Char) : Bool :=
  c == ' ' || c == ',' || c == '\t' || c == '\uFEFF' || isLineEnd c

/-- The number of characters of blanks and comments that a text starts with; a comment may have
begun before it. -/
def ignoredLength (inComment : Bool) : List Char → Nat
  | [] => 0
  | c :: cs =>
    if isLineEnd c then 1 + ignoredLength false cs
    else if inComment || c == '#' then 1 + ignoredLength true cs
    else if isIgnored c then 1 + ignoredLength false cs
    else 0

/-- The cursor after the blanks and comments before it. -/
def Cursor.skip (c : Cursor) : Cursor := c.drop (ignoredLength false c.rest)

/-- What became of an attempt to read. -/
structure Attempt (α : Type) where
  /-- The furthest offset at which a rule failed, zero if none did. -/
  reach : Nat
  result : Option (α × Cursor)

/-- Reads a part of a text. -/
def Reader (α : Type) : Type := Cursor → Attempt α

namespace Reader

variable {α β : Type}

/-- One reader after another. -/
protected def bind (r : Reader α) (f : α → Reader β) : Reader β := fun c =>
  match r c with
  | ⟨reach, none⟩ => ⟨reach, none⟩
  | ⟨reach, some (a, d)⟩ =>
    let next := f a d
    ⟨max reach next.reach, next.result⟩

instance : Monad Reader where
  pure a := fun c => ⟨0, some (a, c)⟩
  bind := Reader.bind

/-- The first reader, or the second one from the same place if the first fails. -/
protected def orElse (r : Reader α) (s : Unit → Reader α) : Reader α := fun c =>
  match r c with
  | ⟨reach, none⟩ =>
    let next := s () c
    ⟨max reach next.reach, next.result⟩
  | done => done

instance : OrElse (Reader α) := ⟨Reader.orElse⟩

/-- A rule of the grammar: blanks are skipped, and a failure counts at the place where the rule was
tried. -/
def rule (r : Reader α) : Reader α := fun c =>
  let c := c.skip
  match r c with
  | ⟨reach, none⟩ => ⟨max reach c.offset, none⟩
  | done => done

/-- A rule that takes a single lexeme off the text. -/
def lexeme (read? : List Char → Option (α × List Char)) : Reader α :=
  rule fun c =>
    match read? c.rest with
    | some (a, rest) => ⟨0, some (a, c.moveTo rest)⟩
    | none => ⟨0, none⟩

/-- A fixed text. It is no rule: its failure counts for the rule around it. -/
def literal (text : String) : Reader Unit := fun c =>
  let c := c.skip
  match text.toList.isPrefixOf? c.rest with
  | some rest => ⟨0, some ((), c.moveTo rest)⟩
  | none => ⟨0, none⟩

/-- The given part, or nothing. -/
def optional (r : Reader α) : Reader (Option α) := (some <$> r) <|> pure none

/-- The given part at most `n` times. -/
def upTo (r : Reader α) : Nat → Reader (List α)
  | 0 => pure []
  | n + 1 =>
    (do
      let a ← r
      let more ← r.upTo n
      return a :: more) <|> pure []

/-- The given part as often as it comes. Each time takes a character at least, and one more attempt
fails. -/
def many (r : Reader α) : Reader (List α) := fun c => r.upTo (c.rest.length + 1) c

/-- The given part at least once. -/
def many1 (r : Reader α) : Reader (List α) := do
  let a ← r
  let more ← r.many
  return a :: more

/-- The given part, with further ones after a separating text. -/
def separated (separator : String) (r : Reader α) : Reader (List α) := do
  let a ← r
  let more ← (do literal separator; r).many
  return a :: more

/-- The place at which the next part starts. -/
def here : Reader Position := fun c => ⟨0, some (c.skip.position, c)⟩

/-- Notes a fault, unless there is an earlier one. -/
def note (fault : Fault) : Reader Unit := fun c =>
  ⟨0, some ((), { c with fault := c.fault <|> some fault })⟩

/-- The end of the text. -/
def finish : Reader Unit :=
  rule fun c => ⟨0, if c.rest.isEmpty then some ((), c) else none⟩

end Reader

end SchemaHealth.Schema
