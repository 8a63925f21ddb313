import SchemaHealth.Schema.Reader
import Mathlib.Data.List.Infix

/-!
# What readers do on a text

Whether a reader succeeds, with which value and how far on, depends on the text before it. `Reads`
says that on a text it succeeds with a value of some kind, goes on to a given rest and notes no
fault; `Refuses` says that it fails. Each way to put readers together has a law for the one and for
the other, so that the reading of a text follows from that of its parts.
-/

namespace SchemaHealth.Schema

variable {cs ds es : List Char}

/-! ## Blanks -/

/-- A text without the blanks and comments that it starts with. -/
def skipped (cs : List Char) : List Char := cs.drop (ignoredLength false cs)

theorem skipped_space (cs : List Char) : skipped (' ' :: cs) = skipped cs := by
  have one : ignoredLength false (' ' :: cs) = ignoredLength false cs + 1 := Nat.add_comm _ _
  rw [skipped, one]
  rfl

theorem skipped_newline (cs : List Char) : skipped ('\n' :: cs) = skipped cs := by
  have one : ignoredLength false ('\n' :: cs) = ignoredLength false cs + 1 := Nat.add_comm _ _
  rw [skipped, one]
  rfl

/-- A name starts where no blank and no comment does. -/
theorem skipped_of_isNameStart {c : Char} (first : cs.head? = some c) (start : isNameStart c) :
    skipped cs = cs := by
  obtain ⟨others, rfl⟩ := List.head?_eq_some_iff.1 first
  have unlike : ∀ d ∈ [' ', ',', '\t', '\uFEFF', '\n', '\r', '#'], c ≠ d := by
    have none : [' ', ',', '\t', '\uFEFF', '\n', '\r', '#'].any isNameStart = false := by decide
    rintro d mem rfl
    exact List.any_eq_false.1 none _ mem start
  have solid : ignoredLength false (c :: others) = 0 := by
    simp only [List.forall_mem_cons] at unlike
    simp [ignoredLength, isLineEnd, isIgnored, unlike]
  rw [skipped, solid]
  rfl

/-- After what is skipped, inside a comment or not, there is nothing more to skip. -/
theorem ignoredLength_drop (inComment : Bool) (cs : List Char) :
    ignoredLength false (cs.drop (ignoredLength inComment cs)) = 0 := by
  induction cs generalizing inComment with
  | nil => rfl
  | cons c cs ih =>
      rw [ignoredLength]
      split_ifs with ends comment ignored
      · rw [Nat.add_comm, List.drop_succ_cons, ih]
      · rw [Nat.add_comm, List.drop_succ_cons, ih]
      · rw [Nat.add_comm, List.drop_succ_cons, ih]
      · rw [Bool.or_eq_true, not_or] at comment
        rw [List.drop_zero, ignoredLength, if_neg ends, if_neg (by simpa using comment.2),
          if_neg ignored]

/-- Blanks are skipped all at once. -/
@[simp] theorem skipped_skipped (cs : List Char) : skipped (skipped cs) = skipped cs := by
  rw [skipped, skipped, ignoredLength_drop]
  rfl

namespace Cursor

variable (c : Cursor)

@[simp] theorem rest_skip : c.skip.rest = skipped c.rest := rest_drop _ _

@[simp] theorem fault_drop (n : Nat) : (c.drop n).fault = c.fault := by
  induction n generalizing c with
  | zero => rfl
  | succ n ih =>
      obtain ⟨rest, offset, position, fault⟩ := c
      cases rest with
      | nil => rfl
      | cons ch rest => exact ih _

@[simp] theorem fault_skip : c.skip.fault = c.fault := fault_drop _ _

@[simp] theorem fault_moveTo (rest : List Char) : (c.moveTo rest).fault = c.fault := fault_drop _ _

end Cursor

namespace Reader

variable {α β : Type} {r s : Reader α} {f : α → Reader β} {P : α → Prop} {Q : β → Prop}

/-! ## Results -/

/-- The second reader goes on where the first one ended. -/
theorem result_bind (r : Reader α) (f : α → Reader β) (c : Cursor) :
    ((r >>= f) c).result = (r c).result.bind fun read => (f read.1 read.2).result := by
  show (Reader.bind r f c).result = _
  unfold Reader.bind
  rcases r c with ⟨reach, _ | ⟨a, d⟩⟩
  · rfl
  · rfl

/-- The second reader is tried when the first one fails. -/
theorem result_orElse (r s : Reader α) (c : Cursor) :
    ((r <|> s) c).result = (r c).result.or (s c).result := by
  show (Reader.orElse r (fun _ => s) c).result = _
  unfold Reader.orElse
  rcases r c with ⟨reach, _ | ⟨a, d⟩⟩
  · rfl
  · rfl

theorem result_rule (r : Reader α) (c : Cursor) : (rule r c).result = (r c.skip).result := by
  dsimp only [rule]
  rcases r c.skip with ⟨reach, _ | ⟨a, d⟩⟩
  · rfl
  · rfl

/-- A lexeme is read after the blanks, from the text alone. -/
theorem result_lexeme (read? : List Char → Option (α × List Char)) (c : Cursor) :
    (lexeme read? c).result
      = (read? (skipped c.rest)).map fun read => (read.1, c.skip.moveTo read.2) := by
  refine (result_rule _ c).trans ?_
  rw [← Cursor.rest_skip]
  rcases read? c.skip.rest with _ | ⟨a, rest⟩
  · rfl
  · rfl

theorem result_literal (text : String) (c : Cursor) :
    (literal text c).result
      = (text.toList.isPrefixOf? (skipped c.rest)).map fun rest => ((), c.skip.moveTo rest) := by
  rw [← Cursor.rest_skip]
  dsimp only [literal]
  rcases text.toList.isPrefixOf? c.skip.rest with _ | rest
  · rfl
  · rfl

/-- An optional part is no failure: where it is missing, nothing has been read. -/
theorem result_optional (r : Reader α) (c : Cursor) :
    (optional r c).result
      = some ((r c).result.elim (none, c) fun read => (some read.1, read.2)) := by
  refine (result_orElse _ _ c).trans ?_
  rw [show (some <$> r) = (r >>= fun a => pure (some a)) from rfl, result_bind]
  rcases (r c).result with _ | ⟨a, d⟩
  · rfl
  · rfl

/-! ## Reading and refusing -/

/-- On a text `cs` a reader succeeds with a value of some kind before the rest `ds`, and notes no
fault. -/
def Reads (r : Reader α) (cs : List Char) (P : α → Prop) (ds : List Char) : Prop :=
  ∀ c : Cursor, c.rest = cs →
    ∃ a d, (r c).result = some (a, d) ∧ P a ∧ d.rest = ds ∧ d.fault = c.fault

/-- On a text a reader fails. -/
def Refuses (r : Reader α) (cs : List Char) : Prop :=
  ∀ c : Cursor, c.rest = cs → (r c).result = none

namespace Reads

protected theorem pure {a : α} (property : P a) : Reads (pure a) cs P cs :=
  fun c text => ⟨a, c, rfl, property, text, rfl⟩

protected theorem bind (first : Reads r cs P ds) (next : ∀ a, P a → Reads (f a) ds Q es) :
    Reads (r >>= f) cs Q es := by
  intro c text
  obtain ⟨a, d, result, property, rest, fault⟩ := first c text
  obtain ⟨b, e, result', property', rest', fault'⟩ := next a property d rest
  refine ⟨b, e, ?_, property', rest', fault'.trans fault⟩
  rw [result_bind, result]
  exact result'

protected theorem mono {P' : α → Prop} (reads : Reads r cs P ds) (weaker : ∀ a, P a → P' a) :
    Reads r cs P' ds := by
  intro c text
  obtain ⟨a, d, result, property, rest⟩ := reads c text
  exact ⟨a, d, result, weaker a property, rest⟩

protected theorem discard (reads : Reads r cs P ds) : Reads (discard r) cs (fun _ => True) ds :=
  Reads.bind reads fun _ _ => .pure trivial

protected theorem orElse_left (reads : Reads r cs P ds) : Reads (r <|> s) cs P ds := by
  intro c text
  obtain ⟨a, d, result, others⟩ := reads c text
  refine ⟨a, d, ?_, others⟩
  rw [result_orElse, result]
  rfl

protected theorem orElse_right (refuses : Refuses r cs) (reads : Reads s cs P ds) :
    Reads (r <|> s) cs P ds := by
  intro c text
  rw [result_orElse, refuses c text]
  exact reads c text

protected theorem rule (reads : Reads r (skipped cs) P ds) : Reads (rule r) cs P ds := by
  intro c text
  obtain ⟨a, d, result, property, rest, fault⟩ := reads c.skip (by rw [Cursor.rest_skip, text])
  exact ⟨a, d, (result_rule r c).trans result, property, rest, fault.trans c.fault_skip⟩

protected theorem lexeme {read? : List Char → Option (α × List Char)} {a : α}
    (read : read? (skipped cs) = some (a, ds)) (later : ds <:+ skipped cs) :
    Reads (lexeme read?) cs (· = a) ds := by
  intro c text
  subst text
  refine ⟨a, c.skip.moveTo ds, ?_, rfl, ?_, by simp⟩
  · rw [result_lexeme, read]
    rfl
  · exact Cursor.rest_moveTo (by rwa [Cursor.rest_skip])

protected theorem literal {word : String} (start : skipped cs = word.toList ++ ds) :
    Reads (literal word) cs (fun _ => True) ds := by
  intro c text
  subst text
  refine ⟨(), c.skip.moveTo ds, ?_, trivial, ?_, by simp⟩
  · rw [result_literal, List.isPrefixOf?_eq_some_iff_append_eq.2 start.symm]
    rfl
  · exact Cursor.rest_moveTo ⟨_, by rw [Cursor.rest_skip, start]⟩

protected theorem here : Reads here cs (fun _ => True) cs :=
  fun c text => ⟨_, c, rfl, trivial, text, rfl⟩

/-- A part that is there is read. -/
theorem optional_some (reads : Reads r cs P ds) :
    Reads (optional r) cs (fun o => ∃ a, o = some a ∧ P a) ds := by
  intro c text
  obtain ⟨a, d, result, property, others⟩ := reads c text
  refine ⟨some a, d, ?_, ⟨a, rfl, property⟩, others⟩
  rw [result_optional, result]
  rfl

/-- A part that is missing is passed over. -/
theorem optional_none (refuses : Refuses r cs) : Reads (optional r) cs (· = none) cs := by
  intro c text
  refine ⟨none, c, ?_, rfl, text, rfl⟩
  rw [result_optional, refuses c text]
  rfl

end Reads

namespace Refuses

protected theorem bind (refuses : Refuses r cs) : Refuses (r >>= f) cs := by
  intro c text
  rw [result_bind, refuses c text]
  rfl

protected theorem bind_right (first : Reads r cs P ds) (refuses : ∀ a, P a → Refuses (f a) ds) :
    Refuses (r >>= f) cs := by
  intro c text
  obtain ⟨a, d, result, property, rest, -⟩ := first c text
  rw [result_bind, result]
  exact refuses a property d rest

protected theorem orElse (left : Refuses r cs) (right : Refuses s cs) : Refuses (r <|> s) cs := by
  intro c text
  rw [result_orElse, left c text, right c text]
  rfl

protected theorem rule (refuses : Refuses r (skipped cs)) : Refuses (rule r) cs := by
  intro c text
  rw [result_rule]
  exact refuses c.skip (by rw [Cursor.rest_skip, text])

protected theorem lexeme {read? : List Char → Option (α × List Char)}
    (refused : read? (skipped cs) = none) : Refuses (lexeme read?) cs := by
  intro c text
  rw [result_lexeme, text, refused]
  rfl

protected theorem literal {word : String} (otherwise : ¬ word.toList <+: skipped cs) :
    Refuses (literal word) cs := by
  intro c text
  rw [result_literal, text, Option.map_eq_none_iff, Option.eq_none_iff_forall_ne_some]
  intro rest start
  exact otherwise ⟨rest, List.isPrefixOf?_eq_some_iff_append_eq.1 start⟩

end Refuses

/-! ## Repetition -/

section Row

variable {γ δ : Type} {print : γ → List Char} {kind : γ → δ} {view : α → δ}
  {Goes : List Char → Prop} {part : γ} {parts : List γ} {rest : List Char}

/-- Parts in a row, each of which is read before the texts that may follow it, up to a rest where no
part starts. -/
structure Row (r : Reader α) (print : γ → List Char) (kind : γ → δ) (view : α → δ)
    (Goes : List Char → Prop) (parts : List γ) (rest : List Char) : Prop where
  visible : ∀ part ∈ parts, print part ≠ []
  reads : ∀ part ∈ parts, ∀ tail, Goes tail →
    Reads r (print part ++ tail) (view · = kind part) tail
  goes : ∀ part ∈ parts, ∀ tail, Goes (print part ++ tail)
  last : Goes rest
  ended : Refuses r rest

namespace Row

protected theorem tail (row : Row r print kind view Goes (part :: parts) rest) :
    Row r print kind view Goes parts rest where
  visible p mem := row.visible p (List.mem_cons_of_mem part mem)
  reads p mem := row.reads p (List.mem_cons_of_mem part mem)
  goes p mem := row.goes p (List.mem_cons_of_mem part mem)
  last := row.last
  ended := row.ended

/-- A whole row may itself follow a part. -/
theorem follows (row : Row r print kind view Goes parts rest) :
    Goes (parts.flatMap print ++ rest) := by
  cases parts with
  | nil => exact row.last
  | cons part parts =>
      rw [List.flatMap_cons, List.append_assoc]
      exact row.goes part List.mem_cons_self _

/-- The first part is read, and the others are left. -/
theorem head (row : Row r print kind view Goes (part :: parts) rest) :
    Reads r ((part :: parts).flatMap print ++ rest) (view · = kind part)
      (parts.flatMap print ++ rest) := by
  rw [List.flatMap_cons, List.append_assoc]
  exact row.reads part List.mem_cons_self _ row.tail.follows

/-- There are no more parts than characters, so a repetition bounded by the text reads all. -/
theorem length_le (row : Row r print kind view Goes parts rest) :
    parts.length ≤ (parts.flatMap print).length := by
  induction parts with
  | nil => exact Nat.zero_le _
  | cons part parts ih =>
      have one := List.length_pos_iff.2 (row.visible part List.mem_cons_self)
      have others := ih row.tail
      rw [List.flatMap_cons, List.length_append, List.length_cons]
      omega

/-- A repetition long enough reads the whole row, each part as its kind. -/
theorem reads_upTo (row : Row r print kind view Goes parts rest) {n : Nat}
    (enough : parts.length ≤ n) :
    Reads (r.upTo n) (parts.flatMap print ++ rest) (fun as => as.map view = parts.map kind)
      rest := by
  induction parts generalizing n with
  | nil =>
      cases n with
      | zero => exact .pure rfl
      | succ n => exact .orElse_right (.bind row.ended) (.pure rfl)
  | cons part parts ih =>
      cases n with
      | zero => cases enough
      | succ n =>
          have others := ih row.tail (Nat.le_of_succ_le_succ enough)
          refine .orElse_left (.bind row.head fun a same => .bind others fun as same' => .pure ?_)
          rw [List.map_cons, List.map_cons, same, same']

/-- A row is read as a whole. -/
theorem reads_many (row : Row r print kind view Goes parts rest) :
    Reads r.many (parts.flatMap print ++ rest) (fun as => as.map view = parts.map kind) rest := by
  intro c text
  refine row.reads_upTo ?_ c text
  have := row.length_le
  rw [text, List.length_append]
  omega

/-- A row is read as a whole where at least one part has to stand. -/
theorem reads_many1 (row : Row r print kind view Goes parts rest) (some : parts ≠ []) :
    Reads r.many1 (parts.flatMap print ++ rest) (fun as => as.map view = parts.map kind)
      rest := by
  cases parts with
  | nil => exact absurd rfl some
  | cons part parts =>
      refine .bind row.head fun a same => .bind row.tail.reads_many fun as same' => .pure ?_
      rw [List.map_cons, List.map_cons, same, same']

end Row

end Row

end Reader
end SchemaHealth.Schema
