import SchemaHealth.Proofs.Text.LowerCase
import SchemaHealth.Settings.RuleName

/-!
# Keys of rule names

The key of a name in ASCII is made of characters that a further pass leaves alone, and does not end
in `-rule`; so it is its own key. A name made of words has four spellings: displayed with blanks,
run together, with underscores, or with dashes. They have one key, the spelling with dashes less
its endings.

The main statement is `ruleKey_canonical`.
-/

namespace SchemaHealth

open Text

variable {c : Char} {cs rest : List Char} {before : Option Char} {ended : Bool}

/-! ## Characters of keys -/

/-- A character that stays as it is in a key. -/
structure IsKeyPart (c : Char) : Prop where
  notUpper : isUppercase c = false
  notUnderscore : c ≠ '_'
  notBlank : isBlank c = false

theorem IsKeyPart.of_isLowercase (lower : isLowercase c) : IsKeyPart c where
  notUpper := isUppercase_of_isLowercase lower
  notUnderscore := by
    rintro rfl
    revert lower
    decide
  notBlank := isBlank_of_isLowercase lower

theorem isKeyPart_dash : IsKeyPart '-' := ⟨by decide, by decide, by decide⟩

/-- A character of keys is taken over, whatever comes before it. -/
theorem keyFrom_cons_of_isKeyPart (plain : IsKeyPart c) :
    keyFrom before ended (c :: cs) = c :: keyFrom (some c) (c = '-') cs := by
  simp [keyFrom, plain.notUpper, plain.notUnderscore, plain.notBlank]

/-- Characters of keys are taken over one by one. -/
theorem keyFrom_of_isKeyPart (plain : ∀ c ∈ cs, IsKeyPart c) : keyFrom before ended cs = cs := by
  induction cs generalizing before ended with
  | nil => rfl
  | cons c cs ih =>
      obtain ⟨first, others⟩ := List.forall_mem_cons.1 plain
      rw [keyFrom_cons_of_isKeyPart first, ih others]

/-- Lowering an upper-case letter of ASCII gives a character of keys. -/
theorem isKeyPart_lowered_of_ascii (ascii : c.toNat < 0x80) (upper : isUppercase c) :
    ∀ d ∈ lowered c, IsKeyPart d := by
  rw [isUppercase, if_pos ascii] at upper
  rw [lowered_of_ascii ascii]
  have letter : isLowercase c.toLower := isLowercase_of_isLower (isLower_toLower upper)
  simpa using IsKeyPart.of_isLowercase letter

/-- A key of ASCII characters is made of characters of keys. -/
theorem isKeyPart_of_mem_keyFrom (ascii : ∀ c ∈ cs, c.toNat < 0x80) :
    ∀ d ∈ keyFrom before ended cs, IsKeyPart d := by
  induction cs generalizing before ended with
  | nil => simp [keyFrom]
  | cons c cs ih =>
      obtain ⟨first, others⟩ := List.forall_mem_cons.1 ascii
      rw [keyFrom]
      split
      next upper =>
        intro d mem
        rcases List.mem_append.1 mem with mem | later
        · rcases List.mem_append.1 mem with dash | letter
          · split at dash
            · rw [List.mem_singleton.1 dash]
              exact isKeyPart_dash
            · cases dash
          · exact isKeyPart_lowered_of_ascii first upper d letter
        · exact ih others d later
      next notUpper =>
        split
        next =>
          split
          · exact ih others
          · exact List.forall_mem_cons.2 ⟨isKeyPart_dash, ih others⟩
        next plain =>
          have here : IsKeyPart c := by
            simp only [Bool.or_eq_true, decide_eq_true_eq, not_or] at plain
            exact ⟨Bool.eq_false_iff.2 notUpper, plain.1, Bool.eq_false_iff.2 plain.2⟩
          exact List.forall_mem_cons.2 ⟨here, ih others⟩

/-! ## Ends of keys -/

/-- A key without the endings that are left out. -/
def withoutRuleEndings (key : List Char) : List Char := (dropRuleEndings key.reverse).reverse

theorem dropRuleEndings_suffix (cs : List Char) : dropRuleEndings cs <:+ cs := by
  fun_induction dropRuleEndings cs with
  | case1 cs ih => exact ih.trans ⟨['e', 'l', 'u', 'r', '-'], rfl⟩
  | case2 cs => exact List.suffix_rfl

/-- Read from its end, a key starts with no ending once they are left out. -/
theorem not_prefix_dropRuleEndings (cs : List Char) :
    ¬ ['e', 'l', 'u', 'r', '-'] <+: dropRuleEndings cs := by
  fun_induction dropRuleEndings cs with
  | case1 cs ih => exact ih
  | case2 cs other =>
      rintro ⟨rest, rfl⟩
      exact other rest rfl

theorem dropRuleEndings_eq_self (other : ¬ ['e', 'l', 'u', 'r', '-'] <+: cs) :
    dropRuleEndings cs = cs := by
  fun_cases dropRuleEndings cs with
  | case1 cs => exact absurd ⟨cs, rfl⟩ other
  | case2 cs => rfl

theorem mem_of_mem_withoutRuleEndings (mem : c ∈ withoutRuleEndings cs) : c ∈ cs := by
  have := (dropRuleEndings_suffix cs.reverse).mem (List.mem_reverse.1 mem)
  exact List.mem_reverse.1 this

/-- No ending is left. -/
theorem not_suffix_withoutRuleEndings (cs : List Char) :
    ¬ "-rule".toList <:+ withoutRuleEndings cs := by
  rw [withoutRuleEndings, ← List.reverse_prefix, List.reverse_reverse]
  exact not_prefix_dropRuleEndings cs.reverse

/-- Nothing is left out where there is no ending. -/
theorem withoutRuleEndings_eq_self (other : ¬ "-rule".toList <:+ cs) :
    withoutRuleEndings cs = cs := by
  rw [← List.reverse_prefix] at other
  rw [withoutRuleEndings, dropRuleEndings_eq_self other, List.reverse_reverse]

theorem dropWhile_isBlank_eq_self (solid : ∀ c ∈ cs.head?, isBlank c = false) :
    cs.dropWhile isBlank = cs := by
  cases cs with
  | nil => rfl
  | cons c cs => exact List.dropWhile_cons_of_neg (by simp [solid c rfl])

/-- A text without white space at its ends stays as it is. -/
theorem trim_eq_self (first : ∀ c ∈ cs.head?, isBlank c = false)
    (last : ∀ c ∈ cs.getLast?, isBlank c = false) : trim cs = cs := by
  rw [← List.head?_reverse] at last
  rw [trim, dropWhile_isBlank_eq_self first, dropWhile_isBlank_eq_self last, List.reverse_reverse]

theorem mem_of_mem_trim (mem : c ∈ trim cs) : c ∈ cs := by
  have tail := (List.dropWhile_suffix isBlank).mem (List.mem_reverse.1 mem)
  exact (List.dropWhile_suffix isBlank).mem (List.mem_reverse.1 tail)

theorem toList_ruleKey (name : String) :
    (ruleKey name).toList = withoutRuleEndings (keyFrom none false (trim name.toList)) :=
  String.toList_ofList

/-! ## Keys of keys -/

/-- A text that is its own key: characters of keys only, and no ending that is left out. -/
structure IsRuleKey (key : String) : Prop where
  isKeyPart : ∀ c ∈ key.toList, IsKeyPart c
  noEnding : ¬ "-rule".toList <:+ key.toList

/-- A key is its own key. -/
theorem IsRuleKey.ruleKey_eq {key : String} (own : IsRuleKey key) : ruleKey key = key := by
  have solid : trim key.toList = key.toList :=
    trim_eq_self (fun c mem => (own.isKeyPart c (List.mem_of_mem_head? mem)).notBlank)
      fun c mem => (own.isKeyPart c (List.mem_of_mem_getLast? mem)).notBlank
  refine String.toList_inj.1 ?_
  rw [toList_ruleKey, solid, keyFrom_of_isKeyPart own.isKeyPart,
    withoutRuleEndings_eq_self own.noEnding]

/-- A name in ASCII has a key of the right form. -/
theorem isRuleKey_ruleKey {name : String} (ascii : ∀ c ∈ name.toList, c.toNat < 0x80) :
    IsRuleKey (ruleKey name) := by
  constructor
  · intro c mem
    rw [toList_ruleKey] at mem
    exact isKeyPart_of_mem_keyFrom (fun c mem => ascii c (mem_of_mem_trim mem)) c
      (mem_of_mem_withoutRuleEndings mem)
  · rw [toList_ruleKey]
    exact not_suffix_withoutRuleEndings _

/-! ## Names made of words -/

/-- A word of a name: an upper-case letter of ASCII and one or more lower-case letters. -/
inductive IsNameWord : List Char → Prop
  | intro {first second : Char} {others : List Char} : first.isUpper →
    (∀ c ∈ second :: others, isLowercase c) → IsNameWord (first :: second :: others)

/-- The ways to spell a name made of words. -/
inductive Spelling where
  | displayed
  | runTogether
  | underscored
  | hyphenated
deriving DecidableEq, Repr

namespace Spelling

/-- What stands between two words. -/
def separator : Spelling → List Char
  | displayed => [' ']
  | runTogether => []
  | underscored => ['_']
  | hyphenated => ['-']

/-- How a word is written. -/
def word (cs : List Char) : Spelling → List Char
  | displayed | runTogether => cs
  | underscored | hyphenated => lowercase cs

/-- The characters of a name, given by its words. -/
def chars (spelling : Spelling) (words : List (List Char)) : List Char :=
  spelling.separator.intercalate (words.map spelling.word)

/-- The text of a name, given by its words. -/
def write (spelling : Spelling) (words : List (List Char)) : String :=
  String.ofList (spelling.chars words)

theorem chars_cons_cons (spelling : Spelling) (first second : List Char)
    (words : List (List Char)) : spelling.chars (first :: second :: words)
      = spelling.word first ++ (spelling.separator ++ spelling.chars (second :: words)) := by
  simp [chars, List.intercalate]

theorem chars_cons (spelling : Spelling) (first : List Char) (words : List (List Char)) :
    spelling.chars (first :: words)
      = spelling.word first ++ words.flatMap fun w => spelling.separator ++ spelling.word w := by
  induction words generalizing first with
  | nil => simp [chars, List.intercalate]
  | cons second words ih =>
      rw [chars_cons_cons, ih, List.flatMap_cons, List.append_assoc]

end Spelling

/-! ### The key of a word -/

section Words

variable {w : List Char} {words : List (List Char)}

/-- Lower-case letters are taken over; the last of them stands before what follows. -/
theorem exists_keyFrom_letters (lower : ∀ d ∈ c :: cs, isLowercase d) :
    ∃ last, isLowercase last ∧ ∀ before ended rest,
      keyFrom before ended (c :: cs ++ rest) = c :: cs ++ keyFrom (some last) false rest := by
  induction cs generalizing c with
  | nil =>
      have letter := lower c List.mem_cons_self
      refine ⟨c, letter, fun before ended rest => ?_⟩
      have other : c ≠ '-' := by
        rintro rfl
        revert letter
        decide
      rw [List.singleton_append, keyFrom_cons_of_isKeyPart (.of_isLowercase letter),
        decide_eq_false other]
      rfl
  | cons d cs ih =>
      obtain ⟨letter, others⟩ := List.forall_mem_cons.1 lower
      obtain ⟨last, isLast, step⟩ := ih others
      refine ⟨last, isLast, fun before ended rest => ?_⟩
      rw [List.cons_append, keyFrom_cons_of_isKeyPart (.of_isLowercase letter), step]
      rfl

/-- Lowering a word changes its first letter only. -/
theorem IsNameWord.lowercase_eq {first second : Char} {others : List Char}
    (upper : first.isUpper) (lower : ∀ c ∈ second :: others, isLowercase c) :
    lowercase (first :: second :: others) = first.toLower :: second :: others := by
  have rest : (second :: others).flatMap lowered = second :: others :=
    lowercase_of_isLowercase lower
  rw [lowercase, List.flatMap_cons, lowered_of_isUpper upper, rest, List.singleton_append]

/-- A word in lower case is taken over. -/
theorem IsNameWord.exists_keyFrom_lowercase (word : IsNameWord w) :
    ∃ last, isLowercase last ∧ ∀ before ended rest,
      keyFrom before ended (lowercase w ++ rest)
        = lowercase w ++ keyFrom (some last) false rest := by
  obtain ⟨upper, lower⟩ := word
  rw [IsNameWord.lowercase_eq upper lower]
  refine exists_keyFrom_letters (List.forall_mem_cons.2 ⟨?_, lower⟩)
  exact isLowercase_of_isLower (isLower_toLower upper)

/-- A word is brought into lower case, and a dash goes before it if it comes right after a
lower-case letter. -/
theorem IsNameWord.exists_keyFrom (word : IsNameWord w) :
    ∃ last, isLowercase last ∧ ∀ before ended rest, before.any isUppercase = false →
      keyFrom before ended (w ++ rest)
        = (if before.any isLowercase then ['-'] else []) ++
          (lowercase w ++ keyFrom (some last) false rest) := by
  obtain @⟨first, second, others, upper, lower⟩ := word
  obtain ⟨last, isLast, letters⟩ := exists_keyFrom_letters lower
  refine ⟨last, isLast, fun before ended rest notUpper => ?_⟩
  rw [List.cons_append, keyFrom, if_pos (isUppercase_of_isUpper upper), letters,
    lowered_of_isUpper upper, IsNameWord.lowercase_eq upper lower, notUpper, Bool.false_and,
    Bool.or_false, List.append_assoc]
  rfl

/-- Whatever stands between two words becomes one dash. -/
theorem keyFrom_separator (mem : c ∈ [' ', '_', '-']) :
    keyFrom before false (c :: cs) = '-' :: keyFrom (some c) true cs := by
  rcases List.mem_cons.1 mem with rfl | mem
  · rfl
  · rcases List.mem_cons.1 mem with rfl | mem
    · rfl
    · rw [List.mem_singleton.1 mem, keyFrom_cons_of_isKeyPart isKeyPart_dash]
      rfl

/-- In every spelling a word gives its lower-case form, after a dash if another word comes
before. -/
theorem IsNameWord.exists_keyFrom_word (isWord : IsNameWord w) (spelling : Spelling) :
    ∃ last, isLowercase last ∧
      (∀ rest, keyFrom none false (spelling.word w ++ rest)
        = lowercase w ++ keyFrom (some last) false rest) ∧
      ∀ b rest, isLowercase b →
        keyFrom (some b) false (spelling.separator ++ (spelling.word w ++ rest))
          = '-' :: (lowercase w ++ keyFrom (some last) false rest) := by
  obtain ⟨last, isLast, raw⟩ := isWord.exists_keyFrom
  obtain ⟨last', isLast', lowered⟩ := isWord.exists_keyFrom_lowercase
  cases spelling with
  | displayed =>
      refine ⟨last, isLast, fun rest => raw none false rest rfl, fun b rest _ => ?_⟩
      exact (keyFrom_separator (by decide)).trans (congrArg _ (raw (some ' ') true rest rfl))
  | runTogether =>
      refine ⟨last, isLast, fun rest => raw none false rest rfl, fun b rest lower => ?_⟩
      have := raw (some b) false rest (isUppercase_of_isLowercase lower)
      rwa [Option.any_some, lower] at this
  | underscored =>
      refine ⟨last', isLast', fun rest => lowered none false rest, fun b rest _ => ?_⟩
      exact (keyFrom_separator (by decide)).trans (congrArg _ (lowered (some '_') true rest))
  | hyphenated =>
      refine ⟨last', isLast', fun rest => lowered none false rest, fun b rest _ => ?_⟩
      exact (keyFrom_separator (by decide)).trans (congrArg _ (lowered (some '-') true rest))

/-! ### The key of a name -/

/-- Further words are hyphenated, however they are spelled. -/
theorem keyFrom_words (isWord : ∀ w ∈ words, IsNameWord w) (spelling : Spelling)
    (lower : isLowercase c) :
    keyFrom (some c) false (words.flatMap fun w => spelling.separator ++ spelling.word w)
      = words.flatMap fun w => '-' :: lowercase w := by
  induction words generalizing c with
  | nil => rfl
  | cons w words ih =>
      obtain ⟨first, others⟩ := List.forall_mem_cons.1 isWord
      obtain ⟨last, isLast, _, later⟩ := first.exists_keyFrom_word spelling
      rw [List.flatMap_cons, List.append_assoc, later c _ lower, ih others isLast]
      rfl

/-- Every spelling of a name turns into its words with hyphens. -/
theorem keyFrom_chars (nonempty : words ≠ []) (isWord : ∀ w ∈ words, IsNameWord w)
    (spelling : Spelling) :
    keyFrom none false (spelling.chars words) = Spelling.hyphenated.chars words := by
  obtain ⟨w, words, rfl⟩ := List.exists_cons_of_ne_nil nonempty
  obtain ⟨first, others⟩ := List.forall_mem_cons.1 isWord
  obtain ⟨last, isLast, start, _⟩ := first.exists_keyFrom_word spelling
  rw [Spelling.chars_cons, start, keyFrom_words others spelling isLast, Spelling.chars_cons]
  rfl

/-- A word starts with a letter and goes on with lower-case letters in every spelling. -/
theorem IsNameWord.exists_word_eq (isWord : IsNameWord w) (spelling : Spelling) :
    ∃ first second others, spelling.word w = first :: second :: others ∧
      isBlank first = false ∧ ∀ d ∈ second :: others, isLowercase d := by
  obtain @⟨first, second, others, upper, lower⟩ := isWord
  have raw : isBlank first = false := isBlank_of_isUpper upper
  have lowered : isBlank first.toLower = false :=
    isBlank_of_isLowercase (isLowercase_of_isLower (isLower_toLower upper))
  cases spelling with
  | displayed => exact ⟨first, second, others, rfl, raw, lower⟩
  | runTogether => exact ⟨first, second, others, rfl, raw, lower⟩
  | underscored =>
      exact ⟨first.toLower, second, others, IsNameWord.lowercase_eq upper lower, lowered, lower⟩
  | hyphenated =>
      exact ⟨first.toLower, second, others, IsNameWord.lowercase_eq upper lower, lowered, lower⟩

theorem head?_chars (isWord : ∀ w ∈ words, IsNameWord w) (spelling : Spelling) :
    ∀ c ∈ (spelling.chars words).head?, isBlank c = false := by
  cases words with
  | nil => simp [Spelling.chars, List.intercalate]
  | cons w words =>
      obtain ⟨first, second, others, eq, solid, _⟩ :=
        (isWord w List.mem_cons_self).exists_word_eq spelling
      rw [Spelling.chars_cons, eq]
      rintro c ⟨⟩
      exact solid

theorem getLast?_chars (isWord : ∀ w ∈ words, IsNameWord w) (spelling : Spelling) :
    ∀ c ∈ (spelling.chars words).getLast?, isBlank c = false := by
  induction words with
  | nil => simp [Spelling.chars, List.intercalate]
  | cons w words ih =>
      obtain ⟨isWord, others⟩ := List.forall_mem_cons.1 isWord
      obtain ⟨first, second, letters, eq, _, lower⟩ := isWord.exists_word_eq spelling
      cases words with
      | nil =>
          intro c mem
          rw [Spelling.chars_cons, List.flatMap_nil, List.append_nil, eq,
            List.getLast?_cons_cons] at mem
          exact isBlank_of_isLowercase (lower c (List.mem_of_mem_getLast? mem))
      | cons next words =>
          -- The name ends where its last word does.
          have more : spelling.chars (next :: words) ≠ [] := by
            obtain ⟨first, second, letters, eq, _⟩ :=
              (others next List.mem_cons_self).exists_word_eq spelling
            rw [Spelling.chars_cons, eq]
            exact List.cons_ne_nil _ _
          obtain ⟨last, isLast⟩ := Option.isSome_iff_exists.1 (List.getLast?_isSome.2 more)
          rw [Spelling.chars_cons_cons, List.getLast?_append, List.getLast?_append, isLast]
          rintro c ⟨⟩
          exact ih others last isLast

/-- No spelling of a name has blanks around it. -/
theorem trim_chars (isWord : ∀ w ∈ words, IsNameWord w) (spelling : Spelling) :
    trim (spelling.chars words) = spelling.chars words :=
  trim_eq_self (head?_chars isWord spelling) (getLast?_chars isWord spelling)

end Words

/-- The key of a name in ASCII is its own key; there is no upper-case letter, no underscore and no
white space in it, and it does not end in `-rule`. The spellings of a name made of words all have
one key: the words in lower case with dashes between them, less its endings. -/
theorem ruleKey_canonical :
    (∀ name : String, (∀ c ∈ name.toList, c.toNat < 0x80) →
      ruleKey (ruleKey name) = ruleKey name ∧
      (∀ c ∈ (ruleKey name).toList,
        isUppercase c = false ∧ c ≠ '_' ∧ isBlank c = false) ∧
      ¬ "-rule".toList <:+ (ruleKey name).toList) ∧
    ∀ words : List (List Char), words ≠ [] → (∀ w ∈ words, IsNameWord w) →
      ∀ spelling : Spelling, ruleKey (spelling.write words)
        = String.ofList (withoutRuleEndings (Spelling.hyphenated.chars words)) := by
  refine ⟨fun name ascii => ?_, fun words nonempty isWord spelling => ?_⟩
  · have own := isRuleKey_ruleKey ascii
    refine ⟨own.ruleKey_eq, fun c mem => ?_, own.noEnding⟩
    have part := own.isKeyPart c mem
    exact ⟨part.notUpper, part.notUnderscore, part.notBlank⟩
  · refine String.toList_inj.1 ?_
    rw [toList_ruleKey, Spelling.write, String.toList_ofList, trim_chars isWord,
      keyFrom_chars nonempty isWord, String.toList_ofList]

theorem ruleKey_canonical_nullRule :
    let name := "\tPIIRule_rule-rule "
    let words := ["Null".toList, "Rule".toList]
    (ruleKey name = "pii" ∧ ruleKey (ruleKey name) = ruleKey name) ∧
      (Spelling.displayed.write words = "Null Rule" ∧
        Spelling.runTogether.write words = "NullRule" ∧
        Spelling.underscored.write words = "null_rule" ∧
        Spelling.hyphenated.write words = "null-rule") ∧
      ∀ spelling : Spelling, ruleKey (spelling.write words) = "null" := by
  intro name words
  obtain ⟨own, spelled⟩ := ruleKey_canonical
  have isWord : ∀ w ∈ words, IsNameWord w := by
    intro w mem
    rcases List.mem_cons.1 mem with rfl | mem
    · exact .intro (by decide) (List.all_eq_true.1 (by decide))
    · rw [List.mem_singleton.1 mem]
      exact .intro (by decide) (List.all_eq_true.1 (by decide))
  have ascii : name.toList.all (·.toNat < 0x80) := by decide
  have isAscii : ∀ c ∈ name.toList, c.toNat < 0x80 :=
    fun c mem => of_decide_eq_true (List.all_eq_true.1 ascii c mem)
  refine ⟨⟨by decide, (own name isAscii).1⟩, by decide, fun spelling => ?_⟩
  exact spelled words (List.cons_ne_nil _ _) isWord spelling

end SchemaHealth
