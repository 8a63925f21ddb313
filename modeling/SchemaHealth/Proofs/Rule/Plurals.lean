import SchemaHealth.Proofs.Rule.EndingCases
import SchemaHealth.Proofs.Rule.Places
import SchemaHealth.Proofs.Text.LowerCase

/-!
# Plurals that do not read as plurals

A plural that the ending rules form need not be one in their own eyes: the plural of `taxi` is
`taxis`, which ends as the singular `axis` does. So a field that returns a list, and is renamed to
the plural of its name, may be found again.

The words of lower-case letters to which that happens are known (`Relapses`). Most of them waver
(`Wavers`): they get an `s`, and with it they end as a singular does. Besides there are a few words
whose plural is looked up and found to be a singular, such as `canva`.

Where a case gives a word a new ending, the ending settles that the plural is kept. Where none fits
and an `s` is added, it depends on the letters before the `s` alone. Both are read off the table of
all cases, and the words that are looked up are gone through one by one.

* `inflect_inflect_eq_iff`: the rules keep the plural of a word just if the word does not waver.
* `plural_clears_iff`: the plural of a word reads as a plural, and no field of this name is found,
  just if the word does not relapse.
-/

namespace SchemaHealth

variable {w r : List Char} {c : EndingCase}

/-! ## The words to which it happens -/

/-- Whether a word ends in one of some contexts. -/
def EndsIn (contexts : List Context) (word : List Char) : Prop :=
  ∃ context ∈ contexts, HasPattern context.reverse word.reverse

instance (contexts : List Context) (word : List Char) : Decidable (EndsIn contexts word) :=
  inferInstanceAs (Decidable (∃ context ∈ contexts, HasPattern context.reverse word.reverse))

/-- The endings that together with an `s` are endings of singulars. -/
def waveringEndings : List Context :=
  [spelled "si", spelled "axi", spelled "testi", spelled "ri", spelled "ga", spelled "alia",
    [.among ['t'], .among ['l', 'm'], .among ['a']], [.notAmong ['a', 'o', 'u'], .among ['u']]]

/-- The longer endings for which there is a rule. -/
def settledEndings : List Context :=
  [spelled "alga", spelled "viri", spelled "uteri", [.among ['e'], .among ['m', 'n'], .among ['u']]]

/-- Whether the rules form another plural of the plural of a word. -/
def Wavers (word : List Char) : Prop :=
  EndsIn waveringEndings word ∧ ¬ EndsIn settledEndings word

instance (word : List Char) : Decidable (Wavers word) :=
  inferInstanceAs (Decidable (_ ∧ ¬ _))

/-- The words whose plural is an irregular singular, and `thou`, which turns into `you`. -/
def relapsingWords : List String := ["thou", "thi", "this", "canva", "canvas", "genu", "genus"]

/-- The words that waver, but whose plural is known to have none. -/
def settledWords : List String := ["chassi", "debri"]

/-- Whether the plural of a word does not read as a plural. -/
def Relapses (word : List Char) : Prop :=
  String.ofList word ∈ relapsingWords ∨ Wavers word ∧ String.ofList word ∉ settledWords

instance (word : List Char) : Decidable (Relapses word) :=
  inferInstanceAs (Decidable (_ ∨ _ ∧ _))

/-! ## What the table says -/

/-- The words that some cases fit as a whole or after a boundary only. -/
def wholeWords : List String := ["titmice", "mice", "lice", "titmouse", "mouse", "louse", "thou"]

/-- What the rules do to plurals, as far as it can be told from patterns. -/
@[mk_iff] structure RulesSettle : Prop where
  /-- Cases that are bound to a place fit single words. -/
  bound : ∀ c ∈ endingCases, c.place = .anywhere ∨ ∃ text ∈ wholeWords, c.pattern = spelling text
  whole : ∀ text ∈ wholeWords, text = "thou" ∨
    inflect (inflect text.toList) = inflect text.toList
  /-- A plural with a new ending is kept. -/
  outcome : ∀ c ∈ endingCases, c.place = .anywhere → c.added ≠ c.dropped →
    EndingCase.settles true [] c.outcome endingCases
  /-- A word that wavers is changed once it has an `s`. -/
  wavering : ∀ context ∈ waveringEndings,
    EndingCase.settles false (settledEndings.map fun e => spelling "s" ++ e.reverse)
      (spelling "s" ++ context.reverse) endingCases
  /-- No case fits a word that wavers. -/
  unfit : ∀ c ∈ endingCases, ∀ context ∈ waveringEndings,
    Letter.anyClash c.pattern context.reverse ∨
      ∃ e ∈ settledEndings, Letter.allInside c.pattern e.reverse
  /-- A case that changes words in `s` asks for another one before it, or for the ending of a word
  that wavers. -/
  changing : ∀ c ∈ endingCases, c.added = c.dropped ∨
    Letter.anyClash (spelling "s") c.pattern ∨
      ∃ e ∈ spelled "s" :: waveringEndings,
        Letter.allInside c.pattern (spelling "s" ++ e.reverse)
  /-- Some case fits the words in `s` and those with an ending for which there is a rule. -/
  fit : ∀ e ∈ spelled "s" :: settledEndings,
    ∃ c ∈ endingCases, c.place = .anywhere ∧ Letter.allInside e.reverse c.pattern

instance : Decidable RulesSettle := decidable_of_iff' _ rulesSettle_iff

/-- The table is gone through once, for all that is asked of it. -/
theorem rulesSettle : RulesSettle := by
  decide +kernel

/-! ## The plural of a plural -/

theorem not_hasPattern_of_none {context : Context}
    (none : ∀ c ∈ endingCases, c.inflected? w = none)
    (mem : context ∈ spelled "s" :: settledEndings) : ¬ HasPattern context.reverse w.reverse := by
  intro has
  obtain ⟨c, case, anywhere, inside⟩ := rulesSettle.fit context mem
  obtain ⟨r, found⟩ := EndingCase.exists_inflected? anywhere (has.of_allInside inside)
  rw [none c case] at found
  cases found

/-- A word that no case changes gets an `s`. -/
theorem inflect_of_none (none : ∀ c ∈ endingCases, c.inflected? w = none) :
    inflect w = w ++ "s".toList := by
  rw [inflect_eq, List.findSome?_eq_none_iff.2 none]
  rfl

/-- No case changes a wavering word. -/
theorem Wavers.inflected?_eq_none (wavers : Wavers w) :
    ∀ c ∈ endingCases, c.inflected? w = none := by
  obtain ⟨⟨context, mem, has⟩, unsettled⟩ := wavers
  intro c case
  cases found : c.inflected? w with
  | none => rfl
  | some r =>
      have fits := EndingCase.hasPattern found
      rcases rulesSettle.unfit c case context mem with clash | ⟨e, settled, inside⟩
      · exact absurd has (fits.not_of_anyClash clash)
      · exact absurd ⟨e, settled, fits.of_allInside inside⟩ unsettled

/-- Where an `s` is added for want of a case, no other ending comes after it unless the word ends as
those that waver. -/
theorem inflect_append_s_iff (none : ∀ c ∈ endingCases, c.inflected? w = none) :
    inflect (w ++ "s".toList) = w ++ "s".toList ↔ ¬ EndsIn waveringEndings w := by
  constructor
  · rintro kept ⟨context, mem, has⟩
    have changed :=
      inflect_eq_self_iff (rulesSettle.wavering context mem) (hasPattern_append.2 has) ?_
    · exact Bool.false_ne_true (changed.1 kept)
    · intro q barred
      obtain ⟨e, settled, rfl⟩ := List.mem_map.1 barred
      rw [hasPattern_append]
      exact not_hasPattern_of_none none (List.mem_cons_of_mem _ settled)
  · intro steady
    have ends : HasPattern (spelling "s") (w ++ "s".toList).reverse := by
      have empty := (@hasPattern_append [] w "s").2 rfl
      rwa [List.reverse_nil, List.append_nil] at empty
    -- What changes the word would ask for an ending before the `s` that the word has not.
    rcases inflect_cases (w ++ "s".toList) with ⟨c, case, found⟩ | ⟨none', _⟩
    · have fits := EndingCase.hasPattern found
      rcases rulesSettle.changing c case with same | clash | ⟨e, mem, inside⟩
      · exact (EndingCase.eq_self_iff found).2 same
      · exact absurd fits (ends.not_of_anyClash clash)
      · have has := hasPattern_append.1 (fits.of_allInside inside)
        rcases List.mem_cons.1 mem with rfl | wavering
        · exact absurd has (not_hasPattern_of_none none List.mem_cons_self)
        · exact absurd ⟨e, wavering, has⟩ steady
    · exact absurd ends (not_hasPattern_of_none none' List.mem_cons_self)

theorem Text.isWordChar_of_isLower {ch : Char} (lower : ch.isLower) : isWordChar ch := by
  have bounds := isLower_iff.1 lower
  have letter : ch.isAlpha := Bool.or_eq_true_iff.2 (.inr lower)
  exact isWordChar_of_isAlphanum (by omega) (Bool.or_eq_true_iff.2 (.inl letter))

theorem Place.eq_nil_of_allows {place : Place} {before : List Char}
    (lower : ∀ ch ∈ before, ch.isLower) (bound : place ≠ .anywhere)
    (allows : place.allows before) : before = [] := by
  cases before with
  | nil => rfl
  | cons ch before =>
      have letter := Text.isWordChar_of_isLower (lower ch List.mem_cons_self)
      cases place with
      | anywhere => exact absurd rfl bound
      | startOfPart => simp [Place.allows, letter] at allows
      | startOfWord => cases allows

/-- In a word of letters there is no boundary. -/
theorem mem_wholeWords (lower : ∀ ch ∈ w, ch.isLower) (case : c ∈ endingCases)
    (bound : c.place ≠ .anywhere) (found : c.inflected? w = some r) :
    String.ofList w ∈ wholeWords := by
  obtain ⟨stem, rfl, rfl, before, context, allows⟩ := EndingCase.inflected?_eq_some_iff.1 found
  obtain ⟨text, mem, pattern⟩ := (rulesSettle.bound c case).resolve_left bound
  have split : (stem ++ c.dropped.toList).reverse = text.toList.reverse ++ before := by
    rw [← beforeContext?_spelling, ← pattern, EndingCase.pattern, beforeContext?_append,
      beforeContext?_spelling.2 List.reverse_append, Option.bind_some, context]
  have nothing : before = [] := by
    refine Place.eq_nil_of_allows (fun ch mem => lower ch ?_) bound allows
    rw [← List.mem_reverse, split]
    exact List.mem_append_right _ mem
  rw [nothing, List.append_nil, List.reverse_inj] at split
  rwa [split, String.ofList_toList]

/-- The rules keep the plural of a word just if the word does not waver. -/
theorem inflect_inflect_eq_iff (lower : ∀ ch ∈ w, ch.isLower) (other : w ≠ "thou".toList) :
    inflect (inflect w) = inflect w ↔ ¬ Wavers w := by
  rcases inflect_cases w with ⟨c, case, found⟩ | ⟨none, _⟩
  · have steady : ¬ Wavers w := fun wavers => by
      rw [wavers.inflected?_eq_none c case] at found
      cases found
    refine iff_of_true ?_ steady
    -- A new ending settles what comes next, but a place does not show in the ending.
    by_cases anywhere : c.place = .anywhere
    · by_cases same : c.added = c.dropped
      · have kept := (EndingCase.eq_self_iff found).2 same
        rw [kept, kept]
      · exact (inflect_eq_self_iff (rulesSettle.outcome c case anywhere same)
          (EndingCase.hasPattern_outcome found) (List.forall_mem_nil _)).2 rfl
    · have whole := rulesSettle.whole _ (mem_wholeWords lower case anywhere found)
      rw [String.toList_ofList] at whole
      exact whole.resolve_left fun thou => other (by rw [← thou, String.toList_ofList])
  · have unsettled : ¬ EndsIn settledEndings w := fun ⟨e, mem, has⟩ =>
      not_hasPattern_of_none none (List.mem_cons_of_mem _ mem) has
    rw [inflect_of_none none, inflect_append_s_iff none, Wavers, and_iff_left unsettled]

/-! ## Words that are looked up -/

/-- The words that are looked up and found to be plurals. -/
def pluralWords : List String := uncountableWords ++ irregularPlurals.map (·.2)

/-- The words that are looked up and found to be singulars. -/
def singularWords : List String := irregularPlurals.map (·.1)

/-- The singulars among them that the rules keep. -/
def keptSingulars : List String := ["canvas", "genus", "this"]

/-- What becomes of the words that are looked up, and of those that are said to relapse. -/
@[mk_iff] structure WordsSettle : Prop where
  relapsing : ∀ text ∈ relapsingWords, isPlural (String.ofList (inflect text.toList)) = false
  settled : ∀ word ∈ settledWords, word ++ "s" ∈ pluralWords
  plurals : ∀ text ∈ pluralWords, ¬ "s".toList <:+ text.toList ∨
    inflect text.toList = text.toList ∨ ∃ word ∈ settledWords, text = word ++ "s"
  singulars : ∀ text ∈ singularWords, inflect text.toList = text.toList → text ∈ keptSingulars
  kept : ∀ text ∈ keptSingulars, text ∈ relapsingWords ∧
    ∃ word ∈ relapsingWords, text = word ++ "s"
  /-- Only a case in which an `s` is added makes a new word that may be one of these singulars. -/
  unkept : ∀ c ∈ endingCases, c.added = c.dropped ∨ c.added = "s" ∧ c.dropped = "" ∨
    ∀ text ∈ keptSingulars, ¬ c.added.toList <:+ text.toList
  lower : ∀ c ∈ endingCases, c.added.toList.all Char.isLower

instance : Decidable WordsSettle := decidable_of_iff' _ wordsSettle_iff

theorem wordsSettle : WordsSettle := by
  decide +kernel

/-- The plural of a word in lower-case letters is in lower-case letters. -/
theorem isLower_inflect (lower : ∀ ch ∈ w, ch.isLower) : ∀ ch ∈ inflect w, ch.isLower := by
  intro ch mem
  rcases inflect_cases w with ⟨c, case, found⟩ | ⟨_, plural⟩
  · obtain ⟨stem, rfl, plural, _⟩ := EndingCase.inflected?_eq_some_iff.1 found
    rw [plural] at mem
    rcases List.mem_append.1 mem with kept | added
    · exact lower ch (List.mem_append_left _ kept)
    · exact List.all_eq_true.1 (wordsSettle.lower c case) ch added
  · rw [plural] at mem
    rcases List.mem_append.1 mem with kept | added
    · exact lower ch kept
    · rw [List.mem_singleton.1 added]
      rfl

/-- A word of lower-case letters reads as a plural if it is looked up and found to be one, or if it
is not found to be a singular and the rules keep it. -/
theorem isPlural_ofList (lower : ∀ ch ∈ r, ch.isLower) (nonempty : r ≠ []) :
    isPlural (String.ofList r) = true ↔ String.ofList r ∈ pluralWords ∨
      String.ofList r ∉ singularWords ∧ inflect r = r := by
  have same : Text.lowercase r = r :=
    Text.lowercase_of_isLowercase fun ch mem => Text.isLowercase_of_isLower (lower ch mem)
  have plural : String.ofList r ∈ pluralWords ↔ String.ofList r ∈ uncountableWords ∨
      irregularPlurals.any fun pair => pair.2 = String.ofList r := by
    simp only [pluralWords, List.mem_append, List.mem_map, List.any_eq_true, decide_eq_true_eq]
  have singular : String.ofList r ∈ singularWords ↔
      irregularPlurals.any fun pair => pair.1 = String.ofList r := by
    simp only [singularWords, List.mem_map, List.any_eq_true, decide_eq_true_eq]
  rw [plural, singular, isPlural, String.toList_ofList, same,
    List.isEmpty_eq_false_iff.2 nonempty, Bool.false_or]
  split
  next uncountable => simp [of_decide_eq_true uncountable]
  next countable =>
    rw [decide_eq_true_iff] at countable
    split
    next irregular => simp [irregular]
    next regular =>
      split
      next known => simp [known, countable, regular]
      next unknown => simp [unknown, countable, regular]

/-- A word that gets an `s` is one of some words if its plural is one of these with an `s`. -/
theorem ofList_mem_of_append_s {words : List String} (plural : inflect w = w ++ "s".toList)
    (ends : ∃ word ∈ words, String.ofList (inflect w) = word ++ "s") : String.ofList w ∈ words := by
  obtain ⟨word, mem, ends⟩ := ends
  have chars : w ++ "s".toList = word.toList ++ "s".toList := by
    rw [← plural, ← String.toList_append, ← ends, String.toList_ofList]
  rw [List.append_cancel_right_eq] at chars
  rwa [chars, String.ofList_toList]

theorem mem_relapsingWords (kept : String.ofList (inflect w) ∈ keptSingulars) :
    String.ofList w ∈ relapsingWords := by
  obtain ⟨itself, ends⟩ := wordsSettle.kept _ kept
  rcases inflect_cases w with ⟨c, case, found⟩ | ⟨_, plural⟩
  · obtain ⟨stem, word, plural, _⟩ := EndingCase.inflected?_eq_some_iff.1 found
    rcases wordsSettle.unkept c case with same | ⟨added, dropped⟩ | other
    · rwa [(EndingCase.eq_self_iff found).2 same] at itself
    · refine ofList_mem_of_append_s ?_ ends
      rw [plural, word, added, dropped, String.toList_empty, List.append_nil]
    · exact absurd ⟨stem, plural.symm.trans String.toList_ofList.symm⟩ (other _ kept)
  · exact ofList_mem_of_append_s plural ends

/-- The plural of a word that wavers reads as a plural just if it is looked up. -/
theorem Wavers.isPlural_inflect_iff (lower : ∀ ch ∈ w, ch.isLower) (wavers : Wavers w)
    (other : w ≠ "thou".toList) :
    isPlural (String.ofList (inflect w)) = true ↔ String.ofList w ∈ settledWords := by
  have plural : inflect w = w ++ "s".toList := inflect_of_none wavers.inflected?_eq_none
  have changed : inflect (inflect w) ≠ inflect w := fun kept =>
    (inflect_inflect_eq_iff lower other).1 kept wavers
  have nonempty : inflect w ≠ [] := by
    rw [plural]
    exact List.append_ne_nil_of_right_ne_nil w (by decide)
  rw [isPlural_ofList (isLower_inflect lower) nonempty, or_iff_left fun both => changed both.2]
  constructor
  · intro known
    rcases wordsSettle.plurals _ known with without | kept | ends
    · exact absurd ⟨w, plural.symm.trans String.toList_ofList.symm⟩ without
    · rw [String.toList_ofList] at kept
      exact absurd kept changed
    · exact ofList_mem_of_append_s plural ends
  · intro settled
    rw [plural, String.ofList_append, String.ofList_toList]
    exact wordsSettle.settled _ settled

/-- The plural of a word that does not waver reads as a plural unless it is looked up. -/
theorem isPlural_inflect_of_not_wavers (lower : ∀ ch ∈ w, ch.isLower) (steady : ¬ Wavers w)
    (unlisted : String.ofList w ∉ relapsingWords) (other : w ≠ "thou".toList) :
    isPlural (String.ofList (inflect w)) = true := by
  have kept := (inflect_inflect_eq_iff lower other).2 steady
  have nonempty : inflect w ≠ [] := fun empty => by
    rw [empty] at kept
    exact absurd kept (by decide)
  refine (isPlural_ofList (isLower_inflect lower) nonempty).2 (.inr ⟨fun singular => ?_, kept⟩)
  have known := wordsSettle.singulars _ singular (by rw [String.toList_ofList, kept])
  exact unlisted (mem_relapsingWords known)

/-! ## Fields with a plural for a name -/

/-- The plural of a word counts as a plural unless the word relapses. -/
theorem isPlural_inflect_iff (lower : ∀ ch ∈ w, ch.isLower) :
    isPlural (String.ofList (inflect w)) = true ↔ ¬ Relapses w := by
  by_cases listed : String.ofList w ∈ relapsingWords
  · have singular := wordsSettle.relapsing _ listed
    rw [String.toList_ofList] at singular
    simp [singular, Relapses, listed]
  have other : w ≠ "thou".toList := by
    rintro rfl
    exact listed (by decide)
  rw [Relapses, or_iff_right listed, not_and, not_not]
  by_cases wavers : Wavers w
  · rw [wavers.isPlural_inflect_iff lower other, imp_iff_right wavers]
  · exact iff_of_true (isPlural_inflect_of_not_wavers lower wavers listed other)
      fun also => absurd also wavers

/-- A field that returns a list is not found just if its name reads as a plural. -/
theorem pluralCollections_clear_iff {d : Document} {t : TypeDefinition} {f : FieldDefinition}
    (mem : (t, f) ∈ d.fieldDefinitions) (list : f.type.isNullableList) :
    (∀ v ∈ (Rule.pluralCollections.run d).findings.toList, v.location ≠ f.location t) ↔
      isPlural f.name.text = true := by
  constructor
  · intro clear
    by_contra singular
    refine clear ⟨"Field " ++ quoted f.name.text ++ " returns a list but is not plural",
      f.location t⟩ (List.mem_filterMap.2 ⟨(t, f), mem, ?_⟩) rfl
    simp [list, singular]
  · rintro plural v found place
    obtain ⟨⟨t', f'⟩, _, complaint⟩ := List.mem_filterMap.1 found
    obtain ⟨message, complaint, rfl⟩ := Option.map_eq_some_iff.1 complaint
    have name : f'.name.text = f.name.text := Option.some.inj (congrArg Location.field place)
    simp [name, plural] at complaint

/-- The plural of a word of lower-case letters reads as a plural, and a field that returns a list
and has it for a name is not found, just if the word does not relapse. -/
theorem plural_clears_iff (lower : ∀ ch ∈ w, ch.isLower) :
    (isPlural (String.ofList (inflect w)) = true ↔ ¬ Relapses w) ∧
      ∀ (d : Document) (t : TypeDefinition) (f : FieldDefinition), (t, f) ∈ d.fieldDefinitions →
        f.type.isNullableList → f.name.text = String.ofList (inflect w) →
        ((∀ v ∈ (Rule.pluralCollections.run d).findings.toList, v.location ≠ f.location t) ↔
          ¬ Relapses w) := by
  refine ⟨isPlural_inflect_iff lower, fun d t f mem list name => ?_⟩
  rw [pluralCollections_clear_iff mem list, name, isPlural_inflect_iff lower]

/-- A field with the plural of `taxi` for a name. -/
def taxisField : FieldDefinition :=
  ⟨⟨"taxis", by decide⟩, .list (.named ⟨"Taxi", by decide⟩), [], .start⟩

/-- The type with this field alone. -/
def taxiRank : TypeDefinition where
  name := ⟨"TaxiRank", by decide⟩
  body := .object [taxisField]
  isExtension := false
  directives := []
  position := .start

theorem plural_clears_iff_taxi :
    (∀ ch ∈ "taxi".toList, ch.isLower) ∧ isPlural (String.ofList (inflect "taxi".toList)) = false ∧
      (taxiRank, taxisField) ∈ (Document.mk [taxiRank]).fieldDefinitions ∧
      taxisField.type.isNullableList ∧
      taxisField.name.text = String.ofList (inflect "taxi".toList) ∧
      ¬ ∀ v ∈ (Rule.pluralCollections.run ⟨[taxiRank]⟩).findings.toList,
        v.location ≠ taxisField.location taxiRank := by
  have lower : ∀ ch ∈ "taxi".toList, ch.isLower := List.all_eq_true.1 (by decide)
  have relapses : Relapses "taxi".toList := by decide
  have mem : (taxiRank, taxisField) ∈ (Document.mk [taxiRank]).fieldDefinitions :=
    List.mem_singleton_self _
  have name : taxisField.name.text = String.ofList (inflect "taxi".toList) := by decide
  obtain ⟨reads, clear⟩ := plural_clears_iff lower
  refine ⟨lower, ?_, mem, rfl, name, ?_⟩
  · exact Bool.eq_false_iff.2 fun plural => reads.1 plural relapses
  · exact fun found => (clear _ _ _ mem rfl name).1 found relapses

/-- The plural of a word is not always one: `taxis` ends as a singular in `axis` does. -/
theorem not_always_isPlural_inflect : ¬ ∀ w : List Char, w ≠ [] → (∀ ch ∈ w, ch.isLower) →
    isPlural (String.ofList (inflect w)) = true := by
  intro always
  have plural := always "taxi".toList (by decide) (List.all_eq_true.1 (by decide))
  exact absurd plural (by decide)

example : ¬ Relapses "category".toList ∧ Relapses "genus".toList ∧ ¬ Relapses "debri".toList := by
  decide

end SchemaHealth
