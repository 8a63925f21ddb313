import SchemaHealth.Rule.Inflection
import Mathlib.Data.List.Basic

/-!
# What an ending says about the plural

An ending rule has several contexts and may drop several endings, and of 32 rules the first one that
fits counts. Here the rules are taken apart into single cases, each with one context and one ending
(`EndingCase`); of the cases, too, the first one that fits counts (`inflect_eq`).

What fits depends on the last letters of a word alone. A pattern is a list of letters that are asked
for, the last one first; a word has it if `beforeContext?` finds something before it. Two patterns
may clash, or the one may lie within the other (`Letter.clash`, `Letter.inside`). So a pattern may
settle whether the words that have it stay as they are: `EndingCase.settles` goes through the cases,
passes over those that clash, and stops at one that fits in any event.

* `inflect_cases`: the plural of a word comes from a case, or it is the word with an `s`.
* `inflect_eq_self_iff`: what a pattern settles is so for every word that has it.
-/

namespace SchemaHealth

/-! ## Patterns of letters -/

namespace Letter

/-- Whether all that the one letter accepts is accepted by the other. -/
def inside : Letter → Letter → Bool
  | among cs, other => cs.all fun c => other.accepts c
  | notAmong cs, notAmong ds => ds.all fun d => d ∈ cs
  | beyondAscii, beyondAscii => true
  | _, _ => false

/-- Whether a character is none that the letter accepts. -/
def refuses (c : Char) : Letter → Bool
  -- Letters are compared in great number, so the tests are those that the kernel computes at once.
  | among cs => cs.all fun d => !Nat.beq c.toNat d.toNat
  | notAmong cs => cs.any fun d => Nat.beq c.toNat d.toNat
  | beyondAscii => Nat.blt c.toNat 0x80

/-- Whether nothing is accepted by both letters. -/
def clash : Letter → Letter → Bool
  | among cs, other | other, among cs => cs.all fun c => other.refuses c
  | _, _ => false

variable {a b : Letter} {c : Char}

theorem accepts_of_inside (inside : a.inside b) (accepts : a.accepts c) : b.accepts c := by
  match a, b with
  | among cs, b => exact List.all_eq_true.1 inside c (of_decide_eq_true accepts)
  | notAmong cs, notAmong ds =>
      refine decide_eq_true fun mem => of_decide_eq_true accepts ?_
      exact of_decide_eq_true (List.all_eq_true.1 inside c mem)
  | beyondAscii, beyondAscii => exact accepts

/-- A letter that refuses a character does not accept it. -/
theorem not_accepts_of_refuses (refuses : a.refuses c) : ¬ a.accepts c := by
  match a with
  | among cs =>
      intro mem
      have other := List.all_eq_true.1 refuses c (of_decide_eq_true mem)
      simp at other
  | notAmong cs =>
      obtain ⟨d, mem, same⟩ := List.any_eq_true.1 refuses
      have same : c = d := Char.toNat_inj.1 (Nat.eq_of_beq_eq_true same)
      simpa [accepts, same] using mem
  | beyondAscii =>
      rw [Letter.refuses, Nat.blt_eq] at refuses
      simpa [accepts] using refuses

/-- Letters that clash accept no character both. -/
theorem not_accepts_of_clash (clash : a.clash b) (accepts : a.accepts c) : ¬ b.accepts c := by
  match a, b with
  | among cs, b =>
      exact not_accepts_of_refuses (List.all_eq_true.1 clash c (of_decide_eq_true accepts))
  | notAmong cs, among ds =>
      intro mem
      exact not_accepts_of_refuses (List.all_eq_true.1 clash c (of_decide_eq_true mem)) accepts
  | beyondAscii, among ds =>
      intro mem
      exact not_accepts_of_refuses (List.all_eq_true.1 clash c (of_decide_eq_true mem)) accepts

/-- Whether every text that has the one pattern has the other. -/
def allInside : List Letter → List Letter → Bool
  | _, [] => true
  | [], _ :: _ => false
  | a :: p, b :: q => a.inside b && allInside p q

/-- Whether no text has both patterns. -/
def anyClash : List Letter → List Letter → Bool
  | a :: p, b :: q => a.clash b || anyClash p q
  | _, _ => false

end Letter

/-- A text, last letter first, has a pattern. -/
def HasPattern (p : List Letter) (cs : List Char) : Prop := (beforeContext? p cs).isSome

instance (p : List Letter) (cs : List Char) : Decidable (HasPattern p cs) :=
  inferInstanceAs (Decidable ((beforeContext? p cs).isSome = true))

variable {p q : List Letter} {cs : List Char} {w r : List Char}

theorem hasPattern_cons {a : Letter} {c : Char} :
    HasPattern (a :: p) (c :: cs) ↔ a.accepts c ∧ HasPattern p cs := by
  unfold HasPattern
  rw [beforeContext?]
  split
  next accepts => exact (and_iff_right accepts).symm
  next refused => exact iff_of_false Bool.false_ne_true fun both => refused both.1

/-- What has a pattern has every wider one. -/
theorem HasPattern.of_allInside (inside : Letter.allInside p q) (has : HasPattern p cs) :
    HasPattern q cs := by
  induction p generalizing q cs with
  | nil =>
      cases q with
      | nil => exact rfl
      | cons b q => cases inside
  | cons a p ih =>
      cases q with
      | nil => exact rfl
      | cons b q =>
          cases cs with
          | nil => cases has
          | cons c cs =>
              obtain ⟨accepts, has⟩ := hasPattern_cons.1 has
              obtain ⟨first, rest⟩ := Bool.and_eq_true_iff.1 inside
              exact hasPattern_cons.2 ⟨Letter.accepts_of_inside first accepts, ih rest has⟩

/-- What has a pattern has none that clashes with it. -/
theorem HasPattern.not_of_anyClash (clash : Letter.anyClash p q) (has : HasPattern p cs) :
    ¬ HasPattern q cs := by
  induction p generalizing q cs with
  | nil => cases clash
  | cons a p ih =>
      cases q with
      | nil => cases clash
      | cons b q =>
          cases cs with
          | nil => cases has
          | cons c cs =>
              obtain ⟨accepts, has⟩ := hasPattern_cons.1 has
              intro other
              obtain ⟨accepts', other⟩ := hasPattern_cons.1 other
              rcases Bool.or_eq_true_iff.1 clash with first | rest
              · exact Letter.not_accepts_of_clash first accepts accepts'
              · exact ih rest has other

theorem beforeContext?_append :
    beforeContext? (p ++ q) cs = (beforeContext? p cs).bind (beforeContext? q) := by
  induction p generalizing cs with
  | nil => rfl
  | cons a p ih =>
      cases cs with
      | nil => rfl
      | cons c cs =>
          rw [List.cons_append, beforeContext?, beforeContext?]
          split
          · exact ih
          · rfl

/-- The pattern of certain letters, the last one first. -/
def spelling (text : String) : List Letter := (spelled text).reverse

/-- A spelled context stands before what is left of the word without that text. -/
theorem beforeContext?_spelling {text : String} {rest : List Char} :
    beforeContext? (spelling text) cs = some rest ↔ cs = text.toList.reverse ++ rest := by
  rw [spelling, spelled, ← List.map_reverse]
  induction text.toList.reverse generalizing cs with
  | nil => exact Option.some_inj
  | cons d ds ih =>
      cases cs with
      | nil => simp [beforeContext?]
      | cons c cs =>
          rw [List.map_cons, beforeContext?, List.cons_append, List.cons.injEq]
          by_cases same : c = d
          · rw [if_pos (by simp [Letter.accepts, same]), ih, and_iff_right same]
          · rw [if_neg (by simp [Letter.accepts, same])]
            exact iff_of_false (by simp) fun both => same both.1

/-- A word ends in a context and an ending if what the ending leaves of it ends in the context. -/
theorem hasPattern_append {context : Context} {stem : List Char} {ending : String} :
    HasPattern (spelling ending ++ context.reverse) (stem ++ ending.toList).reverse
      ↔ HasPattern context.reverse stem.reverse := by
  have dropped : beforeContext? (spelling ending) (stem ++ ending.toList).reverse
      = some stem.reverse := by
    rw [beforeContext?_spelling, List.reverse_append]
  rw [HasPattern, beforeContext?_append, dropped]
  exact Iff.rfl

/-! ## Single cases -/

/-- One case of an ending rule: after a context one ending is dropped and another one added. -/
structure EndingCase where
  place : Place
  context : Context
  dropped : String
  added : String
deriving DecidableEq

namespace EndingCase

/-- The plural of a word in this case, if it is the case. -/
def inflected? (c : EndingCase) (word : List Char) : Option (List Char) :=
  match EndingRule.stem? word c.dropped.toList with
  | some stem =>
    if (beforeContext? c.context.reverse stem.reverse).any fun before => c.place.allows before then
      some (stem ++ c.added.toList)
    else none
  | none => none

/-- The pattern of the words that have a plural in this case, wherever it may stand. -/
def pattern (c : EndingCase) : List Letter := spelling c.dropped ++ c.context.reverse

/-- The pattern of the plurals in this case. -/
def outcome (c : EndingCase) : List Letter := spelling c.added ++ c.context.reverse

variable {c : EndingCase}

/-- The stem of a word is what stands before the ending. -/
theorem stem?_eq_some_iff {word ending stem : List Char} :
    EndingRule.stem? word ending = some stem ↔ word = stem ++ ending := by
  rw [EndingRule.stem?, Option.map_eq_some_iff]
  constructor
  · rintro ⟨rest, found, rfl⟩
    have split := List.isPrefixOf?_eq_some_iff_append_eq.1 found
    rw [← List.reverse_reverse word, ← split, List.reverse_append, List.reverse_reverse]
  · rintro rfl
    refine ⟨stem.reverse, ?_, List.reverse_reverse stem⟩
    rw [List.isPrefixOf?_eq_some_iff_append_eq, List.reverse_append]

theorem inflected?_of_stem {place : Place} {context : Context} {ending added : String}
    {stem : List Char} (split : EndingRule.stem? w ending.toList = some stem) :
    (⟨place, context, ending, added⟩ : EndingCase).inflected? w
      = if (beforeContext? context.reverse stem.reverse).any fun before => place.allows before
        then some (stem ++ added.toList) else none := by
  rw [inflected?, split]

/-- A case changes the words that end in its context and its dropped ending, at a place that it
allows, and swaps the endings. -/
theorem inflected?_eq_some_iff : c.inflected? w = some r ↔ ∃ stem, w = stem ++ c.dropped.toList ∧
    r = stem ++ c.added.toList ∧
    ∃ before, beforeContext? c.context.reverse stem.reverse = some before ∧
      c.place.allows before := by
  unfold inflected?
  constructor
  · intro found
    split at found
    next stem split =>
      split at found
      next fits =>
        cases found
        exact ⟨stem, stem?_eq_some_iff.1 split, rfl, (Option.any_eq_true _ _).1 fits⟩
      next => cases found
    next => cases found
  · rintro ⟨stem, rfl, rfl, before, found, allowed⟩
    rw [stem?_eq_some_iff.2 rfl]
    exact if_pos (by rw [found]; exact allowed)

/-- What a case changes has its pattern. -/
theorem hasPattern (found : c.inflected? w = some r) : HasPattern c.pattern w.reverse := by
  obtain ⟨stem, rfl, rfl, before, context, _⟩ := inflected?_eq_some_iff.1 found
  exact hasPattern_append.2 (Option.isSome_of_eq_some context)

/-- What comes of a case has the pattern of its outcome. -/
theorem hasPattern_outcome (found : c.inflected? w = some r) : HasPattern c.outcome r.reverse := by
  obtain ⟨stem, rfl, rfl, before, context, _⟩ := inflected?_eq_some_iff.1 found
  exact hasPattern_append.2 (Option.isSome_of_eq_some context)

/-- A case that allows every place changes whatever has its pattern. -/
theorem exists_inflected? (anywhere : c.place = .anywhere) (has : HasPattern c.pattern w.reverse) :
    ∃ r, c.inflected? w = some r := by
  rw [HasPattern, pattern, beforeContext?_append, Option.isSome_bind] at has
  obtain ⟨rest, split, context⟩ := (Option.any_eq_true _ _).1 has
  obtain ⟨before, context⟩ := Option.isSome_iff_exists.1 context
  have word : w = rest.reverse ++ c.dropped.toList := by
    rw [← List.reverse_reverse w, beforeContext?_spelling.1 split, List.reverse_append,
      List.reverse_reverse]
  refine ⟨_, inflected?_eq_some_iff.2 ⟨rest.reverse, word, rfl, before, ?_, ?_⟩⟩
  · rw [List.reverse_reverse, context]
  · rw [anywhere]
    rfl

/-- A word stays as it is just where what is added was dropped. -/
theorem eq_self_iff (found : c.inflected? w = some r) : r = w ↔ c.added = c.dropped := by
  obtain ⟨stem, rfl, rfl, _⟩ := inflected?_eq_some_iff.1 found
  rw [List.append_cancel_left_eq, String.toList_inj]

end EndingCase

/-! ## The rules as cases -/

theorem findSome?_flatMap {α β γ : Type} {f : α → List β} {answer? : β → Option γ} (l : List α) :
    (l.flatMap f).findSome? answer? = l.findSome? fun a => (f a).findSome? answer? := by
  induction l with
  | nil => rfl
  | cons a l ih =>
      rw [List.flatMap_cons, List.findSome?_append, ih, List.findSome?_cons]
      cases (f a).findSome? answer? <;> rfl

/-- The cases of a rule in the order in which it goes through them. -/
def EndingRule.cases (rule : EndingRule) : List EndingCase :=
  rule.dropped.flatMap fun ending =>
    rule.contexts.map fun context => ⟨rule.place, context, ending, rule.added⟩

/-- A rule gives what the first of its cases gives. -/
theorem EndingRule.inflected?_eq (rule : EndingRule) (w : List Char) :
    rule.inflected? w = rule.cases.findSome? fun c => c.inflected? w := by
  rw [cases, findSome?_flatMap, inflected?]
  refine congrArg (List.findSome? · rule.dropped) (funext fun ending => ?_)
  rw [List.findSome?_map]
  cases split : stem? w ending.toList with
  | none =>
      refine (List.findSome?_eq_none_iff.2 fun context _ => ?_).symm
      simp [EndingCase.inflected?, split]
  | some stem =>
      unfold fits
      dsimp only
      induction rule.contexts with
      | nil => rfl
      | cons context contexts ih =>
          rw [List.findSome?_cons, Function.comp_apply, EndingCase.inflected?_of_stem split,
            List.any_cons]
          by_cases here : (beforeContext? context.reverse stem.reverse).any
              fun before => rule.place.allows before
          · rw [here, Bool.true_or, if_pos rfl]
          · rw [Bool.eq_false_iff.2 here, Bool.false_or, if_neg Bool.false_ne_true]
            exact ih

/-- All cases in order but for the last one, in which an `s` is added to whatever word. -/
def endingCases : List EndingCase := (endingRules.flatMap EndingRule.cases).dropLast

/-- The cases of all rules are the listed ones and, last of all, the added `s`. -/
theorem flatMap_cases_endingRules :
    endingRules.flatMap EndingRule.cases = endingCases ++ [⟨.anywhere, [], "", "s"⟩] := by
  decide +kernel

/-- The plural of a word is that of the first case that fits, or else the word with an `s`. -/
theorem inflect_eq (w : List Char) :
    inflect w = (endingCases.findSome? fun c => c.inflected? w).getD (w ++ ['s']) := by
  have last : (⟨.anywhere, [], "", "s"⟩ : EndingCase).inflected? w = some (w ++ ['s']) :=
    EndingCase.inflected?_eq_some_iff.2 ⟨w, (List.append_nil w).symm, rfl, _, rfl, rfl⟩
  have rules : (endingRules.findSome? fun rule => rule.inflected? w)
      = (endingRules.flatMap EndingRule.cases).findSome? fun c => c.inflected? w := by
    rw [findSome?_flatMap]
    exact congrArg (List.findSome? · endingRules) (funext fun rule => rule.inflected?_eq w)
  rw [inflect, rules, flatMap_cases_endingRules, List.findSome?_append, List.findSome?_cons, last]
  cases endingCases.findSome? fun c => c.inflected? w <;> rfl

/-- The plural of a word comes from a case, or no case fits and an `s` is added. -/
theorem inflect_cases (w : List Char) :
    (∃ c ∈ endingCases, c.inflected? w = some (inflect w)) ∨
      (∀ c ∈ endingCases, c.inflected? w = none) ∧ inflect w = w ++ ['s'] := by
  rw [inflect_eq]
  cases found : endingCases.findSome? fun c => c.inflected? w with
  | none => exact .inr ⟨List.findSome?_eq_none_iff.1 found, rfl⟩
  | some r =>
      obtain ⟨c, mem, fits⟩ := List.exists_of_findSome?_eq_some found
      exact .inl ⟨c, mem, fits⟩

/-! ## What a pattern settles -/

namespace EndingCase

/-- Whether a pattern settles that the words that have it are kept, or that they are changed, if
they have none of the barred patterns. Cases that clash with the pattern or ask for a barred one do
not matter; of the others each has to do what is to be settled, up to one that fits all words of the
pattern. Where none fits, an `s` is added. -/
def settles (kept : Bool) (barred : List (List Letter)) (p : List Letter) : List EndingCase → Bool
  | [] => !kept
  | c :: cases =>
    if Letter.anyClash p c.pattern || barred.any (Letter.allInside c.pattern) then
      settles kept barred p cases
    else if decide (c.added = c.dropped) = kept then
      c.place = .anywhere && Letter.allInside p c.pattern || settles kept barred p cases
    else false

theorem getD_findSome?_eq_iff {kept : Bool} {barred : List (List Letter)} {cases : List EndingCase}
    (settled : settles kept barred p cases) (has : HasPattern p w.reverse)
    (free : ∀ q ∈ barred, ¬ HasPattern q w.reverse) :
    (cases.findSome? fun c => c.inflected? w).getD (w ++ ['s']) = w ↔ kept = true := by
  induction cases with
  | nil =>
      rw [settles, Bool.not_eq_true'] at settled
      simp [settled]
  | cons c cases ih =>
      rw [List.findSome?_cons]
      rw [settles] at settled
      cases found : c.inflected? w with
      | some r =>
          split at settled
          next passed =>
            rcases Bool.or_eq_true_iff.1 passed with clash | asks
            · exact absurd (hasPattern found) (has.not_of_anyClash clash)
            · obtain ⟨q, mem, inside⟩ := List.any_eq_true.1 asks
              exact absurd ((hasPattern found).of_allInside inside) (free q mem)
          next =>
            split at settled
            next does => rw [← does, decide_eq_true_iff]; exact eq_self_iff found
            next => cases settled
      | none =>
          refine ih ?_
          split at settled
          next => exact settled
          next =>
            split at settled
            next =>
              rcases Bool.or_eq_true_iff.1 settled with fits | later
              · obtain ⟨anywhere, inside⟩ := Bool.and_eq_true_iff.1 fits
                obtain ⟨r, found'⟩ :=
                  exists_inflected? (of_decide_eq_true anywhere) (has.of_allInside inside)
                rw [found] at found'
                cases found'
              · exact later
            next => cases settled

end EndingCase

/-- A pattern that settles something settles it for the plural. -/
theorem inflect_eq_self_iff {kept : Bool} {barred : List (List Letter)}
    (settled : EndingCase.settles kept barred p endingCases) (has : HasPattern p w.reverse)
    (free : ∀ q ∈ barred, ¬ HasPattern q w.reverse) : inflect w = w ↔ kept = true := by
  rw [inflect_eq]
  exact EndingCase.getD_findSome?_eq_iff settled has free

end SchemaHealth
