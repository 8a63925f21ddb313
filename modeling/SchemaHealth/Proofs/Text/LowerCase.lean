import SchemaHealth.Text.Blank
import SchemaHealth.Text.Case

/-!
# Letters that are in lower case already

The tables of letter case and of white space do not overlap: a lower-case letter is no upper-case
letter (`isUppercase_of_isLowercase`), is no white space (`isBlank_of_isLowercase`), and is lowered
to itself (`lowered_of_isLowercase`). That is found by comparing the runs of the tables two by two.
-/

namespace SchemaHealth.Text

variable {n : Nat} {c : Char} {r s : Nat × Nat × Nat} {runs : List (Nat × Nat × Nat)}

/-! ## Runs that lie apart -/

/-- Whether a run leaves out the neighbours of its code points. -/
def isSparse (r : Nat × Nat × Nat) : Bool := r.2.2 == 2 || r.1 == r.2.1

/-- Whether two runs lie apart: one ends before the other starts, or both are sparse and start at
an odd distance. -/
def areApart (r s : Nat × Nat × Nat) : Bool :=
  -- Tables are compared run by run, so the tests are those that the kernel computes at once.
  Nat.blt r.2.1 s.1 || Nat.blt s.2.1 r.1 || (isSparse r && isSparse s && (r.1 + s.1) % 2 == 1)

/-- The code points of a sparse run are all even or all odd. -/
theorem parity_of_isSparse (sparse : isSparse r) (on : inRun r n) : n % 2 = r.1 % 2 := by
  obtain ⟨first, last, stride⟩ := r
  simp only [inRun, Bool.and_eq_true, decide_eq_true_eq, beq_iff_eq] at on
  simp only [isSparse, Bool.or_eq_true, beq_iff_eq] at sparse
  rcases sparse with rfl | rfl
  · omega
  · omega

/-- Runs that lie apart share no code point. -/
theorem inRun_eq_false_of_areApart (apart : areApart r s) (on : inRun r n) :
    inRun s n = false := by
  rw [Bool.eq_false_iff]
  intro also
  have within : r.1 ≤ n ∧ n ≤ r.2.1 ∧ s.1 ≤ n ∧ n ≤ s.2.1 := by
    simp only [inRun, Bool.and_eq_true, decide_eq_true_eq] at on also
    exact ⟨on.1.1, on.1.2, also.1.1, also.1.2⟩
  simp only [areApart, Bool.or_eq_true, Bool.and_eq_true, Nat.blt_eq, beq_iff_eq] at apart
  rcases apart with (before | after) | ⟨⟨sparse, sparse'⟩, odd⟩
  · omega
  · omega
  · have parity := parity_of_isSparse sparse on
    have parity' := parity_of_isSparse sparse' also
    omega

/-- A code point on one of some runs lies on no run that is apart from all of them. -/
theorem inRun_eq_false (apart : runs.all fun r => areApart r s) (on : inRuns runs n) :
    inRun s n = false := by
  obtain ⟨r, mem, here⟩ := List.any_eq_true.1 on
  exact inRun_eq_false_of_areApart (List.all_eq_true.1 apart r mem) here

theorem apart_upperRuns : (upperRuns.all fun s => lowerRuns.all fun r => areApart r s) = true := by
  decide +kernel

theorem apart_loweringRuns :
    (loweringRuns.all fun s => lowerRuns.all fun r => areApart r s.1) = true := by
  decide +kernel

/-- The white space beyond ASCII. -/
def blankRuns : List (Nat × Nat × Nat) :=
  [(0x85, 0x85, 1), (0xA0, 0xA0, 1), (0x1680, 0x1680, 1), (0x2000, 0x200A, 1),
    (0x2028, 0x2029, 1), (0x202F, 0x202F, 1), (0x205F, 0x205F, 1), (0x3000, 0x3000, 1)]

theorem apart_blankRuns : (blankRuns.all fun s => lowerRuns.all fun r => areApart r s) = true := by
  decide +kernel

theorem inRuns_blankRuns (blank : isBlank c) (beyond : ¬ c.toNat < 0x80) :
    inRuns blankRuns c.toNat := by
  simp only [isBlank, Bool.or_eq_true, Bool.and_eq_true, decide_eq_true_eq, beq_iff_eq] at blank
  simp only [inRuns, blankRuns, inRun, List.any_cons, List.any_nil, Bool.or_eq_true,
    Bool.and_eq_true, decide_eq_true_eq, beq_iff_eq]
  omega

/-! ## Letters of ASCII -/

theorem isLower_iff : c.isLower ↔ 97 ≤ c.toNat ∧ c.toNat ≤ 122 := by
  unfold Char.isLower
  simp [UInt32.le_iff_toNat_le, ← Char.toNat_val]

theorem isUpper_iff : c.isUpper ↔ 65 ≤ c.toNat ∧ c.toNat ≤ 90 := by
  unfold Char.isUpper
  simp [UInt32.le_iff_toNat_le, ← Char.toNat_val]

theorem toLower_of_not_isUpper (other : ¬ c.isUpper) : c.toLower = c := by
  unfold Char.isUpper at other
  unfold Char.toLower
  exact dif_neg (by simpa using other)

theorem isLower_toLower (upper : c.isUpper) : c.toLower.isLower := by
  have bounds := isUpper_iff.1 upper
  have code : c.toLower.toNat = c.toNat + 32 := by
    unfold Char.isUpper at upper
    unfold Char.toLower
    rw [dif_pos (by simpa using upper)]
    simp only [← Char.toNat_val, UInt32.toNat_add] at bounds ⊢
    have distance : ('a'.val - 'A'.val).toNat = 32 := by decide
    omega
  rw [isLower_iff, code]
  omega

theorem isUppercase_of_isUpper (upper : c.isUpper) : isUppercase c = true := by
  have ascii : c.toNat < 0x80 := by
    have := (isUpper_iff.1 upper).2
    omega
  rw [isUppercase, if_pos ascii, upper]

theorem lowered_of_isUpper (upper : c.isUpper) : lowered c = [c.toLower] := by
  have ascii : c.toNat < 0x80 := by
    have := (isUpper_iff.1 upper).2
    omega
  exact lowered_of_ascii ascii

theorem isBlank_of_isUpper (upper : c.isUpper) : isBlank c = false := by
  have bounds := isUpper_iff.1 upper
  rw [Bool.eq_false_iff]
  intro blank
  simp only [isBlank, Bool.or_eq_true, Bool.and_eq_true, decide_eq_true_eq, beq_iff_eq] at blank
  omega

theorem isLowercase_of_isLower (lower : c.isLower) : isLowercase c = true := by
  have ascii : c.toNat < 0x80 := by
    have := (isLower_iff.1 lower).2
    omega
  rw [isLowercase, if_pos ascii, lower]

/-! ## Lower-case letters -/

/-- A lower-case letter is one of ASCII, or lies beyond it in the table. -/
theorem isLower_or_inRuns (lower : isLowercase c) :
    c.isLower ∨ ¬ c.toNat < 0x80 ∧ inRuns lowerRuns c.toNat := by
  by_cases ascii : c.toNat < 0x80
  · rw [isLowercase, if_pos ascii] at lower
    exact .inl lower
  · rw [isLowercase, if_neg ascii] at lower
    exact .inr ⟨ascii, lower⟩

/-- No lower-case letter is an upper-case one. -/
theorem isUppercase_of_isLowercase (lower : isLowercase c) : isUppercase c = false := by
  rcases isLower_or_inRuns lower with letter | ⟨beyond, listed⟩
  · have bounds := isLower_iff.1 letter
    have ascii : c.toNat < 0x80 := by omega
    rw [isUppercase, if_pos ascii, Bool.eq_false_iff, ne_eq, isUpper_iff]
    omega
  · rw [isUppercase, if_neg beyond, inRuns, List.any_eq_false]
    intro s mem
    rw [inRun_eq_false (List.all_eq_true.1 apart_upperRuns s mem) listed]
    exact Bool.false_ne_true

/-- No lower-case letter is white space. -/
theorem isBlank_of_isLowercase (lower : isLowercase c) : isBlank c = false := by
  rw [Bool.eq_false_iff]
  intro blank
  rcases isLower_or_inRuns lower with letter | ⟨beyond, listed⟩
  · have bounds := isLower_iff.1 letter
    simp only [isBlank, Bool.or_eq_true, Bool.and_eq_true, decide_eq_true_eq, beq_iff_eq] at blank
    omega
  · obtain ⟨s, mem, on⟩ := List.any_eq_true.1 (inRuns_blankRuns blank beyond)
    rw [inRun_eq_false (List.all_eq_true.1 apart_blankRuns s mem) listed] at on
    cases on

/-- A letter in lower case stays as it is. -/
theorem lowered_of_isLowercase (lower : isLowercase c) : lowered c = [c] := by
  rcases isLower_or_inRuns lower with letter | ⟨beyond, listed⟩
  · have bounds := isLower_iff.1 letter
    have ascii : c.toNat < 0x80 := by omega
    have notUpper : ¬ c.isUpper := by
      rw [isUpper_iff]
      omega
    rw [lowered_of_ascii ascii, toLower_of_not_isUpper notUpper]
  · have notSpecial : c ≠ 'İ' := by
      rintro rfl
      revert listed
      decide +kernel
    have notFound : loweringRuns.find? (fun run => inRun run.1 c.toNat) = none := by
      rw [List.find?_eq_none]
      intro s mem
      rw [inRun_eq_false (List.all_eq_true.1 apart_loweringRuns s mem) listed]
      exact Bool.false_ne_true
    rw [lowered, if_neg beyond, if_neg notSpecial, notFound]

/-- A text in lower case is lowered to itself. -/
theorem lowercase_of_isLowercase {cs : List Char} (lower : ∀ c ∈ cs, isLowercase c) :
    lowercase cs = cs := by
  induction cs with
  | nil => rfl
  | cons c cs ih =>
      obtain ⟨first, others⟩ := List.forall_mem_cons.1 lower
      rw [lowercase, List.flatMap_cons, lowered_of_isLowercase first, ← lowercase, ih others]
      rfl

end SchemaHealth.Text
