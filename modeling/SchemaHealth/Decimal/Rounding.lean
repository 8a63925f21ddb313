/-!
# Rounding a quotient

`roundDiv num den` is the integer nearest to `num / den`; a quotient halfway between two integers
goes to the even one. `roundDiv_error` bounds the error by half a unit, and `roundDiv_mul` says
that an exact quotient is kept.
-/

namespace SchemaHealth.Decimal

/-- The integer nearest to `num / den`, the even one of two equally near. -/
def roundDiv (num den : Nat) : Nat :=
  let below := num / den
  let rest := 2 * (num % den)
  if rest < den then below
  else if den < rest then below + 1
  else below + below % 2

theorem roundDiv_mul (n : Nat) {den : Nat} (positive : 0 < den) : roundDiv (n * den) den = n := by
  simp [roundDiv, Nat.mul_div_cancel n positive, positive]

/-- The rounded quotient is at most half a unit off. -/
theorem roundDiv_error (num : Nat) {den : Nat} (positive : 0 < den) :
    2 * (roundDiv num den * den) ≤ 2 * num + den ∧
      2 * num ≤ 2 * (roundDiv num den * den) + den := by
  have split := Nat.div_add_mod num den
  rw [Nat.mul_comm] at split
  have parity : num / den % 2 = 0 ∨ num / den % 2 = 1 := by omega
  simp only [roundDiv]
  split
  · omega
  · split
    · have below : num % den < den := Nat.mod_lt _ positive
      rw [Nat.add_mul]
      omega
    · rcases parity with even | odd
      · rw [even, Nat.add_zero]
        omega
      · rw [odd, Nat.add_mul]
        omega

/-- A tie goes to the even neighbour. -/
theorem roundDiv_tie {num den : Nat} (tie : 2 * (num % den) = den) :
    roundDiv num den % 2 = 0 := by
  simp only [roundDiv, tie, Nat.lt_irrefl, if_false]
  omega

end SchemaHealth.Decimal
