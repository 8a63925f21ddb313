import SchemaHealth.Proofs.Decimal.Finite

/-!
# The value of a numeral is finite

A numeral is read as its leading digits times a power of ten. A product of finite doubles is finite
or infinite (`isFinite_mul`), and an infinite one is refused. A quotient cannot become infinite:
rounding raises the exponent by three at most (`within_roundWithAccuracy`), and the powers of ten
that are divided by are not below one (`within_scaleDown`). So whatever is read is a whole number of
64 bits or a finite double (`fits_of_value?`).
-/

namespace SchemaHealth.Decimal

open Float.Model (UnpackedFloat Format totalExponent)
open Float.Model.UnpackedFloat

variable {limit exponent : Int} {u v : UnpackedFloat}

theorem targetExponent_eq (total : Int) :
    Format.binary64.targetExponent total = max (total - 53) (-1074) := rfl

/-- A shift to the right makes no mantissa larger. -/
theorem mantissa_shiftRight_le (em : ExtendedMantissa) (places : Nat) :
    (em >>> places).mantissa ≤ em.mantissa := by
  induction places with
  | zero => exact Nat.le_refl _
  | succ places ih => exact Nat.le_trans (Nat.div_le_self _ 2) ih

/-- Rounding adds one to a mantissa at most. -/
theorem roundedMantissa_le (em : ExtendedMantissa) : em.roundedMantissa ≤ em.mantissa + 1 := by
  unfold ExtendedMantissa.roundedMantissa Accuracy.roundToNearestEven
  split
  · omega
  · omega
  · omega
  · omega

theorem mantissa_ofMantissaAndAccuracy (mantissa : Nat) (accuracy : Accuracy) :
    (ExtendedMantissa.ofMantissaAndAccuracy mantissa accuracy).mantissa = mantissa := by
  unfold ExtendedMantissa.ofMantissaAndAccuracy
  split <;> rfl

theorem mantissa_shiftToExponent_le (mantissa : Nat) (exponent target : Int)
    (accuracy : Accuracy) :
    (shiftToExponent mantissa exponent accuracy target).1.mantissa ≤ mantissa := by
  have le := mantissa_shiftRight_le (.ofMantissaAndAccuracy mantissa accuracy)
    (target - exponent).toNat
  rwa [mantissa_ofMantissaAndAccuracy] at le

/-- A shift to the exponent of the format raises the exponent by the surplus of bits at most. -/
theorem exponent_shiftToTargetExponent_le (bits : Nat) {mantissa : Nat} (exponent : Int)
    (accuracy : Accuracy) (least : 52 ≤ bits) (small : mantissa < Nat.pow 2 (bits + 1)) :
    (shiftToTargetExponent .binary64 mantissa exponent accuracy).2
      ≤ max exponent (-1074) + (bits - 52) := by
  have log : mantissa.log2 ≤ bits := by
    by_cases zero : mantissa = 0
    · subst zero
      simp
    · exact Nat.le_of_lt_succ ((Nat.log2_lt zero).2 small)
  change exponent + ((Format.binary64.targetExponent (totalExponent mantissa exponent)
    - exponent).toNat : Int) ≤ _
  rw [targetExponent_eq, totalExponent]
  omega

/-- Rounding a mantissa of 54 bits raises the exponent by three at most. -/
theorem within_roundWithAccuracy {sign : Sign} {mantissa : Nat} {accuracy : Accuracy}
    (small : mantissa < 4 * leadingBit) :
    Within (max exponent (-1074) + 3)
      (roundWithAccuracy .binary64 sign mantissa exponent accuracy) := by
  unfold roundWithAccuracy
  -- The mantissa is shifted, rounded, and shifted once more since rounding may carry.
  have first := exponent_shiftToTargetExponent_le 53 exponent accuracy (by decide) small
  have shrunk : (shiftToTargetExponent .binary64 mantissa exponent accuracy).1.mantissa
      ≤ mantissa := mantissa_shiftToExponent_le ..
  generalize shiftToTargetExponent .binary64 mantissa exponent accuracy = shifted at first shrunk
  have rounded := roundedMantissa_le shifted.1
  have carried : shifted.1.roundedMantissa < Nat.pow 2 55 := by
    change _ < 8 * leadingBit
    unfold leadingBit at *
    omega
  have second := exponent_shiftToTargetExponent_le 54 shifted.2 .exact (by decide) carried
  dsimp only
  by_cases none : (shiftToTargetExponent .binary64 shifted.1.roundedMantissa shifted.2
    .exact).1.mantissa = 0
  · rw [dif_pos none]
    exact .zero sign
  · rw [dif_neg none]
    exact .finite sign _ (by omega)

/-- The quotient of a double and a normal one before rounding: its mantissa has 54 bits. -/
theorem divCore_lt {m₁ m₂ : Nat} (e₁ e₂ : Int) (small : m₁.log2 ≤ 52) (normal : m₂.log2 = 52)
    (positive : m₂ ≠ 0) :
    (divCore .binary64 m₁ e₁ m₂ e₂).1 < 4 * leadingBit ∧
      (divCore .binary64 m₁ e₁ m₂ e₂).2.1 ≤ max (e₁ - e₂ - 53) (-1074) := by
  have least : 2 ^ 52 ≤ m₂ := normal ▸ Nat.log2_self_le positive
  have most : m₁ < 2 ^ (m₁.log2 + 1) := Nat.lt_log2_self
  unfold divCore totalExponent
  dsimp only
  rw [targetExponent_eq, normal]
  constructor
  · generalize places : (_ : Int).toNat = shift
    have room : m₁.log2 + 1 + shift ≤ 106 := by omega
    apply (Nat.div_lt_iff_lt_mul (Nat.pos_of_ne_zero positive)).2
    rw [Nat.shiftLeft_eq]
    calc m₁ * 2 ^ shift
        < 2 ^ (m₁.log2 + 1) * 2 ^ shift := Nat.mul_lt_mul_of_pos_right most (Nat.two_pow_pos _)
      _ = 2 ^ (m₁.log2 + 1 + shift) := (Nat.pow_add ..).symm
      _ ≤ 2 ^ 106 := Nat.pow_le_pow_right (by decide) room
      _ ≤ 2 ^ 54 * m₂ := Nat.mul_le_mul_left (2 ^ 54) least
  · omega

/-- A quotient by a normal double. The larger the divisor's exponent, the smaller the quotient's. -/
theorem within_div {x y : Float} (within : Within limit x.toModel.unpack)
    (normal : Normal exponent y.toModel.unpack) (room : limit - exponent ≤ 1021) :
    Within (max (limit - exponent - 53) (-1074) + 3) (x / y).toModel.unpack := by
  have quotient : Within (max (limit - exponent - 53) (-1074) + 3)
      (div .binary64 x.toModel.unpack y.toModel.unpack) := by
    generalize y.toModel.unpack = v at normal ⊢
    generalize dividend : x.toModel.unpack = u at within ⊢
    cases normal with
    | @finite s₂ m₂ positive₂ bits =>
      cases within with
      | zero s₁ => exact .zero (s₁ / s₂)
      | @finite s₁ m₁ e₁ positive₁ le =>
        have small : m₁.log2 ≤ 52 := Nat.le_of_lt_succ
          ((Nat.log2_lt (Nat.ne_of_gt positive₁)).2 (mantissa_unpack_lt dividend))
        obtain ⟨lt, target⟩ := divCore_lt e₁ exponent small bits (Nat.ne_of_gt positive₂)
        have raised : max (divCore .binary64 m₁ e₁ m₂ exponent).2.1 (-1074) + 3
            ≤ max (limit - exponent - 53) (-1074) + 3 := by omega
        exact (within_roundWithAccuracy lt).mono raised
  exact quotient.unpack_pack (by omega) (by omega)

/-- A division by `10 ^ 308` lowers the exponent, so only the last one can raise it. -/
theorem within_scaleDown {x : Float} (within : Within 12 x.toModel.unpack) (power : Nat) :
    Within 14 (scaleDown x power).toModel.unpack := by
  fun_induction scaleDown x power with
  | case1 x power le =>
    obtain ⟨exponent, low, -, normal⟩ := normal_ofNat_pow le
    exact (within_div within normal (by omega)).mono (by omega)
  | case2 x power => exact within.mono (by decide)
  | case3 x power more nonzero ih =>
    have order : (Nat.pow 10 308).log2 = 1023 := by decide +kernel
    generalize largest : 308 = k at order ih ⊢
    obtain ⟨exponent, low, -, normal⟩ := normal_ofNat_pow (Nat.le_of_eq largest.symm)
    exact ih ((within_div within normal (by omega)).mono (by omega))

theorem isInf_unpack_packedInfinity (sign : Sign) :
    (unpack .binary64 (packedInfinity .binary64 sign)).isInf := by
  cases sign with
  | negative => decide
  | positive => decide

/-- A finite number is within some limit. -/
theorem exists_within (finite : u.isFinite) : ∃ limit, Within limit u := by
  cases u with
  | infinity => exact absurd finite Bool.false_ne_true
  | notANumber => exact absurd finite Bool.false_ne_true
  | zero sign => exact ⟨0, .zero sign⟩
  | finite sign _ exponent positive => exact ⟨exponent, .finite sign positive (Int.le_refl _)⟩

/-- A finite number is finite or infinite when it is packed, but never no number. -/
theorem isFinite_or_isInf_unpack_pack (finite : u.isFinite) :
    (unpack .binary64 (pack .binary64 u)).isFinite ∨
      (unpack .binary64 (pack .binary64 u)).isInf := by
  by_cases within : Within 971 u
  · exact .inl (within.unpack_pack (by decide) (by decide)).isFinite
  · obtain ⟨limit, beyond⟩ := exists_within finite
    cases beyond with
    | zero sign => exact absurd (.zero sign) within
    | @finite sign mantissa exponent positive =>
      have above : ¬exponent ≤ 971 := fun le => within (.finite sign positive le)
      have bias : Format.binary64.exponentBias = 1023 := rfl
      have full : 2 ^ 11 ≤ (exponent + Format.binary64.exponentBias + (52 : Nat)).toNat + 1 := by
        omega
      unfold pack
      dsimp only
      rw [if_pos full]
      exact .inr (isInf_unpack_packedInfinity sign)

/-- Rounding a mantissa gives a finite number. -/
theorem isFinite_roundWithAccuracy (sign : Sign) (mantissa : Nat) (exponent : Int)
    (accuracy : Accuracy) :
    (roundWithAccuracy .binary64 sign mantissa exponent accuracy).isFinite := by
  unfold roundWithAccuracy
  dsimp only
  generalize (shiftToTargetExponent .binary64 _ _ .exact).1.mantissa = rounded
  by_cases none : rounded = 0
  · rw [dif_pos none]
    rfl
  · rw [dif_neg none]
    rfl

/-- The product of finite numbers is finite before it is packed. -/
theorem isFinite_mul_unpacked (left : u.isFinite) (right : v.isFinite) :
    (mul .binary64 u v).isFinite := by
  obtain ⟨_, left⟩ := exists_within left
  obtain ⟨_, right⟩ := exists_within right
  cases left with
  | zero =>
    cases right with
    | zero => rfl
    | finite => rfl
  | finite =>
    cases right with
    | zero => rfl
    | finite => exact isFinite_roundWithAccuracy ..

/-- A product of finite doubles that is not infinite is finite. -/
theorem isFinite_mul {x y : Float} (left : x.isFinite) (right : y.isFinite)
    (bounded : ¬(x * y).isInf) : (x * y).isFinite := by
  rcases isFinite_or_isInf_unpack_pack (isFinite_mul_unpacked left right) with finite | infinite
  · exact finite
  · exact absurd infinite bounded

/-- A scaled number is finite. -/
theorem isFinite_of_scaled? {digits : Nat} {power : Int} {x : Float} (fits : digits ≤ largestWord)
    (read : scaled? digits power = some x) : x.isFinite := by
  have finite := isFinite_ofNat fits
  unfold scaled? at read
  dsimp only at read
  split at read
  next negative =>
    cases read
    exact (within_scaleDown (within_ofNat fits) _).isFinite
  next =>
    split at read
    next zero =>
      cases read
      exact finite
    next =>
      split at read
      next tooLarge => cases read
      next le =>
        split at read
        next infinite => cases read
        next bounded =>
          cases read
          obtain ⟨exponent, -, high, normal⟩ := normal_ofNat_pow (k := power.toNat) (by omega)
          exact isFinite_mul finite (normal.within high).isFinite bounded

/-- The magnitude of a numeral is finite. -/
theorem isFinite_of_magnitude? {n : Numeral} {x : Float} (read : n.magnitude? = some x) :
    x.isFinite := by
  have nothing : 0 ≤ largestWord := Nat.zero_le _
  have whole := absorb_le nothing n.whole
  have fits := absorb_le whole (n.fraction.getD [])
  unfold Numeral.magnitude? at read
  dsimp only at read
  split at read
  next => exact isFinite_of_scaled? fits read
  next =>
    split at read
    next =>
      split at read
      next =>
        cases read
        decide
      next => cases read
    next => exact isFinite_of_scaled? fits read

/-- Whether a JSON value may hold a number. A whole number has to fit 64 bits, with a sign or
without one, and a double has to be finite. -/
def Number.Fits : Number → Prop
  | .int n => -signLimit ≤ n ∧ n ≤ largestWord
  | .real x => x.isFinite

/-- A numeral read as a double has a value that fits. -/
theorem fits_of_real? {n : Numeral} {value : Number} (read : n.real? = some value) :
    value.Fits := by
  obtain ⟨x, magnitude, rfl⟩ := Option.map_eq_some_iff.1 read
  have finite := isFinite_of_magnitude? magnitude
  change Float.isFinite (if n.negative then -x else x)
  split
  · exact isFinite_neg finite
  · exact finite

/-- The value of a numeral fits. -/
theorem fits_of_value? {n : Numeral} {value : Number} (read : n.value? = some value) :
    value.Fits := by
  unfold Numeral.value? at read
  dsimp only at read
  split at read
  next => exact fits_of_real? read
  next =>
    split at read
    next =>
      split at read
      next => exact fits_of_real? read
      next small =>
        cases read
        change _ ∧ _
        unfold signLimit largestWord at *
        omega
    next =>
      split at read
      next small =>
        cases read
        change _ ∧ _
        unfold signLimit largestWord at *
        omega
      next => exact fits_of_real? read

end SchemaHealth.Decimal
