import SchemaHealth.Decimal.Numeral

/-!
# Which doubles are finite

The exponent of a double takes up eleven bits, and all of them are set exactly for the infinities
and for what is no number (`isFinite_unpack`). So a number is packed into a finite double when its
exponent is at most 971 (`Within.unpack_pack`), whatever its sign is (`isFinite_neg`).

The double nearest to a positive whole number below `2 ^ 1024` is normal, unless its mantissa is
rounded up beyond the largest one (`normal_ofNat`). That covers the whole numbers of 64 bits
(`isFinite_ofNat`) and the powers of ten up to `10 ^ 308` (`normal_ofNat_pow`).
-/

namespace SchemaHealth.Decimal

open Float.Model (UnpackedFloat Format)
open Float.Model.UnpackedFloat

variable {b : BitVec Format.binary64.numBits} {limit : Int} {u : UnpackedFloat}

/-- What bits with a given exponent field unpack to. -/
inductive HasField (field : Nat) : UnpackedFloat → Prop
  | infinity (full : field = 2047) (sign : Sign) : HasField field (.infinity sign)
  | notANumber (full : field = 2047) : HasField field .notANumber
  | zero (empty : field = 0) (sign : Sign) : HasField field (.zero sign)
  | subnormal (empty : field = 0) (sign : Sign) {mantissa : Nat} (positive : 0 < mantissa)
    (below : mantissa < leadingBit) : HasField field (.finite sign mantissa (-1074) positive)
  | normal (inside : 0 < field ∧ field < 2047) (sign : Sign) {mantissa : Nat}
    (positive : 0 < mantissa) (leading : leadingBit ≤ mantissa)
    (below : mantissa < 2 * leadingBit) :
    HasField field (.finite sign mantissa (field - 1075) positive)

/-- What bits unpack to is a number of the kind that their exponent field says. -/
theorem hasField_unpack (b : BitVec Format.binary64.numBits) :
    HasField (unpackExponent b).toNat (unpack .binary64 b) := by
  have bound : (unpackExponent b).toNat < 2048 := (unpackExponent b).isLt
  unfold unpack
  dsimp only
  by_cases full : unpackExponent b = -1#11
  · have last : (unpackExponent b).toNat = 2047 := congrArg BitVec.toNat full
    rw [if_pos full]
    by_cases none : unpackMantissa b = 0#52
    · rw [if_pos none]
      exact .infinity last _
    · rw [if_neg none]
      exact .notANumber last
  · have notLast : (unpackExponent b).toNat ≠ 2047 := fun last =>
      full (BitVec.eq_of_toNat_eq last)
    rw [if_neg full]
    by_cases empty : unpackExponent b = 0#11
    · have first : (unpackExponent b).toNat = 0 := congrArg BitVec.toNat empty
      rw [if_pos empty]
      by_cases none : unpackMantissa b = 0#52
      · rw [dif_pos none]
        exact .zero first _
      · rw [dif_neg none, first]
        exact .subnormal rfl _ _ (unpackMantissa b).isLt
    · have notFirst : (unpackExponent b).toNat ≠ 0 := fun first =>
        empty (BitVec.eq_of_toNat_eq first)
      have leading : leadingBit ≤ (1#1 ++ unpackMantissa b).toNat := by
        rw [BitVec.toNat_append]
        exact Nat.left_le_or
      rw [if_neg empty]
      exact .normal (by omega) _ _ leading (1#1 ++ unpackMantissa b).isLt

/-- The bits of a double stand for a finite one unless all bits of the exponent are set. -/
theorem isFinite_unpack (b : BitVec Format.binary64.numBits) :
    (unpack .binary64 b).isFinite ↔ (unpackExponent b).toNat < 2047 := by
  have shape := hasField_unpack b
  generalize unpack .binary64 b = u at shape ⊢
  cases shape with
  | infinity full => exact iff_of_false Bool.false_ne_true (by omega)
  | notANumber full => exact iff_of_false Bool.false_ne_true (by omega)
  | zero empty => exact iff_of_true rfl (by omega)
  | subnormal empty => exact iff_of_true rfl (by omega)
  | normal inside => exact iff_of_true rfl inside.2

/-- A zero, or a number `± m · 2 ^ e` with `e` at most a limit. -/
inductive Within (limit : Int) : UnpackedFloat → Prop
  | zero (sign : Sign) : Within limit (.zero sign)
  | finite (sign : Sign) {mantissa : Nat} {exponent : Int} (positive : 0 < mantissa)
    (le : exponent ≤ limit) : Within limit (.finite sign mantissa exponent positive)

/-- Bits whose exponent field is small unpack to a number within the limit. -/
theorem within_unpack (least : -1074 ≤ limit) (below : (unpackExponent b).toNat < 2047)
    (le : (unpackExponent b).toNat ≤ limit + 1075) : Within limit (unpack .binary64 b) := by
  have shape := hasField_unpack b
  generalize unpack .binary64 b = u at shape ⊢
  cases shape with
  | infinity full => omega
  | notANumber full => omega
  | zero _ sign => exact .zero sign
  | subnormal _ sign positive => exact .finite sign positive least
  | normal _ sign positive => exact .finite sign positive (by omega)

theorem mantissa_unpack_lt {sign : Sign} {mantissa : Nat} {exponent : Int}
    {positive : 0 < mantissa}
    (same : unpack .binary64 b = .finite sign mantissa exponent positive) :
    mantissa < 2 * leadingBit := by
  have shape := hasField_unpack b
  rw [same] at shape
  cases shape with
  | subnormal _ _ _ below => omega
  | normal _ _ _ _ below => exact below

/-- A change of sign stays within a limit. -/
theorem Within.neg (within : Within limit u) : Within limit u.neg := by
  cases within with
  | zero sign => exact .zero (-sign)
  | finite sign positive le => exact .finite (-sign) positive le

/-- The exponent of a packed number, which is zero for a mantissa of fewer than 53 bits. -/
theorem unpackExponent_pack_finite (sign : Sign) {mantissa : Nat} {exponent : Int}
    (positive : 0 < mantissa) (fits : exponent ≤ 971) :
    (unpackExponent (pack .binary64 (.finite sign mantissa exponent positive))).toNat
      = if mantissa.log2 = 52 then (exponent + 1075).toNat else 0 := by
  have bias : Format.binary64.exponentBias = 1023 := rfl
  have bits : Format.binary64.mantissaBits = 53 := rfl
  have room : ¬2 ^ 11 ≤ (exponent + Format.binary64.exponentBias + (52 : Nat)).toNat + 1 := by
    omega
  unfold pack
  dsimp only
  rw [if_neg room]
  split
  · rw [unpackExponent_packComponents, BitVec.toNat_ofNat, if_pos (by omega)]
    omega
  · rw [unpackExponent_packComponents, if_neg (by omega)]
    rfl

/-- Packing keeps the exponent within a limit that the doubles have. -/
theorem Within.unpack_pack (within : Within limit u) (least : -1074 ≤ limit)
    (fits : limit ≤ 971) : Within limit (unpack .binary64 (pack .binary64 u)) := by
  cases within with
  | zero sign =>
    have field : (unpackExponent (pack .binary64 (.zero sign))).toNat = 0 := by
      change (unpackExponent (packComponents .binary64 sign 0 0)).toNat = 0
      rw [unpackExponent_packComponents]
      rfl
    apply within_unpack least
    · omega
    · omega
  | finite sign positive le =>
    have field := unpackExponent_pack_finite sign positive (Int.le_trans le fits)
    apply within_unpack least
    · rw [field]
      split <;> omega
    · rw [field]
      split <;> omega

/-- What is within a limit is finite. -/
theorem Within.isFinite (within : Within limit u) : u.isFinite := by
  cases within with
  | zero => rfl
  | finite => rfl

theorem Within.mono {higher : Int} (within : Within limit u) (le : limit ≤ higher) :
    Within higher u := by
  cases within with
  | zero sign => exact .zero sign
  | finite sign positive below => exact .finite sign positive (Int.le_trans below le)

/-- Every finite double is within the greatest exponent. -/
theorem within_of_isFinite {x : Float} (finite : x.isFinite) : Within 971 x.toModel.unpack := by
  have below := (isFinite_unpack _).1 finite
  exact within_unpack (by decide) below (by omega)

/-- The opposite of a finite double is finite. -/
theorem isFinite_neg {x : Float} (finite : x.isFinite) : (-x).isFinite :=
  ((within_of_isFinite finite).neg.unpack_pack (by decide) (by decide)).isFinite

/-- A number `± m · 2 ^ e` whose `m` has 53 bits. -/
inductive Normal (exponent : Int) : UnpackedFloat → Prop
  | finite (sign : Sign) {mantissa : Nat} (positive : 0 < mantissa) (bits : mantissa.log2 = 52) :
    Normal exponent (.finite sign mantissa exponent positive)

theorem normal_unpack (positive : 0 < (unpackExponent b).toNat)
    (below : (unpackExponent b).toNat < 2047) :
    Normal ((unpackExponent b).toNat - 1075) (unpack .binary64 b) := by
  have shape := hasField_unpack b
  generalize unpack .binary64 b = u at shape ⊢
  cases shape with
  | infinity full => omega
  | notANumber full => omega
  | zero empty => omega
  | subnormal empty => omega
  | normal _ sign positive leading small =>
    exact .finite sign positive ((Nat.log2_eq_iff (Nat.ne_of_gt positive)).2 ⟨leading, small⟩)

theorem Normal.within {exponent : Int} (normal : Normal exponent u) (le : exponent ≤ limit) :
    Within limit u := by
  cases normal with
  | finite sign positive => exact .finite sign positive le

/-- A normal number keeps its exponent when it is packed and unpacked. -/
theorem Normal.unpack_pack {exponent : Int} (normal : Normal exponent u)
    (least : -1074 ≤ exponent) (fits : exponent ≤ 971) :
    Normal exponent (unpack .binary64 (pack .binary64 u)) := by
  cases normal with
  | finite sign positive bits =>
    have field := unpackExponent_pack_finite sign positive fits
    rw [if_pos bits] at field
    have same := normal_unpack (b := pack .binary64 (.finite sign _ exponent positive))
      (by omega) (by omega)
    rw [field] at same
    have cast : (((exponent + 1075).toNat : Nat) : Int) - 1075 = exponent := by omega
    rwa [cast] at same

/-- Bits with an exponent field that is neither zero nor full make a normal number. -/
theorem normal_ofBits (bits : UInt64) (low : leadingBit ≤ bits.toNat)
    (high : bits.toNat < 0x7FF * leadingBit) :
    Normal ((bits.toNat / leadingBit : Nat) - 1075) (Float.ofBits bits).toModel.unpack := by
  have field : (@unpackExponent .binary64 bits.toBitVec).toNat
      = bits.toNat / leadingBit := by
    change ((bits.toBitVec.extractLsb 62 52).cast _).toNat = _
    rw [BitVec.toNat_cast, BitVec.extractLsb_toNat]
    change bits.toNat >>> 52 % 2048 = _
    rw [Nat.shiftRight_eq_div_pow]
    unfold leadingBit at *
    omega
  have quotient : 0 < bits.toNat / leadingBit ∧ bits.toNat / leadingBit < 2047 := by
    unfold leadingBit at *
    omega
  have normal := normal_unpack (b := bits.toBitVec) (by omega) (by omega)
  rw [field] at normal
  exact normal.unpack_pack (by omega) (by omega)

/-- Rounding does not lead beyond a whole number that bounds the quotient. -/
theorem roundDiv_le {num den bound : Nat} (positive : 0 < den) (le : num ≤ bound * den) :
    roundDiv num den ≤ bound := by
  have error := (roundDiv_error num positive).1
  apply Nat.le_of_not_lt
  intro more
  have next : (bound + 1) * den ≤ roundDiv num den * den := Nat.mul_le_mul_right den more
  rw [Nat.add_mul] at next
  omega

/-- Rounding does not lead below a whole number that bounds the quotient. -/
theorem le_roundDiv {num den bound : Nat} (positive : 0 < den) (le : bound * den ≤ num) :
    bound ≤ roundDiv num den := by
  have error := (roundDiv_error num positive).2
  apply Nat.le_of_not_lt
  intro less
  have next : (roundDiv num den + 1) * den ≤ bound * den := Nat.mul_le_mul_right den less
  rw [Nat.add_mul] at next
  omega

theorem binaryOrder_one {n : Nat} (positive : 0 < n) : binaryOrder n 1 = n.log2 := by
  have least : 2 ^ n.log2 ≤ n := Nat.log2_self_le (Nat.ne_of_gt positive)
  have guess : (n.log2 : Int) - Nat.log2 1 = n.log2 := by
    rw [show Nat.log2 1 = 0 from rfl]
    omega
  unfold binaryOrder
  simp [guess]
  omega

/-- The mantissa of the double nearest to a whole number. -/
def mantissaOf (n : Nat) : Nat :=
  roundDiv (n * Nat.pow 2 (52 - n.log2)) (1 * Nat.pow 2 (n.log2 - 52))

/-- The mantissa of a positive number has its leading bit. -/
theorem le_mantissaOf {n : Nat} (positive : 0 < n) : leadingBit ≤ mantissaOf n := by
  have least : 2 ^ n.log2 ≤ n := Nat.log2_self_le (Nat.ne_of_gt positive)
  have scale : 2 ^ 52 * (1 * 2 ^ (n.log2 - 52)) = 2 ^ n.log2 * 2 ^ (52 - n.log2) := by
    rw [Nat.one_mul, ← Nat.pow_add, ← Nat.pow_add]
    congr 1
    omega
  apply le_roundDiv
  · rw [Nat.one_mul]
    exact Nat.two_pow_pos _
  · exact Nat.le_trans (Nat.le_of_eq scale) (Nat.mul_le_mul_right _ least)

/-- A mantissa is at most rounded up to twice the leading bit. -/
theorem mantissaOf_le (n : Nat) : mantissaOf n ≤ 2 * leadingBit := by
  have below : n ≤ 2 ^ (n.log2 + 1) := Nat.le_of_lt Nat.lt_log2_self
  have scale : 2 ^ (n.log2 + 1) * 2 ^ (52 - n.log2) = 2 ^ 53 * (1 * 2 ^ (n.log2 - 52)) := by
    rw [← Nat.pow_add, Nat.one_mul, ← Nat.pow_add]
    congr 1
    omega
  apply roundDiv_le
  · rw [Nat.one_mul]
    exact Nat.two_pow_pos _
  · exact Nat.le_trans (Nat.mul_le_mul_right _ below) (Nat.le_of_eq scale)

/-- The double nearest to a positive whole number has the exponent `log2 n + 1023`, or one more
where the mantissa is rounded up to `2 ^ 53`. -/
theorem ofNat_eq {n : Nat} (positive : 0 < n) :
    ofNat n = Float.ofBits (UInt64.ofNat (min
      ((n.log2 + 1023) * leadingBit + (mantissaOf n - leadingBit)) (0x7FF * leadingBit))) := by
  have exponent : max (-1074) (binaryOrder n 1 - 52) = (n.log2 : Int) - 52 := by
    rw [binaryOrder_one positive]
    omega
  have down : (-((n.log2 : Int) - 52)).toNat = 52 - n.log2 := by omega
  have up : ((n.log2 : Int) - 52).toNat = n.log2 - 52 := by omega
  have biased : ((n.log2 : Int) - 52 + 1075).toNat = n.log2 + 1023 := by omega
  have normal : ¬mantissaOf n < leadingBit := Nat.not_lt.2 (le_mantissaOf positive)
  unfold ofNat nearest
  rw [if_neg (Nat.ne_of_gt positive)]
  dsimp only
  rw [exponent, down, up, biased, ← mantissaOf, if_neg normal]

/-- A positive number that does not round up to `2 ^ 1024` is a normal double, whose exponent is
that of its order or the next one. -/
theorem normal_ofNat {n : Nat} (positive : 0 < n) (order : n.log2 ≤ 1023)
    (last : n.log2 = 1023 → mantissaOf n < 2 * leadingBit) :
    ∃ exponent, (n.log2 : Int) - 52 ≤ exponent ∧ exponent ≤ min (n.log2 - 51) 971 ∧
      Normal exponent (ofNat n).toModel.unpack := by
  have low := le_mantissaOf positive
  have high := mantissaOf_le n
  generalize bits : (n.log2 + 1023) * leadingBit + (mantissaOf n - leadingBit) = word
  have below : word < 0x7FF * leadingBit := by
    unfold leadingBit at *
    omega
  have size : 0x7FF * leadingBit < UInt64.size := by decide
  have same : (UInt64.ofNat word).toNat = word :=
    UInt64.toNat_ofNat_of_lt' (Nat.lt_trans below size)
  have normal := normal_ofBits (UInt64.ofNat word)
  rw [same] at normal
  refine ⟨(word / leadingBit : Nat) - 1075, ?_, ?_, ?_⟩
  · unfold leadingBit at *
    omega
  · unfold leadingBit at *
    omega
  · rw [ofNat_eq positive, bits, Nat.min_eq_left (Nat.le_of_lt below)]
    apply normal
    · unfold leadingBit at *
      omega
    · exact below

theorem log2_pow_lt (most : Nat) {k bits : Nat} (le : k ≤ most)
    (below : Nat.pow 10 most < Nat.pow 2 bits) :
    (Nat.pow 10 k).log2 < bits := by
  have positive : 0 < Nat.pow 10 k := Nat.pow_pos (by decide)
  have growing : Nat.pow 10 k ≤ Nat.pow 10 most := Nat.pow_le_pow_right (by decide) le
  exact (Nat.log2_lt (Nat.ne_of_gt positive)).2 (Nat.lt_of_le_of_lt growing below)

/-- The powers of ten up to `10 ^ 308` are normal doubles. -/
theorem normal_ofNat_pow {k : Nat} (fits : k ≤ 308) :
    ∃ exponent, ((Nat.pow 10 k).log2 : Int) - 52 ≤ exponent ∧ exponent ≤ 971 ∧
      Normal exponent (ofNat (Nat.pow 10 k)).toModel.unpack := by
  have order : (Nat.pow 10 k).log2 < 1024 := log2_pow_lt 308 fits (by decide +kernel)
  have last : (Nat.pow 10 k).log2 = 1023 → mantissaOf (Nat.pow 10 k) < 2 * leadingBit := by
    intro top
    by_cases largest : k = 308
    · subst largest
      decide +kernel
    · have below : (Nat.pow 10 k).log2 < 1020 :=
        log2_pow_lt 307 (by omega) (by decide +kernel)
      omega
  obtain ⟨exponent, low, high, normal⟩ :=
    normal_ofNat (Nat.pow_pos (by decide)) (Nat.le_of_lt_succ order) last
  exact ⟨exponent, low, by omega, normal⟩

/-- The double of a word has a small exponent. -/
theorem within_ofNat {n : Nat} (fits : n ≤ largestWord) : Within 12 (ofNat n).toModel.unpack := by
  by_cases zero : n = 0
  · subst zero
    exact .zero .positive
  · have order : n.log2 < 64 := (Nat.log2_lt zero).2 (Nat.lt_succ_of_le fits)
    obtain ⟨exponent, -, high, normal⟩ :=
      normal_ofNat (Nat.pos_of_ne_zero zero) (by omega) (by omega)
    exact normal.within (by omega)

/-- The double nearest to a whole number of 64 bits is finite. -/
theorem isFinite_ofNat {n : Nat} (fits : n ≤ largestWord) : (ofNat n).isFinite :=
  (within_ofNat fits).isFinite

end SchemaHealth.Decimal
