import SchemaHealth.Decimal.Rounding

/-!
# Double-precision numbers as integers times powers of two

A finite double is `± m · 2 ^ q`. `parts` reads sign, `m` and `q` off the bits, and `nearest`
goes back: it is the double nearest to a fraction, the one with an even last bit of two equally
near, and infinity beyond the largest double.
-/

namespace SchemaHealth.Decimal

/-- A finite double without its sign: `mantissa · 2 ^ exponent`. -/
structure Binary where
  mantissa : Nat
  exponent : Int
deriving Repr, DecidableEq

/-- The leading bit of a normal mantissa, `2 ^ 52`. -/
def leadingBit : Nat := 0x10000000000000

/-- Whether the sign bit of a double is set. -/
def isNegative (x : Float) : Bool := x.toBits >>> 63 == 1

/-- The absolute value of a finite double. -/
def parts (x : Float) : Binary :=
  let field := ((x.toBits >>> 52) &&& 0x7FF).toNat
  let fraction := (x.toBits &&& 0xFFFFFFFFFFFFF).toNat
  if field = 0 then ⟨fraction, -1074⟩ else ⟨leadingBit + fraction, field - 1075⟩

/-- The largest `k` with `2 ^ k ≤ num / den`, for positive `num` and `den`. -/
def binaryOrder (num den : Nat) : Int :=
  let guess : Int := num.log2 - den.log2
  if num * Nat.pow 2 (-guess).toNat < den * Nat.pow 2 guess.toNat then guess - 1 else guess

/-- The double nearest to `num / den`, for positive `den`. -/
def nearest (num den : Nat) : Float :=
  if num = 0 then 0
  else
    let exponent := max (-1074) (binaryOrder num den - 52)
    let mantissa :=
      roundDiv (num * Nat.pow 2 (-exponent).toNat) (den * Nat.pow 2 exponent.toNat)
    let bits :=
      if mantissa < leadingBit then mantissa
      else (exponent + 1075).toNat * leadingBit + (mantissa - leadingBit)
    Float.ofBits (UInt64.ofNat (min bits (0x7FF * leadingBit)))

/-- The double nearest to a whole number. -/
def ofNat (n : Nat) : Float := nearest n 1

/-- The double nearest to `digits · 10 ^ exponent`. Exponents that lead out of the range of doubles
whatever the digits are cut, which keeps the powers small. -/
def ofScientific (digits : Nat) (exponent : Int) : Float :=
  let order : Int := (Nat.toDigits 10 digits).length + exponent
  if digits = 0 ∨ order < -400 then 0
  else if 400 < order then 1.0 / 0.0
  else nearest (digits * Nat.pow 10 exponent.toNat) (Nat.pow 10 (-exponent).toNat)

end SchemaHealth.Decimal
