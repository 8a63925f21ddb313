import SchemaHealth.Decimal.Double

/-!
# The shortest decimal of a double

Every double has an interval of reals that read back as it: up to half the distance to its
neighbours, the ends included when the mantissa is even. `shortest` finds the decimal with the
fewest digits in that interval, and of those with equally few the one nearest to the double; of
two equally near it takes the even one.

A decimal has few digits when it is a multiple of a large power of ten, so the search goes down
the powers of ten from above the number. On each grid only the two neighbours of the number are
tried: if any multiple lies in the interval, one of them does.
-/

namespace SchemaHealth.Decimal

/-- The decimal `digits · 10 ^ exponent`. -/
structure Scaled where
  digits : Nat
  exponent : Int
deriving Repr, DecidableEq

/-- An interval of reals around `middle / unit`, in units of `1 / unit`. -/
structure Interval where
  low : Nat
  middle : Nat
  high : Nat
  unit : Nat
  closed : Bool

/-- The reals that read back as a double: in quarters of its last place, `2` up, and `2` down or,
below a power of two, `1` down. -/
def Interval.around (x : Binary) : Interval :=
  let scale := Nat.pow 2 (x.exponent - 2).toNat
  let below := if x.mantissa = leadingBit ∧ -1074 < x.exponent then 1 else 2
  { low := (4 * x.mantissa - below) * scale
    middle := 4 * x.mantissa * scale
    high := (4 * x.mantissa + 2) * scale
    unit := Nat.pow 2 (2 - x.exponent).toNat
    closed := x.mantissa % 2 = 0 }

/-- Whether `value / unit` lies in the interval. -/
def Interval.contains (i : Interval) (value : Nat) : Bool :=
  if i.closed then i.low ≤ value && value ≤ i.high else i.low < value && value < i.high

/-- The better neighbour of the middle on the grid of multiples of `10 ^ exponent`, if one of the
two lies in the interval. -/
def Interval.onGrid (i : Interval) (exponent : Int) : Option Scaled :=
  let up := Nat.pow 10 (-exponent).toNat
  let i : Interval := ⟨i.low * up, i.middle * up, i.high * up, i.unit, i.closed⟩
  let step := Nat.pow 10 exponent.toNat * i.unit
  let below := i.middle / step
  let rest := 2 * (i.middle % step)
  let nearer := if rest < step ∨ (rest = step ∧ below % 2 = 0) then below else below + 1
  let farther := if nearer = below then below + 1 else below
  if i.contains (nearer * step) then some ⟨nearer, exponent⟩
  else if i.contains (farther * step) then some ⟨farther, exponent⟩
  else none

/-- The first hit on the grids `10 ^ top`, `10 ^ (top - 1)`, …. -/
def Interval.search (i : Interval) (top : Int) : Nat → Option Scaled
  | 0 => none
  | tries + 1 => (i.onGrid top).or (i.search (top - 1) tries)

/-- The least `k` with `m · 2 ^ q < 10 ^ k`. All positive doubles are above `10 ^ -400`. -/
def decimalOrder (x : Binary) : Int :=
  let scaled :=
    x.mantissa * Nat.pow 2 x.exponent.toNat * Nat.pow 10 400 / Nat.pow 2 (-x.exponent).toNat
  (Nat.toDigits 10 scaled).length - 400

/-- The shortest decimal that reads back as a positive double. Seventeen digits always do. -/
def shortest (x : Binary) : Scaled :=
  ((Interval.around x).search (decimalOrder x) 18).getD ⟨0, 0⟩

example : shortest ⟨1, -1074⟩ = ⟨5, -324⟩ := by decide +kernel

end SchemaHealth.Decimal
