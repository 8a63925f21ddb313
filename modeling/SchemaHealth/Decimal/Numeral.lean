import SchemaHealth.Decimal.Double

/-!
# Decimal numerals

The numerals shared by schemas and JSON texts: an optional minus sign, a whole part without
superfluous zeros, an optional fraction and an optional exponent. `Numeral.read?` splits the
longest numeral off a text and `Numeral.value?` gives its value.

A numeral without fraction and exponent that fits 64 bits is a whole number; `-0` is not, since no
whole number is negative zero. Every other numeral is a double, computed from the leading digits
that fit 64 bits and a power of ten: the digits are rounded to a double, and that double is
multiplied or divided by the power. A numeral whose double would be infinite has no value.
-/

namespace SchemaHealth.Decimal

/-- The value of a numeral. -/
inductive Number where
  | int (value : Int)
  | real (value : Float)
deriving Repr, Inhabited

/-- A numeral split into its parts; the digits are kept as values below ten. -/
structure Numeral where
  negative : Bool
  whole : List Nat
  fraction : Option (List Nat)
  /-- Whether the exponent is negative, and its digits. -/
  exponent : Option (Bool × List Nat)
deriving Repr, DecidableEq

/-- The value of an ASCII digit. -/
def digitValue (c : Char) : Nat := c.toNat - '0'.toNat

/-- The digits a text starts with, and the rest of the text. -/
def readDigits (cs : List Char) : List Nat × List Char :=
  ((cs.takeWhile Char.isDigit).map digitValue, cs.dropWhile Char.isDigit)

/-- A point and the digits after it. A point without digits is an error of the numeral. -/
def readFraction? : List Char → Option (Option (List Nat) × List Char)
  | '.' :: cs =>
    match readDigits cs with
    | ([], _) => none
    | (digits, rest) => some (some digits, rest)
  | cs => some (none, cs)

/-- The sign of an exponent: whether it is negative. -/
def readSign : List Char → Bool × List Char
  | '-' :: cs => (true, cs)
  | '+' :: cs => (false, cs)
  | cs => (false, cs)

/-- An exponent: `e` or `E`, an optional sign, and digits. -/
def readExponent? : List Char → Option (Option (Bool × List Nat) × List Char)
  | c :: cs =>
    if c = 'e' ∨ c = 'E' then
      let (negative, afterSign) := readSign cs
      match readDigits afterSign with
      | ([], _) => none
      | (digits, rest) => some (some (negative, digits), rest)
    else some (none, c :: cs)
  | [] => some (none, [])

/-- The whole part: a zero alone, or digits that start with another digit. -/
def readWhole? (cs : List Char) : Option (List Nat × List Char) :=
  match cs with
  | '0' :: rest => some ([0], rest)
  | _ =>
    match readDigits cs with
    | ([], _) => none
    | split => some split

/-- The numeral a text starts with, and the rest of the text. -/
def Numeral.read? (cs : List Char) : Option (Numeral × List Char) := do
  let (negative, cs) := match cs with
    | '-' :: rest => (true, rest)
    | _ => (false, cs)
  let (whole, cs) ← readWhole? cs
  let (fraction, cs) ← readFraction? cs
  let (exponent, cs) ← readExponent? cs
  return (⟨negative, whole, fraction, exponent⟩, cs)

/-- The largest whole number of 64 bits. -/
def largestWord : Nat := 0xFFFFFFFFFFFFFFFF

/-- The number of values of 64 bits below zero when one of them is the sign, `2 ^ 63`. -/
def signLimit : Nat := 0x8000000000000000

/-- The least exponent that is too large to count with, `2 ^ 31`. -/
def exponentLimit : Nat := 0x80000000

/-- Appends digits to a number for as long as it fits 64 bits; also the digits left over. -/
def absorb (n : Nat) : List Nat → Nat × List Nat
  | [] => (n, [])
  | digit :: rest =>
    if n * 10 + digit ≤ largestWord then absorb (n * 10 + digit) rest else (n, digit :: rest)

/-- A double divided by `10 ^ exponent`, in steps of at most `10 ^ 308`. -/
def scaleDown (x : Float) (exponent : Nat) : Float :=
  if exponent ≤ 308 then x / ofNat (Nat.pow 10 exponent)
  else if x == 0.0 then x
  else scaleDown (x / ofNat (Nat.pow 10 308)) (exponent - 308)
termination_by exponent

/-- `digits · 10 ^ exponent` in double arithmetic, unless it is infinite. -/
def scaled? (digits : Nat) (exponent : Int) : Option Float :=
  let x := ofNat digits
  if exponent < 0 then some (scaleDown x exponent.natAbs)
  else if digits = 0 then some x
  else if 308 < exponent then none
  else
    let y := x * ofNat (Nat.pow 10 exponent.toNat)
    if y.isInf then none else some y

/-- The number a list of digits stands for. -/
def digitsValue (digits : List Nat) : Nat := digits.foldl (fun n digit => n * 10 + digit) 0

/-- The absolute value of a numeral as a double. -/
def Numeral.magnitude? (n : Numeral) : Option Float :=
  let (digits, surplus) := absorb 0 n.whole
  let fraction := n.fraction.getD []
  let (digits, unused) := absorb digits fraction
  let shift : Int := surplus.length - (fraction.length - unused.length : Nat)
  match n.exponent with
  | none => scaled? digits shift
  | some (negative, exponent) =>
    let exponent := digitsValue exponent
    if exponentLimit ≤ exponent then
      if digits = 0 ∨ negative then some 0 else none
    else scaled? digits (if negative then shift - exponent else shift + exponent)

/-- The value of a numeral as a double, unless it is infinite. -/
def Numeral.real? (n : Numeral) : Option Number :=
  n.magnitude?.map fun x => .real (if n.negative then -x else x)

/-- The value of a numeral, unless it is beyond the doubles. -/
def Numeral.value? (n : Numeral) : Option Number :=
  if n.fraction.isSome ∨ n.exponent.isSome then n.real?
  else
    let magnitude := digitsValue n.whole
    if n.negative then
      if magnitude = 0 ∨ signLimit < magnitude then n.real? else some (.int (-magnitude))
    else if magnitude ≤ largestWord then some (.int magnitude)
    else n.real?

/-- What is absorbed fits 64 bits. -/
theorem absorb_le {n : Nat} (fits : n ≤ largestWord) (digits : List Nat) :
    (absorb n digits).1 ≤ largestWord := by
  induction digits generalizing n with
  | nil => exact fits
  | cons digit rest ih =>
    simp only [absorb]
    split
    · exact ih ‹_›
    · exact fits

end SchemaHealth.Decimal
