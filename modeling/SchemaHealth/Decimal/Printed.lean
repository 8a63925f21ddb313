import SchemaHealth.Decimal.Shortest

/-!
# Written doubles

`Style.write` writes a double with its shortest digits, positional or scientific as a style says.
Reports use `Style.report`, command-line messages `Style.plain`. `writeFixed` writes a given
number of places after the point, rounded from the exact value, a tie going to the even digit.
-/

namespace SchemaHealth.Decimal

/-- How the digits of a finite double are laid out. With the number `d.ddd · 10 ^ e`, exponents
from `least` to `greatest` are written positionally and all others as `d.ddde±x`. -/
structure Style where
  least : Option Int
  greatest : Option Int
  /-- Whole numbers end in `.0`. -/
  pointZero : Bool

/-- Positional from `0.00001` to below `10 ^ 16`, whole numbers with `.0`, exponents signed. -/
def Style.report : Style := ⟨some (-5), some 15, true⟩

/-- Always positional, whole numbers without a point. -/
def Style.plain : Style := ⟨none, none, false⟩

/-- Whether a decimal exponent is written positionally. -/
def Style.positional (style : Style) (order : Int) : Bool :=
  style.least.all (· ≤ order) && style.greatest.all (order ≤ ·)

/-- Digits with a point after the first `whole` of them, zeros filling the places on either
side. -/
def pointed (digits : List Char) (whole : Int) (pointZero : Bool) : List Char :=
  if whole ≤ 0 then '0' :: '.' :: List.replicate (-whole).toNat '0' ++ digits
  else if digits.length ≤ whole.toNat then
    digits ++ List.replicate (whole.toNat - digits.length) '0' ++
      (if pointZero then ['.', '0'] else [])
  else digits.take whole.toNat ++ '.' :: digits.drop whole.toNat

/-- Digits in scientific form, the point after the first of them. -/
def scientific (digits : List Char) (order : Int) : List Char :=
  let point := if digits.length ≤ 1 then [] else '.' :: digits.drop 1
  let sign := if order < 0 then '-' else '+'
  digits.take 1 ++ point ++ 'e' :: sign :: Nat.toDigits 10 order.natAbs

/-- A positive decimal in a style. -/
def Style.layout (style : Style) (x : Scaled) : List Char :=
  let digits := Nat.toDigits 10 x.digits
  let order := digits.length + x.exponent - 1
  if style.positional order then pointed digits (order + 1) style.pointZero
  else scientific digits order

/-- The text of a double that is not finite. -/
def writeSpecial (x : Float) : String :=
  if x.isNaN then "NaN" else if isNegative x then "-inf" else "inf"

/-- The text of a double in a style. Zero keeps its sign. -/
def Style.write (style : Style) (x : Float) : String :=
  if x.isFinite then
    let value := parts x
    let digits :=
      if value.mantissa = 0 then pointed ['0'] 1 style.pointZero
      else style.layout (shortest value)
    String.ofList (if isNegative x then '-' :: digits else digits)
  else writeSpecial x

/-- The digits of `n` with a point before the last `places`, at least one digit before it. -/
def placed (n places : Nat) : List Char :=
  let digits := Nat.toDigits 10 n
  let digits := List.replicate (places + 1 - digits.length) '0' ++ digits
  digits.take (digits.length - places) ++ '.' :: digits.drop (digits.length - places)

/-- The text of a double with the given number of places, at least one, after the point. -/
def writeFixed (places : Nat) (x : Float) : String :=
  if x.isFinite then
    let value := parts x
    let rounded :=
      roundDiv (value.mantissa * Nat.pow 2 value.exponent.toNat * Nat.pow 10 places)
        (Nat.pow 2 (-value.exponent).toNat)
    let digits := placed rounded places
    String.ofList (if isNegative x then '-' :: digits else digits)
  else writeSpecial x

end SchemaHealth.Decimal
