import SchemaHealth.Decimal.Double
import SchemaHealth.Decimal.Numeral
import SchemaHealth.Text.Escape
import SchemaHealth.Toml.Value

/-!
# Numbers and moments of TOML

Underscores may stand between two digits of a number. Integers have 64 bits and are decimal with an
optional sign, or hexadecimal, octal or binary without one. Floats have a fraction or an exponent;
one that is too large is refused unless it is negative.

A moment is a date, a time of day, or both with an optional offset. It is kept in its usual writing:
`T` and `Z` in upper case, fractions of a second to nine places without trailing zeros.
-/

namespace SchemaHealth.Toml

open Decimal (digitValue digitsValue)

/-! ## Digits -/

/-- Digits with underscores between them, as characters; the first is known to be one. -/
def readMoreDigits? (isDigit : Char → Bool) : List Char → Option (List Char × List Char)
  | '_' :: c :: cs =>
    if isDigit c then (readMoreDigits? isDigit cs).map fun (ds, rest) => (c :: ds, rest) else none
  | c :: cs =>
    if c = '_' then none
    else if isDigit c then (readMoreDigits? isDigit cs).map fun (ds, rest) => (c :: ds, rest)
    else some ([], c :: cs)
  | [] => some ([], [])

/-- At least one digit, with underscores between any two. -/
def readDigits? (isDigit : Char → Bool) : List Char → Option (List Char × List Char)
  | c :: cs =>
    if isDigit c then (readMoreDigits? isDigit cs).map fun (ds, rest) => (c :: ds, rest) else none
  | [] => none

/-- The digits of a decimal whole part: a zero alone, or digits that start with another one. -/
def readWhole? : List Char → Option (List Char × List Char)
  | '0' :: rest => some (['0'], rest)
  | cs => readDigits? Char.isDigit cs

/-- The number that decimal digits stand for. -/
def decimalValue (digits : List Char) : Nat := digitsValue (digits.map digitValue)

/-! ## Numbers -/

/-- A sign: whether it is negative. -/
def readSign : List Char → Bool × List Char
  | '-' :: rest => (true, rest)
  | '+' :: rest => (false, rest)
  | cs => (false, cs)

/-- A number after its sign, as a value. -/
def signed (isNegative : Bool) (n : Nat) : Int := if isNegative then -n else n

/-- An integer that fits 64 bits. -/
def integer? (n : Int) : Option Value :=
  if -Decimal.signLimit ≤ n ∧ n < Decimal.signLimit then some (.integer n) else none

/-- A float, unless it is positive and too large. -/
def float? (isNegative : Bool) (digits : List Char) (exponent : Int) : Option Value :=
  let x := Decimal.ofScientific (decimalValue digits) exponent
  if isNegative then some (.float (-x)) else if x.isInf then none else some (.float x)

/-- An exponent after its `e`. -/
def readExponent? (cs : List Char) : Option (Int × List Char) := do
  let (isNegative, cs) := readSign cs
  let (digits, rest) ← readDigits? Char.isDigit cs
  return (signed isNegative (decimalValue digits), rest)

/-- A decimal number after its sign. -/
def readDecimal? (isNegative : Bool) (cs : List Char) : Option (Value × List Char) := do
  let (whole, rest) ← readWhole? cs
  match rest with
  | '.' :: rest =>
    let (fraction, rest) ← readDigits? Char.isDigit rest
    match rest with
    | c :: more =>
      if c = 'e' ∨ c = 'E' then
        let (exponent, rest) ← readExponent? more
        return (← float? isNegative (whole ++ fraction) (exponent - fraction.length), rest)
      else return (← float? isNegative (whole ++ fraction) (-fraction.length), rest)
    | [] => return (← float? isNegative (whole ++ fraction) (-fraction.length), [])
  | c :: more =>
    if c = 'e' ∨ c = 'E' then
      let (exponent, rest) ← readExponent? more
      return (← float? isNegative whole exponent, rest)
    else return (← integer? (signed isNegative (decimalValue whole)), rest)
  | [] => return (← integer? (signed isNegative (decimalValue whole)), [])

/-- A digit of a base up to sixteen. -/
def isDigitOf (base : Nat) (c : Char) : Bool := (Text.hexValue? c).any (· < base)

/-- An integer in a base, after the mark of the base. -/
def readInBase? (base : Nat) (cs : List Char) : Option (Value × List Char) := do
  let (digits, rest) ← readDigits? (isDigitOf base) cs
  let n := digits.foldl (fun n c => n * base + (Text.hexValue? c).getD 0) 0
  return (← integer? n, rest)

/-- A number. -/
def readNumber? (cs : List Char) : Option (Value × List Char) :=
  match cs with
  | '0' :: 'x' :: rest => readInBase? 16 rest
  | '0' :: 'o' :: rest => readInBase? 8 rest
  | '0' :: 'b' :: rest => readInBase? 2 rest
  | _ =>
    match readSign cs with
    | (isNegative, 'i' :: 'n' :: 'f' :: rest) =>
      some (.float (if isNegative then -(1.0 / 0.0) else 1.0 / 0.0), rest)
    | (_, 'n' :: 'a' :: 'n' :: rest) => some (.float (0.0 / 0.0), rest)
    | (isNegative, rest) => readDecimal? isNegative rest

/-! ## Moments -/

/-- A number of two digits within bounds. -/
def readTwo? (least greatest : Nat) : List Char → Option (Nat × List Char)
  | a :: b :: rest =>
    let n := 10 * digitValue a + digitValue b
    if a.isDigit && b.isDigit && least ≤ n && n ≤ greatest then some (n, rest) else none
  | _ => none

/-- The rest after a character. -/
def readMark? (mark : Char) : List Char → Option (List Char)
  | c :: rest => if c = mark then some rest else none
  | [] => none

/-- A number of two digits in writing. -/
def twoDigits (n : Nat) : List Char := [Nat.digitChar (n / 10), Nat.digitChar (n % 10)]

/-- The number of days of a month. -/
def daysIn (year month : Nat) : Nat :=
  if month = 2 then
    if year % 4 = 0 ∧ (year % 100 ≠ 0 ∨ year % 400 = 0) then 29 else 28
  else if month = 4 ∨ month = 6 ∨ month = 9 ∨ month = 11 then 30
  else 31

/-- A date after its year, which is given as it is written. -/
def readDate? (year : List Char) (cs : List Char) : Option (List Char × List Char) := do
  let (month, rest) ← readTwo? 1 12 (← readMark? '-' cs)
  let (day, rest) ← readTwo? 1 31 (← readMark? '-' rest)
  if daysIn (decimalValue year) month < day then none
  else some (year ++ '-' :: twoDigits month ++ '-' :: twoDigits day, rest)

/-- A fraction of a second to nine places. -/
def readSecondFraction (cs : List Char) : List Char × List Char :=
  match cs with
  | '.' :: rest =>
    match rest.takeWhile Char.isDigit with
    | [] => ([], cs)
    | digits =>
      let kept := ((digits.take 9).reverse.dropWhile (· = '0')).reverse
      (if kept.isEmpty then [] else '.' :: kept, rest.dropWhile Char.isDigit)
  | _ => ([], cs)

/-- A time of day. -/
def readTime? (cs : List Char) : Option (List Char × List Char) := do
  let (hour, rest) ← readTwo? 0 23 cs
  let (minute, rest) ← readTwo? 0 59 (← readMark? ':' rest)
  let (second, rest) ← readTwo? 0 60 (← readMark? ':' rest)
  let (fraction, rest) := readSecondFraction rest
  return (twoDigits hour ++ ':' :: twoDigits minute ++ ':' :: twoDigits second ++ fraction, rest)

/-- The offset of a time, if there is one. -/
def readOffset? : List Char → Option (List Char × List Char)
  | [] => some ([], [])
  | c :: rest =>
    if c = 'Z' ∨ c = 'z' then some (['Z'], rest)
    else if c = '+' ∨ c = '-' then do
      let (hour, rest) ← readTwo? 0 23 rest
      let (minute, rest) ← readTwo? 0 59 (← readMark? ':' rest)
      let sign := if hour = 0 ∧ minute = 0 then '+' else c
      return (sign :: twoDigits hour ++ ':' :: twoDigits minute, rest)
    else some ([], c :: rest)

/-- Whether a text starts with a time of day: two digits and a colon. -/
def startsTime : List Char → Bool
  | a :: b :: ':' :: _ => a.isDigit && b.isDigit
  | _ => false

/-- What may follow a date: a time with an optional offset. -/
def readTimeAfterDate? (cs : List Char) : Option (List Char × List Char) :=
  match cs with
  | c :: rest =>
    if (c = 'T' ∨ c = 't' ∨ c = ' ') ∧ startsTime rest then do
      let (time, rest) ← readTime? rest
      let (offset, rest) ← readOffset? rest
      return ('T' :: time ++ offset, rest)
    else some ([], cs)
  | [] => some ([], [])

/-- A moment, for a text that starts like one; no moment for any other text. -/
def readMoment? (cs : List Char) : Option (Option (Value × List Char)) :=
  match cs with
  | a :: b :: c :: d :: '-' :: rest =>
    if a.isDigit && b.isDigit && c.isDigit && d.isDigit then do
      let (date, rest) ← readDate? [a, b, c, d] ('-' :: rest)
      let (time, rest) ← readTimeAfterDate? rest
      return some (.moment (String.ofList (date ++ time)), rest)
    else some none
  | _ =>
    if startsTime cs then do
      let (time, rest) ← readTime? cs
      return some (.moment (String.ofList time), rest)
    else some none

/-- A number or a moment. -/
def readNumberOrMoment? (cs : List Char) : Option (Value × List Char) := do
  match ← readMoment? cs with
  | some moment => return moment
  | none => readNumber? cs

end SchemaHealth.Toml
