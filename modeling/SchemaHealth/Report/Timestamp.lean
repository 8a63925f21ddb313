import SchemaHealth.Text.Layout

/-!
# Timestamps

`timestamp` writes a moment of universal time, given in milliseconds since the start of 1970, as
date, time of day with three places after the second, and a closing `Z`. Dates are those of the
Gregorian calendar, in which 400 years always have the same number of days.
-/

namespace SchemaHealth.Timestamp

/-- A date. -/
structure Date where
  year : Nat
  month : Nat
  day : Nat
deriving DecidableEq, Repr

/-- The number of days in 400 years. -/
def cycleDays : Nat := 146097

/-- The day of the first of March of the year 0, counted back from the start of 1970. -/
def daysBefore1970 : Nat := 719468

/-- The date of a day, counted from the start of 1970. Years are counted from March here, so that
the leap day is the last day of its year. -/
def dateOf (day : Nat) : Date :=
  let shifted := day + daysBefore1970
  let inCycle := shifted % cycleDays
  let yearInCycle :=
    (inCycle - inCycle / 1460 + inCycle / 36524 - inCycle / (cycleDays - 1)) / 365
  let inYear := inCycle - (365 * yearInCycle + yearInCycle / 4 - yearInCycle / 100)
  let monthFromMarch := (5 * inYear + 2) / 153
  let month := if monthFromMarch < 10 then monthFromMarch + 3 else monthFromMarch - 9
  let year := shifted / cycleDays * 400 + yearInCycle
  ⟨if month ≤ 2 then year + 1 else year, month,
    inYear - (153 * monthFromMarch + 2) / 5 + 1⟩

/-- A number with zeros in front of it up to a width. -/
def zeroPadded (width n : Nat) : String :=
  let digits := toString n
  Text.repeated (width - digits.length) '0' ++ digits

/-- A moment in writing. -/
def write (milliseconds : Nat) : String :=
  let seconds := milliseconds / 1000
  let date := dateOf (seconds / 86400)
  zeroPadded 4 date.year ++ "-" ++ zeroPadded 2 date.month ++ "-" ++ zeroPadded 2 date.day ++
    "T" ++ zeroPadded 2 (seconds % 86400 / 3600) ++ ":" ++ zeroPadded 2 (seconds % 3600 / 60) ++
    ":" ++ zeroPadded 2 (seconds % 60) ++ "." ++ zeroPadded 3 (milliseconds % 1000) ++ "Z"

example : write 0 = "1970-01-01T00:00:00.000Z" := by decide

example : write 951782400123 = "2000-02-29T00:00:00.123Z" := by decide

example : write 1735689600000 = "2025-01-01T00:00:00.000Z" := by decide

end SchemaHealth.Timestamp
