/-!
# Points in time

A point in time is a date of the universal calendar and a time of day in seconds.  Days are counted
from the first of January 1970; the years of the calculation begin in March, so that a leap day is
the last day of its year.
-/

namespace DscAudit

/-- A point in time, in seconds of the universal calendar. -/
structure Moment where
  year : Nat
  month : Nat
  day : Nat
  hour : Nat
  minute : Nat
  second : Nat

namespace Moment

/-- The last `width` decimal digits. -/
def digits : (width : Nat) → Nat → List Char
  | 0, _ => []
  | width + 1, n => digits width (n / 10) ++ [Char.ofNat (0x30 + n % 10)]

/-- The date and the time with marks between all numbers. -/
def extended (moment : Moment) : String :=
  String.ofList <|
    digits 4 moment.year ++ '-' :: digits 2 moment.month ++ '-' :: digits 2 moment.day ++
      'T' :: digits 2 moment.hour ++ ':' :: digits 2 moment.minute ++ ':' :: digits 2 moment.second ++
      "+00:00".toList

/-- The date and the time with a single mark between them. -/
def compact (moment : Moment) : String :=
  String.ofList <|
    digits 4 moment.year ++ digits 2 moment.month ++ digits 2 moment.day ++
      '-' :: digits 2 moment.hour ++ digits 2 moment.minute ++ digits 2 moment.second

/-- The date of a day: the calendar repeats after four hundred years. -/
def ofDay (day : Nat) : Nat × Nat × Nat :=
  let shifted := day + 719468
  let dayOfEra := shifted % 146097
  let yearOfEra := (dayOfEra - dayOfEra / 1460 + dayOfEra / 36524 - dayOfEra / 146096) / 365
  let dayOfYear := dayOfEra - (365 * yearOfEra + yearOfEra / 4 - yearOfEra / 100)
  let month := (5 * dayOfYear + 2) / 153
  let year := yearOfEra + 400 * (shifted / 146097)
  (if month < 10 then year else year + 1, if month < 10 then month + 3 else month - 9,
    dayOfYear - (153 * month + 2) / 5 + 1)

/-- The point in time that many seconds after the start of the first day. -/
def ofSeconds (seconds : Nat) : Moment :=
  let (year, month, day) := ofDay (seconds / 86400)
  let second := seconds % 86400
  ⟨year, month, day, second / 3600, second / 60 % 60, second % 60⟩

theorem ofDay_zero : ofDay 0 = (1970, 1, 1) := rfl

theorem length_digits (width n : Nat) : (digits width n).length = width := by
  induction width generalizing n with
  | zero => rfl
  | succ width ih => simp [digits, ih]

end Moment

end DscAudit
