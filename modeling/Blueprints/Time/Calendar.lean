/-! # The calendar — days and dates

    Days are counted from 1 January 1970; dates are those of the Gregorian
    calendar, carried on without end into the past and the future.  Years
    are taken to begin in March, so that the leap day is the last day of its
    year, and are grouped into eras of 400 years, which all have the same
    number of days. -/

namespace Blueprints.Time

/-- A date. -/
structure Date where
  year : Int
  month : Nat
  day : Nat
  deriving DecidableEq, Repr

/-- Whether a year has a leap day. -/
def isLeapYear (year : Int) : Bool :=
  year % 4 == 0 && (year % 100 != 0 || year % 400 == 0)

/-- The number of days of a month. -/
def daysInMonth (year : Int) (month : Nat) : Nat :=
  if month = 2 then if isLeapYear year then 29 else 28
  else if month = 4 ∨ month = 6 ∨ month = 9 ∨ month = 11 then 30
  else 31

/-- The years that the calendar reaches. -/
def yearInRange (year : Int) : Bool := -262143 ≤ year && year ≤ 262142

/-- Whether a date exists. -/
def Date.isValid (d : Date) : Bool :=
  yearInRange d.year && 1 ≤ d.month && d.month ≤ 12 && 1 ≤ d.day
    && d.day ≤ daysInMonth d.year d.month

/-- Days before a month, counted from the first of March. -/
def daysBeforeMonth (monthFromMarch : Nat) : Nat :=
  (153 * monthFromMarch + 2) / 5

/-- The day number of a date. -/
def Date.toDays (d : Date) : Int :=
  let year := if d.month ≤ 2 then d.year - 1 else d.year
  let month := if d.month ≤ 2 then d.month + 9 else d.month - 3
  let era := year.fdiv 400
  let ofEra := (year - era * 400).toNat
  let ofYear := daysBeforeMonth month + d.day - 1
  let days := ofEra * 365 + ofEra / 4 - ofEra / 100 + ofYear
  era * 146097 + days - 719468

/-- The date of a day number. -/
def Date.ofDays (n : Int) : Date :=
  let shifted := n + 719468
  let era := shifted.fdiv 146097
  let day := (shifted - era * 146097).toNat
  let ofEra := (day - day / 1460 + day / 36524 - day / 146096) / 365
  let ofYear := day - (365 * ofEra + ofEra / 4 - ofEra / 100)
  let month := (5 * ofYear + 2) / 153
  let year : Int := ofEra + era * 400
  { year := if month < 10 then year else year + 1
    month := if month < 10 then month + 3 else month - 9
    day := ofYear - daysBeforeMonth month + 1 }

end Blueprints.Time
