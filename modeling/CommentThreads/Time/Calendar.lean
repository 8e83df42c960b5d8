/-
CommentThreads.Time.Calendar — the Gregorian calendar, counted in days
from the first of January of the year 1.

`Date.dayNumber` counts the days before a date; `Date.ofDayNumber` finds
the date again. A cycle of 400 years has 146097 days, a century 36524, four
years 1461 and a year 365, with one more day at the end of the longer ones.
-/

namespace CommentThreads.Time

/-- Every fourth year is a leap year, except the centuries that 400 does
not divide. -/
def isLeapYear (year : Nat) : Bool :=
  year % 4 = 0 && (year % 100 ≠ 0 || year % 400 = 0)

/-- The lengths of the twelve months. -/
def monthLengths (leap : Bool) : List Nat :=
  [31, if leap then 29 else 28, 31, 30, 31, 30, 31, 31, 30, 31, 30, 31]

/-- The number of days of a month, numbered from 1. -/
def daysInMonth (year month : Nat) : Nat :=
  (monthLengths (isLeapYear year)).getD (month - 1) 0

/-- A date; months and days are numbered from 1. -/
structure Date where
  year : Nat
  month : Nat
  day : Nat
deriving DecidableEq, Repr

namespace Date

/-- A date that the calendar has, in the years 1 to 9999. -/
def isValid (d : Date) : Bool :=
  1 ≤ d.year && d.year ≤ 9999 && 1 ≤ d.month && d.month ≤ 12 &&
    1 ≤ d.day && d.day ≤ daysInMonth d.year d.month

/-- The days before the first of January of a year. -/
def daysBeforeYear (year : Nat) : Nat :=
  let y := year - 1
  y * 365 + y / 4 - y / 100 + y / 400

/-- The days before a month, numbered from 1, in a year of months with the
given lengths. -/
def daysBeforeMonth : (month : Nat) → List Nat → Nat
  | month + 2, length :: rest => length + daysBeforeMonth (month + 1) rest
  | _, _ => 0

/-- The days between the first of January of the year 1 and a date. -/
def dayNumber (d : Date) : Nat :=
  daysBeforeYear d.year + daysBeforeMonth d.month (monthLengths (isLeapYear d.year)) + (d.day - 1)

/-- Walk through months of the given lengths; gives the month and the day
in it for a number of days, both counted from 1. -/
def findMonth (month days : Nat) : List Nat → Nat × Nat
  | [] => (month, days + 1)
  | length :: rest =>
    if days < length then (month, days + 1) else findMonth (month + 1) (days - length) rest

/-- The year that a day falls in, and the days since its beginning. -/
def findYear (dayNumber : Nat) : Nat × Nat :=
  let cycle := dayNumber / 146097
  let inCycle := dayNumber % 146097
  let century := min (inCycle / 36524) 3
  let inCentury := inCycle - century * 36524
  let four := inCentury / 1461
  let inFour := inCentury % 1461
  let one := min (inFour / 365) 3
  (cycle * 400 + century * 100 + four * 4 + one + 1, inFour - one * 365)

/-- The date that many days after the first of January of the year 1. -/
def ofDayNumber (n : Nat) : Date :=
  let (year, days) := findYear n
  let (month, day) := findMonth 1 days (monthLengths (isLeapYear year))
  ⟨year, month, day⟩

end Date

/-- The day of the week of a day number; 0 is Monday, as the first of
January of the year 1 was one. -/
def weekday (dayNumber : Nat) : Nat :=
  dayNumber % 7

/-- The short names of the days of the week. -/
def weekdayNames : List String := ["Mon", "Tue", "Wed", "Thu", "Fri", "Sat", "Sun"]

/-- The short names of the months. -/
def monthNames : List String :=
  ["Jan", "Feb", "Mar", "Apr", "May", "Jun", "Jul", "Aug", "Sep", "Oct", "Nov", "Dec"]

end CommentThreads.Time
