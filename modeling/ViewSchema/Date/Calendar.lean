/-!
# Calendar

Moments of the proleptic Gregorian calendar without a time zone: conversion
between day counts and civil dates, weekdays, ordinals and week numbers.
-/

namespace ViewSchema

/-- A moment: a civil date, the second of its day, and nanoseconds. A leap second
is written as a second of which more than one passes. -/
structure Moment where
  year : Int
  month : Nat
  day : Nat
  /-- Seconds since midnight. -/
  second : Nat
  nanosecond : Nat
deriving DecidableEq, Repr

namespace Calendar

/-- The years that a moment may have. -/
def minYear : Int := -262143

def maxYear : Int := 262142

def isLeap (year : Int) : Bool :=
  year % 4 == 0 && (year % 100 != 0 || year % 400 == 0)

def daysInMonth (year : Int) (month : Nat) : Nat :=
  match month with
  | 2 => if isLeap year then 29 else 28
  | 4 | 6 | 9 | 11 => 30
  | _ => 31

/-- A date that the calendar has. -/
def isDate (year : Int) (month day : Nat) : Bool :=
  minYear ≤ year && year ≤ maxYear && 1 ≤ month && month ≤ 12
    && 1 ≤ day && day ≤ daysInMonth year month

/-- Days of a common or leap year before a month. -/
def daysBeforeMonth (year : Int) (month : Nat) : Nat :=
  (List.range (month - 1)).foldl (fun days m => days + daysInMonth year (m + 1)) 0

/-- The number of a day within its year, from one. -/
def ordinal (year : Int) (month day : Nat) : Nat := daysBeforeMonth year month + day

/-- Days from the first of January of the year zero to that of a year. -/
def daysBeforeYear (year : Int) : Int :=
  let y := year - 1
  365 * year + Int.fdiv y 4 - Int.fdiv y 100 + Int.fdiv y 400 + 1

/-- The day count of the epoch, the first of January of 1970. -/
def epochDay : Int := daysBeforeYear 1970

/-- Days since the epoch. -/
def dayNumber (year : Int) (month day : Nat) : Int :=
  daysBeforeYear year + ordinal year month day - 1 - epochDay

/-- The year in which a day count from the year zero lies: the estimate from the
mean length of a year is corrected by at most one step. -/
def yearOfDays (days : Int) : Int :=
  let guess := Int.fdiv (days * 400) 146097
  if days < daysBeforeYear guess then guess - 1
  else if daysBeforeYear (guess + 1) ≤ days then guess + 1
  else guess

/-- Month and day of a day of the year, counted from zero. -/
def monthAndDay (year : Int) (dayOfYear : Nat) : Nat × Nat :=
  let month := ((List.range 12).filter fun m =>
    daysBeforeMonth year (m + 1) ≤ dayOfYear).length
  (month, dayOfYear - daysBeforeMonth year month + 1)

/-- The civil date of a number of days since the epoch. -/
def dateOfDay (day : Int) : Int × Nat × Nat :=
  let days := day + epochDay
  let year := yearOfDays days
  let (month, dayOfMonth) := monthAndDay year (days - daysBeforeYear year).toNat
  (year, month, dayOfMonth)

/-- Days since the last Sunday. -/
def weekday (year : Int) (month day : Nat) : Nat :=
  (Int.emod (dayNumber year month day + 4) 7).toNat

/-- The number of a week, when weeks begin on the given day and the days before
the first of them are in week zero. -/
def weekFrom (firstDay : Nat) (year : Int) (month day : Nat) : Nat :=
  let sinceFirst := (weekday year month day + 7 - firstDay) % 7
  (ordinal year month day + 6 - sinceFirst) / 7

/-- The number of weeks of a week-numbering year. -/
def isoWeeks (year : Int) : Nat :=
  let january := weekday year 1 1
  if january = 4 ∨ (january = 3 ∧ isLeap year) then 53 else 52

/-- The week-numbering year and the week: weeks begin on Monday and belong to
the year of their Thursday. -/
def isoWeek (year : Int) (month day : Nat) : Int × Nat :=
  let fromMonday := (weekday year month day + 6) % 7
  let week := (ordinal year month day + 9 - fromMonday) / 7
  if week = 0 then (year - 1, isoWeeks (year - 1))
  else if isoWeeks year < week then (year + 1, 1)
  else (year, week)

/-- Names of months, from January. -/
def monthNames : List String :=
  ["January", "February", "March", "April", "May", "June", "July", "August",
    "September", "October", "November", "December"]

/-- Names of weekdays, from Sunday. -/
def weekdayNames : List String :=
  ["Sunday", "Monday", "Tuesday", "Wednesday", "Thursday", "Friday", "Saturday"]

def secondsPerDay : Int := 86400

end Calendar

namespace Moment

/-- Seconds since the epoch; a leap second counts like the second before it. -/
def epochSecond (m : Moment) : Int :=
  Calendar.dayNumber m.year m.month m.day * Calendar.secondsPerDay + m.second

/-- The moment at a number of seconds since the epoch, if its year is in
range. -/
def ofEpochSecond? (seconds : Int) (nanosecond : Nat) : Option Moment :=
  let (year, month, day) := Calendar.dateOfDay (Int.fdiv seconds Calendar.secondsPerDay)
  if Calendar.minYear ≤ year ∧ year ≤ Calendar.maxYear then
    some ⟨year, month, day, (Int.emod seconds Calendar.secondsPerDay).toNat, nanosecond⟩
  else none

/-- The moment at a number of milliseconds since the epoch. -/
def ofEpochMillis? (millis : Int) : Option Moment :=
  ofEpochSecond? (Int.fdiv millis 1000) ((Int.emod millis 1000).toNat * 1000000)

def hour (m : Moment) : Nat := m.second / 3600

def minute (m : Moment) : Nat := m.second / 60 % 60

/-- The hour on a dial of twelve. -/
def dialHour (m : Moment) : Nat := if m.hour % 12 = 0 then 12 else m.hour % 12

def isAfternoon (m : Moment) : Bool := 12 ≤ m.hour

/-- Nanoseconds within the second, also in a leap second. -/
def fraction (m : Moment) : Nat := m.nanosecond % 1000000000

/-- The second of the minute, sixty in a leap second. -/
def shownSecond (m : Moment) : Nat := m.second % 60 + m.nanosecond / 1000000000

end Moment

end ViewSchema
