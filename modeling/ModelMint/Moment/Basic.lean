/-!
# Moments

A moment is a date of the proleptic Gregorian calendar, a time of day to the
microsecond, and perhaps an offset from universal time.  A moment without an offset is
local: it is ordered among local moments only, and equals no moment that has one.
-/

namespace ModelMint

structure Moment where
  year : Nat
  month : Nat
  day : Nat
  hour : Nat
  minute : Nat
  second : Nat
  microsecond : Nat
  /-- In microseconds, to the east. -/
  offset : Option Int
deriving DecidableEq, Repr

namespace Moment

/-! ## The calendar -/

def isLeapYear (year : Nat) : Bool := year % 4 == 0 && (year % 100 != 0 || year % 400 == 0)

def monthDays (year month : Nat) : Nat :=
  if month == 2 then (if isLeapYear year then 29 else 28)
  else if [4, 6, 9, 11].contains month then 30
  else 31

def daysBeforeMonth (year : Nat) : Nat → Nat
  | 0 => 0
  | month + 1 => if month = 0 then 0 else daysBeforeMonth year month + monthDays year month

/-- The days from the first day of the year 1 to the first of the given year. -/
def daysBeforeYear (year : Nat) : Nat :=
  let past := year - 1
  past * 365 + past / 4 - past / 100 + past / 400

/-- The first day of the year 1 has the number 1. -/
def dayNumber (year month day : Nat) : Nat :=
  daysBeforeYear year + daysBeforeMonth year month + day

def isDate (year month day : Nat) : Bool :=
  1 ≤ year && year ≤ 9999 && 1 ≤ month && month ≤ 12 && 1 ≤ day && day ≤ monthDays year month

/-- The month and day of the given day of a year, counted from 1. -/
def monthAndDay (year : Nat) : Nat → Nat → Nat × Nat
  | 0, day => (12, day)
  | fuel + 1, day =>
    let month := 12 - fuel
    if day ≤ monthDays year month then (month, day)
    else monthAndDay year fuel (day - monthDays year month)

/-- The date of a day that lies in the given year or the one before or after it. -/
def dateNear (year number : Nat) : Nat × Nat × Nat :=
  let year :=
    if number ≤ daysBeforeYear year then year - 1
    else if number ≤ daysBeforeYear (year + 1) then year
    else year + 1
  let (month, day) := monthAndDay year 12 (number - daysBeforeYear year)
  (year, month, day)

/-! ## Weeks -/

/-- Monday is 0. -/
def weekday (number : Nat) : Nat := (number + 6) % 7

/-- The Monday of the week that holds the first Thursday of the year; before the first day of
all it is still counted, with seven days added. -/
def firstMondayPlusWeek (year : Nat) : Nat :=
  let first := dayNumber year 1 1
  let before := weekday first
  if before ≤ 3 then first + 7 - before else first + 14 - before

/-- A year has 53 weeks if it starts on a Thursday, or is a leap year that starts on a
Wednesday. -/
def hasWeek (year week : Nat) : Bool :=
  let first := weekday (dayNumber year 1 1)
  (1 ≤ week && week ≤ 52) || (week == 53 && (first == 3 || (first == 2 && isLeapYear year)))

def ofWeek? (year week day : Nat) : Option (Nat × Nat × Nat) :=
  if 1 ≤ year && year ≤ 9999 && hasWeek year week && 1 ≤ day && day ≤ 7 then
    some (dateNear year (firstMondayPlusWeek year + 7 * week + day - 15))
  else none

/-! ## Order -/

/-- Microseconds on the clock of the moment itself. -/
def localTime (moment : Moment) : Int :=
  let days := dayNumber moment.year moment.month moment.day
  (((days * 24 + moment.hour) * 60 + moment.minute) * 60 + moment.second) * 1000000 +
    moment.microsecond

def instant (moment : Moment) : Int := moment.localTime - moment.offset.getD 0

/-- Two moments with an offset each may be the same instant. -/
def same (a b : Moment) : Bool :=
  a.offset.isSome == b.offset.isSome && a.instant == b.instant

/-- `none` if only one of them has an offset. -/
def compare (a b : Moment) : Option Ordering :=
  if a.offset.isSome == b.offset.isSome then some (Ord.compare a.instant b.instant) else none

end Moment

end ModelMint
