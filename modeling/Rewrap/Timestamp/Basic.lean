/-! # Timestamps

A point in time by the calendar and clock of UTC. Days are also counted from 1970-01-01 on. -/

namespace Rewrap

/-- A point in time. A leap second is second 60 of its minute. -/
structure Timestamp where
  year : Int
  month : Nat
  day : Nat
  hour : Nat
  minute : Nat
  second : Nat
  nano : Nat
deriving DecidableEq

namespace Timestamp

/-! ## The calendar -/

def isLeapYear (year : Int) : Bool := year % 4 == 0 && (year % 100 != 0 || year % 400 == 0)

/-- The number of days of a month. -/
def daysInMonth (year : Int) (month : Nat) : Nat :=
  if month == 2 then if isLeapYear year then 29 else 28
  else if month == 4 || month == 6 || month == 9 || month == 11 then 30
  else 31

/-- The years that dates are counted in. -/
def isYear (year : Int) : Bool := -262143 ≤ year && year ≤ 262142

def isDate (year : Int) (month day : Nat) : Bool :=
  isYear year && 1 ≤ month && month ≤ 12 && 1 ≤ day && day ≤ daysInMonth year month

/-- The number of days from 1970-01-01 to a date. Years are counted from March on, in spans of four
centuries. -/
def dayNumber (year : Int) (month day : Nat) : Int :=
  let year := if month ≤ 2 then year - 1 else year
  let span := Int.fdiv year 400
  let yearOfSpan := year - span * 400
  let monthFromMarch : Int := if month ≤ 2 then month + 9 else month - 3
  let dayOfYear := (153 * monthFromMarch + 2) / 5 + day - 1
  span * 146097 + yearOfSpan * 365 + yearOfSpan / 4 - yearOfSpan / 100 + dayOfYear - 719468

/-- The date that comes the given number of days after 1970-01-01. -/
def dateOf (dayNumber : Int) : Int × Nat × Nat :=
  let n := dayNumber + 719468
  let span := Int.fdiv n 146097
  let dayOfSpan := n - span * 146097
  let yearOfSpan :=
    (dayOfSpan - dayOfSpan / 1460 + dayOfSpan / 36524 - dayOfSpan / 146096) / 365
  let dayOfYear := dayOfSpan - (365 * yearOfSpan + yearOfSpan / 4 - yearOfSpan / 100)
  let monthFromMarch := (5 * dayOfYear + 2) / 153
  let day := dayOfYear - (153 * monthFromMarch + 2) / 5 + 1
  let month := if monthFromMarch < 10 then monthFromMarch + 3 else monthFromMarch - 9
  (yearOfSpan + span * 400 + (if month ≤ 2 then 1 else 0), month.toNat, day.toNat)

/-- The number of the timestamp's day. -/
def dayCount (t : Timestamp) : Int := dayNumber t.year t.month t.day

/-- The point in time that comes the given number of seconds after the start of 1970. -/
def ofSeconds (seconds : Int) (nano : Nat) : Timestamp :=
  let days := Int.fdiv seconds 86400
  let rest := (seconds - days * 86400).toNat
  let (year, month, day) := dateOf days
  ⟨year, month, day, rest / 3600, rest / 60 % 60, rest % 60, nano⟩

/-! ## Order -/

/-- The order of numbers, the first differing one of which decides. -/
def compareNumbers : List Int → List Int → Ordering
  | a :: as, b :: bs => (Ord.compare a b).then (compareNumbers as bs)
  | [], _ :: _ => .lt
  | _ :: _, [] => .gt
  | [], [] => .eq

/-- The numbers of a timestamp, from the one that counts most. -/
def numbers (t : Timestamp) : List Int :=
  [t.year, t.month, t.day, t.hour, t.minute, t.second, t.nano]

/-- The order of time. -/
def compare (s t : Timestamp) : Ordering := compareNumbers s.numbers t.numbers

/-- Whether `s` is not later than `t`. -/
def le (s t : Timestamp) : Bool := (s.compare t).isLE

/-- The point in time that comes the given number of days before another, if the calendar goes back
so far. -/
def daysBefore? (t : Timestamp) (days : Nat) : Option Timestamp :=
  let (year, month, day) := dateOf (t.dayCount - days)
  if isYear year then some { t with year, month, day } else none

end Timestamp

end Rewrap
