/-! # Calendar

Dates of the Gregorian calendar from year 1 to year 9999, and points in time on such a date,
with or without a distance from universal time.
-/
namespace OpenApi.Time

structure Date where
  year : Nat
  month : Nat
  day : Nat
  deriving DecidableEq, Repr

/-- The offset is a number of microseconds east of universal time. -/
structure DateTime where
  date : Date
  hour : Nat
  minute : Nat
  second : Nat
  microsecond : Nat
  offset : Option Int
  deriving DecidableEq, Repr

def isLeap (year : Nat) : Bool := year % 4 == 0 && (year % 100 != 0 || year % 400 == 0)

def daysInMonth (year month : Nat) : Nat :=
  match month with
  | 1 | 3 | 5 | 7 | 8 | 10 | 12 => 31
  | 4 | 6 | 9 | 11 => 30
  | 2 => if isLeap year then 29 else 28
  | _ => 0

def Date.isValid (d : Date) : Bool :=
  1 ≤ d.year && d.year ≤ 9999 && 1 ≤ d.month && d.month ≤ 12 && 1 ≤ d.day &&
    d.day ≤ daysInMonth d.year d.month

def microsPerDay : Nat := 86400000000

/-- An offset stays short of a whole day either way. -/
def DateTime.isValid (t : DateTime) : Bool :=
  t.date.isValid && t.hour < 24 && t.minute < 60 && t.second < 60 && t.microsecond < 1000000 &&
    (t.offset.all fun o => o.natAbs < microsPerDay)

def daysBeforeYear (year : Nat) : Nat :=
  let y := year - 1
  365 * y + y / 4 - y / 100 + y / 400

def daysBeforeMonth (year month : Nat) : Nat :=
  (List.range (month - 1)).foldl (fun days m => days + daysInMonth year (m + 1)) 0

/-- The days up to and with this one, the first of January of year 1 being day 1. -/
def Date.dayNumber (d : Date) : Nat := daysBeforeYear d.year + daysBeforeMonth d.year d.month + d.day

/-- The day of the week, Monday being 0. -/
def Date.weekday (d : Date) : Nat := (d.dayNumber + 6) % 7

/-- The month and day of the `n`-th day of a year, counted from 0. -/
def monthAndDay (year : Nat) : Nat → Nat → Nat → Nat × Nat
  | 0, month, n => (month, n + 1)
  | fuel + 1, month, n =>
    let days := daysInMonth year month
    if n < days || days == 0 then (month, n + 1) else monthAndDay year fuel (month + 1) (n - days)

def dateNear (year : Nat) (dayNumber : Int) : Date :=
  let start : Int := daysBeforeYear year
  let length : Nat := if isLeap year then 366 else 365
  let n := dayNumber - start - 1
  if n < 0 then
    let y := year - 1
    let md := monthAndDay y 12 1 (n + (if isLeap y then 366 else 365)).toNat
    ⟨y, md.1, md.2⟩
  else if length ≤ n then
    let md := monthAndDay (year + 1) 12 1 (n.toNat - length)
    ⟨year + 1, md.1, md.2⟩
  else
    let md := monthAndDay year 12 1 n.toNat
    ⟨year, md.1, md.2⟩

/-- The Monday of the week that holds the fourth of January. -/
def firstMonday (year : Nat) : Int :=
  let newYear : Date := ⟨year, 1, 1⟩
  let monday : Int := (newYear.dayNumber : Int) - newYear.weekday
  if 3 < newYear.weekday then monday + 7 else monday

/-- Years that start on a Thursday, and leap years that start on a Wednesday, have 53 weeks. -/
def weeksInYear (year : Nat) : Nat :=
  let first := (⟨year, 1, 1⟩ : Date).weekday
  if first == 3 || (first == 2 && isLeap year) then 53 else 52

def Date.ofWeek? (year week day : Nat) : Option Date :=
  if 1 ≤ year && 1 ≤ week && week ≤ weeksInYear year && 1 ≤ day && day ≤ 7 then
    some (dateNear year (firstMonday year + ((week - 1) * 7 + (day - 1) : Nat)))
  else none

def DateTime.instant (t : DateTime) : Int :=
  let seconds := ((t.date.dayNumber * 24 + t.hour) * 60 + t.minute) * 60 + t.second
  ((seconds * 1000000 + t.microsecond : Nat) : Int) - t.offset.getD 0

/-- Two times are the same when both know their offset and they fall on one instant, or when
neither knows it and they read alike. -/
def DateTime.same (a b : DateTime) : Bool := a.offset.isSome == b.offset.isSome && a.instant == b.instant

end OpenApi.Time
