/-!
# Dates and times of day

The proleptic Gregorian calendar, years 1 to 9999.

* `Date`       a day, with its ordinal (day 1 is the first of January of year 1);
* `Instant`    a date and a time of day, with an offset from universal time or without one;
* `Instant.microseconds`  the position on the universal time line that orders instants.
-/

namespace ListQuery

structure Date where
  year : Nat
  month : Nat
  day : Nat
  deriving DecidableEq, Inhabited

namespace Date

def isLeap (year : Nat) : Bool :=
  year % 4 = 0 && (year % 100 ≠ 0 || year % 400 = 0)

def daysInMonth (year month : Nat) : Nat :=
  if month = 2 then (if isLeap year then 29 else 28)
  else if month = 4 ∨ month = 6 ∨ month = 9 ∨ month = 11 then 30
  else 31

def of? (year month day : Nat) : Option Date :=
  if 1 ≤ year ∧ year ≤ 9999 ∧ 1 ≤ month ∧ month ≤ 12 ∧ 1 ≤ day ∧ day ≤ daysInMonth year month then
    some ⟨year, month, day⟩
  else none

def daysInYear (year : Nat) : Nat := if isLeap year then 366 else 365

def daysBeforeYear (year : Nat) : Nat :=
  let y := year - 1
  y * 365 + y / 4 - y / 100 + y / 400

def daysBeforeMonth (year : Nat) : Nat → Nat
  | 0 => 0
  | month + 1 => if month = 0 then 0 else daysBeforeMonth year month + daysInMonth year month

def ordinal (d : Date) : Nat :=
  daysBeforeYear d.year + daysBeforeMonth d.year d.month + d.day

/-- the date `n` days after the last of December of the year before `year`, looking `fuel` months on -/
def inMonth (year : Nat) : (fuel month n : Nat) → Date
  | 0, month, n => ⟨year, month, n⟩
  | fuel + 1, month, n =>
    let days := daysInMonth year month
    if n ≤ days then ⟨year, month, n⟩ else inMonth year fuel (month + 1) (n - days)

/-- day `n` of a year, if the year has it; a day below 1 or past the end lies in a neighbouring year -/
def ofYearDay? (year : Nat) (n : Int) : Option Date :=
  let (year, n) : Nat × Int :=
    if n < 1 then (year - 1, n + daysInYear (year - 1))
    else if n > daysInYear year then (year + 1, n - daysInYear year)
    else (year, n)
  if 1 ≤ year ∧ year ≤ 9999 then some (inMonth year 11 1 n.toNat) else none

/-- the weekday, Monday being 0 -/
def weekday (d : Date) : Nat := (d.ordinal + 6) % 7

/-- the date of a day of a numbered week; week 1 is the one with the first Thursday -/
def ofWeek? (year week day : Nat) : Option Date :=
  if year < 1 ∨ 9999 < year ∨ week < 1 ∨ 53 < week ∨ day < 1 ∨ 7 < day then none
  else
    let first := weekday ⟨year, 1, 1⟩
    let long := first = 3 ∨ (first = 2 ∧ isLeap year)
    if week = 53 ∧ ¬ long then none
    else
      let monday : Int := 1 - (first : Int) + (if first > 3 then 7 else 0)
      ofYearDay? year (monday + 7 * ((week : Int) - 1) + ((day : Int) - 1))

def compare (a b : Date) : Ordering := Ord.compare a.ordinal b.ordinal

end Date

/-- a date and a time of day; `offset` is the distance to universal time in microseconds -/
structure Instant where
  date : Date
  hour : Nat
  minute : Nat
  second : Nat
  microsecond : Nat
  offset : Option Int
  deriving DecidableEq, Inhabited

namespace Instant

def midnight (d : Date) : Instant := ⟨d, 0, 0, 0, 0, none⟩

def timeOfDay (hour minute second microsecond : Nat) : Nat :=
  ((hour * 60 + minute) * 60 + second) * 1000000 + microsecond

def dayLength : Nat := 86400000000

/-- the position on the local time line -/
def localMicroseconds (t : Instant) : Int :=
  t.date.ordinal * dayLength + timeOfDay t.hour t.minute t.second t.microsecond

/-- the position on the universal time line, an instant without offset keeping its local one -/
def microseconds (t : Instant) : Int := t.localMicroseconds - t.offset.getD 0

/-- instants are ordered when both or neither have an offset -/
def compare? (a b : Instant) : Option Ordering :=
  if a.offset.isSome = b.offset.isSome then some (compare a.microseconds b.microseconds) else none

/-- the same instant; one with an offset never equals one without -/
def same (a b : Instant) : Bool := compare? a b == some .eq

end Instant

end ListQuery
