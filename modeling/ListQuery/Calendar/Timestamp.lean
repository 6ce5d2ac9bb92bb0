import ListQuery.Calendar.Iso
import ListQuery.Number.Decimal

/-!
# Timestamps

The forms in which a message may give an instant.  A year 0 is read, though no instant lies in it.

* `Timestamp.read?`        a date, or a date and a time with an optional offset (RFC 3339);
* `Timestamp.ofSeconds?`   seconds since the start of 1970, milliseconds where that would be late;
* `Timestamp.ofDouble?`    the same with a fraction, to the nearest microsecond;
* `Timestamp.ofNumeral?`   the same, written out.
-/

namespace ListQuery

namespace Timestamp

/-! ## dates and times -/

def ofParts? (year month day : Nat) : Option Date :=
  if year ≠ 0 then Date.of? year month day
  else if 1 ≤ month ∧ month ≤ 12 ∧ 1 ≤ day ∧ day ≤ Date.daysInMonth 0 month then
    some ⟨0, month, day⟩
  else none

def date? (cs : List Char) : Option (Date × List Char) := do
  let (year, rest) ← Iso.number? 4 0 cs
  let '-' :: rest := rest | none
  let (month, rest) ← Iso.number? 2 0 rest
  let '-' :: rest := rest | none
  let (day, rest) ← Iso.number? 2 0 rest
  some (← ofParts? year month day, rest)

/-- the microseconds of a fraction after its point, cut to six digits, and what follows it -/
def fraction? (cs : List Char) : Option (Nat × List Char) := do
  let digits := cs.takeWhile Char.isDigit
  let used := min 6 digits.length
  let (n, _) ← Iso.number? used 0 digits
  if used = 0 then none else some (n * Nat.pow 10 (6 - used), cs.dropWhile Char.isDigit)

def seconds? (cs : List Char) : Option (Nat × Nat × List Char) := do
  let (second, rest) ← Iso.number? 2 0 cs
  match rest with
  | [] => some (second, 0, [])
  | c :: after =>
    if c = '.' ∨ c = ',' then
      let (microsecond, rest) ← fraction? after
      some (second, microsecond, rest)
    else some (second, 0, rest)

def time? (cs : List Char) : Option (Iso.Clock × List Char) := do
  let (hour, rest) ← Iso.number? 2 0 cs
  let ':' :: rest := rest | none
  let (minute, rest) ← Iso.number? 2 0 rest
  let (second, microsecond, rest) ← match rest with
    | ':' :: rest => seconds? rest
    | rest => some (0, 0, rest)
  if hour < 24 ∧ minute < 60 ∧ second < 60 then some (⟨hour, minute, second, microsecond⟩, rest)
  else none

/-- `Z`, or a sign with `HH:MM` or `HHMM`, or nothing at all, up to the end -/
def offset? : List Char → Option (Option Int)
  | [] => some none
  | [c] => if c = 'Z' ∨ c = 'z' then some (some 0) else none
  | mark :: rest => do
    let (hour, rest) ← Iso.number? 2 0 rest
    let (minute, rest) ← Iso.number? 2 0 (match rest with
      | ':' :: rest => rest
      | rest => rest)
    let us : Int := Instant.timeOfDay hour minute 0 0
    if hour < 24 ∧ minute < 60 ∧ rest.isEmpty then
      if mark = '+' then some (some us)
      else if mark = '-' ∨ mark = '\u2212' then some (some (-us))
      else none
    else none

def read? (cs : List Char) : Option Instant := do
  let (date, rest) ← date? cs
  match rest with
  | [] => some (.midnight date)
  | separator :: rest =>
    if separator = 'T' ∨ separator = 't' ∨ separator = ' ' ∨ separator = '_' then
      let (c, rest) ← time? rest
      let offset ← offset? rest
      some ⟨date, c.hour, c.minute, c.second, c.microsecond, offset⟩
    else none

/-! ## counts -/

/-- the date of a day, the first of January of the year 1 being day 1 and those of the year 0 coming
before it -/
def dateOfDay? (n : Int) : Option Date :=
  if -366 < n ∧ n ≤ 0 then some (Date.inMonth 0 11 1 (n + 366).toNat)
  else
    let year := ((n - 1) * 400 / 146097 + 1).toNat
    Date.ofYearDay? year (n - Date.daysBeforeYear year)

def firstDay : Date := ⟨1970, 1, 1⟩

/-- counts above this are milliseconds -/
def secondsLimit : Int := 20000000000

def ofMicroseconds? (us : Int) : Option Instant := do
  let date ← dateOfDay? (firstDay.ordinal + us.fdiv Instant.dayLength)
  let rest := (us.fmod Instant.dayLength).toNat
  let second := rest / 1000000
  some ⟨date, second / 3600, second / 60 % 60, second % 60, rest % 1000000, some 0⟩

/-- the instant after so many seconds, or milliseconds if they are many -/
def ofSeconds? (n : Int) : Option Instant :=
  ofMicroseconds? (if n.natAbs ≤ secondsLimit then n * 1000000 else n * 1000)

def ofDouble? (x : Binary64) : Option Instant := do
  let limit := Binary64.exactly secondsLimit
  let many := x.exceeds limit || limit.neg.exceeds x
  let x := if many then x.div (.ofRatio false 1000 1) else x
  let seconds ← x.floor?.toOption
  let fraction := x.sub (← Binary64.ofInt? seconds)
  let us ← (fraction.mul (.ofRatio false 1000000 1)).nearest?.toOption
  ofMicroseconds? (seconds * 1000000 + us)

/-- counts from here on are not read, whatever their exponent -/
def countLimit : Nat := Nat.pow 2 63

/-- a count written in digits with an optional sign; only one with a point may have an exponent -/
def ofNumeral? (cs : List Char) : Option Instant := do
  let (negative, digits) := match cs with
    | '-' :: rest => (true, rest)
    | '+' :: rest => (false, rest)
    | rest => (false, rest)
  let whole := digits.takeWhile Char.isDigit
  if countLimit ≤ Decimal.natOf whole then none
  else match digits.dropWhile Char.isDigit with
    | [] =>
      if whole.isEmpty then none else ofSeconds? (Binary64.signed negative (Decimal.natOf whole))
    | '.' :: _ => ofDouble? (← Decimal.unsigned? negative digits)
    | _ => none

end Timestamp

end ListQuery
