import ListQuery.Calendar.Date
import ListQuery.Text.Search
import ListQuery.Text.Classes

/-!
# Dates and times in ISO 8601

* `Date.iso`, `Instant.iso`   the extended forms `2024-01-02` and `2024-01-02T03:04:05.000006+07:00`,
                              fractions and offset seconds only when they are not zero;
* `Instant.ofIso?`            calendar dates, week dates, basic and extended forms, any character
                              between date and time, and fractions cut to microseconds.
-/

namespace ListQuery

namespace Iso

/-- `n` in decimal, with zeros in front up to `width` -/
def padded (width n : Nat) : List Char :=
  let ds := Nat.toDigits 10 n
  List.replicate (width - ds.length) '0' ++ ds

def date (d : Date) : List Char :=
  padded 4 d.year ++ '-' :: (padded 2 d.month ++ '-' :: padded 2 d.day)

def time (t : Instant) : List Char :=
  padded 2 t.hour ++ ':' :: (padded 2 t.minute ++ ':' :: padded 2 t.second)
    ++ (if t.microsecond = 0 then [] else '.' :: padded 6 t.microsecond)

/-- an offset in microseconds; seconds and their fraction only when they are not zero -/
def offset (us : Int) : List Char :=
  let n := us.natAbs
  let fraction := n % 1000000
  let seconds := n / 1000000
  let sign := if us < 0 then '-' else '+'
  sign :: (padded 2 (seconds / 3600) ++ ':' :: padded 2 (seconds / 60 % 60))
    ++ (if seconds % 60 = 0 ∧ fraction = 0 then [] else ':' :: padded 2 (seconds % 60))
    ++ (if fraction = 0 then [] else '.' :: padded 6 fraction)

def instant (separator : Char) (t : Instant) : List Char :=
  date t.date ++ separator :: (time t ++ (t.offset.map offset).getD [])

/-! ## reading -/

/-- the value of exactly `count` digits, and what follows them -/
def number? : (count soFar : Nat) → List Char → Option (Nat × List Char)
  | 0, n, rest => some (n, rest)
  | count + 1, n, c :: rest =>
    if c.isDigit then number? count (10 * n + (c.toNat - '0'.toNat)) rest else none
  | _ + 1, _, [] => none

def dateLength? (cs : List Char) : Option Nat :=
  let charAt (i : Nat) : Option Char := cs[i]?
  if cs.length = 7 then some 7
  else if charAt 4 = some '-' then
    if charAt 5 = some 'W' then
      if cs.length < 8 then none
      else if cs.length > 8 ∧ charAt 8 = some '-' then
        if cs.length = 9 then none
        else if ((charAt 10).map Char.isDigit).getD false then some 8
        else some 10
      else some 8
    else some 10
  else if charAt 4 = some 'W' then
    let digits := ((cs.drop 7).takeWhile Char.isDigit).length
    let stop := 7 + digits
    if stop < 9 then some stop else if stop % 2 = 0 then some 7 else some 8
  else some 8

def weekDate? (extended : Bool) (year : Nat) (length : Nat) (cs : List Char) : Option Date := do
  let (week, rest) ← number? 2 0 cs
  let consumed := (if extended then 5 else 4) + 1 + 2
  if consumed < length then
    let rest ← if extended then (match rest with
      | '-' :: r => some r
      | _ => none) else some rest
    let (day, _) ← number? 1 0 rest
    Date.ofWeek? year week day
  else Date.ofWeek? year week 1

/-- a date at the start of `cs`, `length` characters of which belong to it -/
def date? (length : Nat) (cs : List Char) : Option Date := do
  let (year, rest) ← number? 4 0 cs
  let (extended, rest) := match rest with
    | '-' :: r => (true, r)
    | r => (false, r)
  match rest with
  | 'W' :: r => weekDate? extended year length r
  | r =>
    let (month, r) ← number? 2 0 r
    let r ← if extended then (match r with
      | '-' :: r => some r
      | _ => none) else some r
    let (day, r) ← number? 2 0 r
    if cs.length - r.length = length then Date.of? year month day else none

/-- a time of day as read: whether anything is left over, and hour, minute, second, microsecond -/
structure Clock where
  hour : Nat
  minute : Nat
  second : Nat
  microsecond : Nat

def fraction? (hour minute second : Nat) (cs : List Char) : Option (Clock × List Char) := do
  let used := min 6 cs.length
  let (n, rest) ← number? used 0 cs
  some (⟨hour, minute, second, n * Nat.pow 10 (6 - used)⟩, rest.dropWhile Char.isDigit)

/-- `HH[:MM[:SS]]` or `HH[MM[SS]]` with a fraction of a second behind any of them, and what is left
over -/
def clock? (cs : List Char) : Option (Clock × List Char) := do
  let (hour, rest) ← number? 2 0 cs
  match rest with
  | [] => some (⟨hour, 0, 0, 0⟩, [])
  | [c] => if c.toNat < 128 then some (⟨hour, 0, 0, 0⟩, [c]) else none
  | c :: more =>
    if c = '.' ∨ c = ',' then fraction? hour 0 0 more
    else
      let colon := c = ':'
      let (minute, rest) ← number? 2 0 (if colon then more else rest)
      match rest with
      | [] => some (⟨hour, minute, 0, 0⟩, [])
      | [c] => if c.toNat < 128 then some (⟨hour, minute, 0, 0⟩, [c]) else none
      | c :: more =>
        if c = '.' ∨ c = ',' then fraction? hour minute 0 more
        else if colon ∧ c ≠ ':' then none
        else
          let (second, rest) ← number? 2 0 (if colon then more else rest)
          match rest with
          | [] => some (⟨hour, minute, second, 0⟩, [])
          | [c] => if c.toNat < 128 then some (⟨hour, minute, second, 0⟩, [c]) else none
          | c :: more =>
            if c = '.' ∨ c = ',' ∨ (colon ∧ c = ':') then fraction? hour minute second more
            else if colon then none
            else fraction? hour minute second rest

/-- an offset after its sign; less than a second is no offset -/
def offset? (negative : Bool) (cs : List Char) : Option Int := do
  let (c, rest) ← clock? cs
  if rest.isEmpty then
    let us := Instant.timeOfDay c.hour c.minute c.second c.microsecond
    if us < 1000000 then some 0
    else if us < Instant.dayLength then some (if negative then -(us : Int) else us)
    else none
  else none

def time? (cs : List Char) : Option (Clock × Option Int) := do
  let marks (c : Char) : Bool := c = '+' || c = '-' || c = 'Z'
  let (here, zone) := (cs.takeWhile (!marks ·), cs.dropWhile (!marks ·))
  match zone with
  | [] =>
    let (c, rest) ← clock? here
    if rest.isEmpty then some (c, none) else none
  | mark :: after =>
    let (c, _) ← clock? here
    if mark = 'Z' then (if after.isEmpty then some (c, some 0) else none)
    else some (c, some (← offset? (mark = '-') after))

end Iso

def Date.iso (d : Date) : String := String.ofList (Iso.date d)

def Instant.iso (t : Instant) : String := String.ofList (Iso.instant 'T' t)

/-- a date with an optional time; a date alone is its midnight -/
def Instant.ofIso? (cs : List Char) : Option Instant := do
  if cs.length < 7 then none
  else
    let length ← Iso.dateLength? cs
    let date ← Iso.date? length cs
    match cs.drop length with
    | [] => some (.midnight date)
    | _ :: rest =>
      let (c, offset) ← Iso.time? rest
      if c.hour < 24 ∧ c.minute < 60 ∧ c.second < 60 then
        some ⟨date, c.hour, c.minute, c.second, c.microsecond, offset⟩
      else none

end ListQuery
