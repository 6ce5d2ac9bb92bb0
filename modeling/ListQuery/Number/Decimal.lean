import ListQuery.Number.Binary64

/-!
# Decimal texts of doubles

* `shortest`      the fewest significant digits that read back as the same double, and of those the
                  nearest to it;
* `DecimalStyle`  the choices of one printed form: where positional notation ends and how an
                  exponent is spelled;
* `fixed`         a given number of places, correctly rounded;
* `readDecimal?`  the double nearest to a decimal numeral.
-/

namespace ListQuery

namespace Decimal

def digits (n : Nat) : List Char := Nat.toDigits 10 n

/-! ## shortest digits -/

/-- the reals that round to `m · 2^e`, in quarters of `2^e`; the ends belong to it iff `m` is even -/
def quarters (m : Nat) (e : Int) : Nat × Nat :=
  let below := if m = Binary64.significandLimit / 2 ∧ Binary64.leastExponent < e then 1 else 2
  (4 * m - below, 4 * m + 2)

/-- `e` such that `10^e ≤ n / d < 10^(e+1)`, for positive `n` and `d` -/
def leadingPlace (n d : Nat) : Int :=
  let guess := ((digits n).length : Int) - ((digits d).length : Int)
  if d * Nat.pow 10 guess.toNat ≤ n * Nat.pow 10 (-guess).toNat then guess else guess - 1

/-- digits `c` and place `g` stand for `c · 10^g`; trailing zeros are given up -/
def dropZeros : Nat → Nat → Int → Nat × Int
  | 0, c, g => (c, g)
  | fuel + 1, c, g => if c ≠ 0 ∧ c % 10 = 0 then dropZeros fuel (c / 10) (g + 1) else (c, g)

/-- the nearer of the two multiples of `10^g` around `m · 2^e` that rounds to it, if one does -/
def onGrid? (m : Nat) (e g : Int) : Option Nat :=
  -- all quantities in units of `2^(e-2)` times `1 / scale`
  let q := e - 2
  let unitN : Nat := Nat.pow 2 q.toNat * Nat.pow 10 (-g).toNat
  let unitD : Nat := Nat.pow 2 (-q).toNat * Nat.pow 10 g.toNat
  let (lo, hi) := quarters m e
  let value := 4 * m * unitN
  let low := value / unitD
  let closed := m % 2 = 0
  let inside (c : Nat) : Bool :=
    let x := c * unitD
    if closed then lo * unitN ≤ x && x ≤ hi * unitN else lo * unitN < x && x < hi * unitN
  let down := value - low * unitD
  let up := (low + 1) * unitD - value
  match inside low, inside (low + 1) with
  | true, true =>
    if down < up then some low else if up < down then some (low + 1)
    else some (if low % 2 = 0 then low else low + 1)
  | true, false => some low
  | false, true => some (low + 1)
  | false, false => none

/-- the first of the grids with `count`, `count + 1`, … digits that holds a number rounding to it -/
def search (m : Nat) (e place : Int) : Nat → Nat → Nat × Int
  | 0, _ => (0, 0)
  | fuel + 1, count =>
    let g := place - count + 1
    match onGrid? m e g with
    | some c => dropZeros 20 c g
    | none => search m e place fuel (count + 1)

/-- digits `c` and place `g` such that `c · 10^g` is the shortest decimal that rounds to
`m · 2^e`, for `m` above zero -/
def shortest (m : Nat) (e : Int) : Nat × Int :=
  search m e (leadingPlace (m * Nat.pow 2 e.toNat) (Nat.pow 2 (-e).toNat)) 17 1

/-! ## printed forms -/

end Decimal

structure DecimalStyle where
  /-- the smallest leading place written without an exponent -/
  leastPlace : Int
  /-- the first leading place written with an exponent again -/
  placeLimit : Int
  /-- the least number of exponent digits -/
  exponentWidth : Nat
  notANumber : String
  infinite : String
  negativeInfinite : String

namespace DecimalStyle

/-- records, cache keys and exports: `1e+16`, `1e-05`, `0.0001` -/
def scientific : DecimalStyle := ⟨-4, 16, 2, "nan", "inf", "-inf"⟩

/-- delivered and stored responses: `1e+16`, `1e-6`, `0.00001`; what is not finite is null -/
def compact : DecimalStyle := ⟨-5, 16, 1, "null", "null", "null"⟩

/-- exported and keyed JSON: as `scientific`, with names for what is not finite -/
def json : DecimalStyle :=
  { scientific with notANumber := "NaN", infinite := "Infinity", negativeInfinite := "-Infinity" }

def positional (ds : List Char) (place : Int) : List Char :=
  if place < 0 then '0' :: '.' :: (List.replicate (-place - 1).toNat '0' ++ ds)
  else
    let whole := place.toNat + 1
    let padded := ds ++ List.replicate (whole - ds.length) '0'
    let rest := padded.drop whole
    padded.take whole ++ '.' :: (if rest.isEmpty then ['0'] else rest)

def exponential (style : DecimalStyle) (ds : List Char) (place : Int) : List Char :=
  let mantissa := match ds with
    | d :: r@(_ :: _) => d :: '.' :: r
    | short => short
  let exponent := Decimal.digits place.natAbs
  let sign := if place < 0 then '-' else '+'
  mantissa ++ 'e' :: sign :: (List.replicate (style.exponentWidth - exponent.length) '0' ++ exponent)

def render (style : DecimalStyle) : Binary64 → String
  | .nan _ => style.notANumber
  | .infinity false => style.infinite
  | .infinity true => style.negativeInfinite
  | .finite negative m e =>
    let body :=
      if m = 0 then ['0', '.', '0']
      else
        let (c, g) := Decimal.shortest m e
        let ds := Decimal.digits c
        let place := g + ds.length - 1
        if style.leastPlace ≤ place ∧ place < style.placeLimit then positional ds place
        else style.exponential ds place
    String.ofList (if negative then '-' :: body else body)

end DecimalStyle

namespace Decimal

/-- `x` with exactly `places` digits after the point -/
def fixed (places : Nat) : Binary64 → String
  | .nan _ => "nan"
  | .infinity negative => if negative then "-inf" else "inf"
  | .finite negative m e =>
    let scaled := Binary64.roundDiv (m * Nat.pow 2 e.toNat * Nat.pow 10 places) (Nat.pow 2 (-e).toNat)
    let ds := digits scaled
    let padded := List.replicate (places + 1 - ds.length) '0' ++ ds
    let whole := padded.length - places
    let body := padded.take whole ++ (if places = 0 then [] else '.' :: padded.drop whole)
    String.ofList (if negative then '-' :: body else body)

/-! ## reading -/

def natOf (ds : List Char) : Nat := ds.foldl (fun n c => 10 * n + (c.toNat - '0'.toNat)) 0

/-- the double nearest to `± whole.fraction · 10^exponent`; from `10^309` on that is an infinity, and
below `10^(-330)` a zero -/
def ofDigits (negative : Bool) (whole fraction : List Char) (exponent : Int) : Binary64 :=
  let g := exponent - fraction.length
  let ds := (whole ++ fraction).dropWhile (· = '0')
  if ds.isEmpty || ds.length + g < -329 then Binary64.ofRatio negative 0 1
  else if 309 < ds.length + g then .infinity negative
  else Binary64.ofRatio negative (natOf ds * Nat.pow 10 g.toNat) (Nat.pow 10 (-g).toNat)

def exponentOf? (cs : List Char) : Option Int :=
  let signed (ds : List Char) (negative : Bool) : Option Int :=
    if ds.isEmpty || !ds.all Char.isDigit then none
    else some (Binary64.signed negative (natOf ds))
  match cs with
  | '-' :: ds => signed ds true
  | '+' :: ds => signed ds false
  | ds => signed ds false

def unsigned? (negative : Bool) (cs : List Char) : Option Binary64 :=
  let whole := cs.takeWhile Char.isDigit
  let afterWhole := cs.dropWhile Char.isDigit
  let (fraction, rest) := match afterWhole with
    | '.' :: r => (r.takeWhile Char.isDigit, r.dropWhile Char.isDigit)
    | r => ([], r)
  if whole.isEmpty && fraction.isEmpty then none
  else match rest with
    | [] => some (ofDigits negative whole fraction 0)
    | 'e' :: r => (exponentOf? r).map (ofDigits negative whole fraction)
    | 'E' :: r => (exponentOf? r).map (ofDigits negative whole fraction)
    | _ => none

/-- reads what `DecimalStyle.scientific` writes, and every other decimal numeral -/
def read? (s : String) : Option Binary64 :=
  match s.toList with
  | ['n', 'a', 'n'] => some (.nan 0)
  | ['i', 'n', 'f'] => some (.infinity false)
  | ['-', 'i', 'n', 'f'] => some (.infinity true)
  | '-' :: cs => unsigned? true cs
  | '+' :: cs => unsigned? false cs
  | cs => unsigned? false cs

end Decimal

end ListQuery
