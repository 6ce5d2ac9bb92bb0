/-!
# Doubles as exact numbers

A double is not a number, an infinity, or `± m · 2^e`.  Every operation computes the exact result
as a ratio of naturals and rounds once, to the nearest double, a tie going to the even significand:

* `roundDiv`   the nearest natural to a quotient, ties to even;
* `ofRatio`    the nearest double to a ratio, an infinity when it is too large;
* `compare?`   exact order, undefined when a side is not a number;
* `add`, `sub`, `mul`, `div`, `ofInt?`, `truncate?`, `floor?`, `nearest?`,
  `ceil?`.

`finite` is also used as an exact comparison operand with a significand of any size
(`exactly`); the doubles proper are the values `ofRatio` returns.
-/

namespace ListQuery

/-- a double: `finite negative m e` is `± m · 2^e`; the payload of what is not a number tells one
such double from another -/
inductive Binary64 where
  | nan (payload : Nat)
  | infinity (negative : Bool)
  | finite (negative : Bool) (m : Nat) (e : Int)
  deriving DecidableEq, Inhabited

namespace Binary64

/-! ## rounding -/

/-- the natural nearest to `n / d`; a tie goes to the even one -/
def roundDiv (n d : Nat) : Nat :=
  let q := n / d
  let r := n % d
  if 2 * r < d then q else if d < 2 * r then q + 1 else q + q % 2

def leastExponent : Int := -1074

def greatestExponent : Int := 971

def significandLimit : Nat := Nat.pow 2 53

/-- `n / d` in units of `2^e`, as a ratio of naturals -/
def inUnits (n d : Nat) (e : Int) : Nat × Nat :=
  (n * Nat.pow 2 (-e).toNat, d * Nat.pow 2 e.toNat)

/-- the exponent at which `n / d` has a significand below `significandLimit` -/
def exponentFor (n d : Nat) : Int :=
  let low := max ((n.log2 : Int) - (d.log2 : Int) - 53) leastExponent
  let (n', d') := inUnits n d low
  if n' / d' < significandLimit then low else low + 1

/-- the double nearest to `± n / d`, for `d` above zero -/
def ofRatio (negative : Bool) (n d : Nat) : Binary64 :=
  if n = 0 then .finite negative 0 leastExponent
  else
    let e := exponentFor n d
    let (n', d') := inUnits n d e
    let m := roundDiv n' d'
    let (m, e) := if m = significandLimit then (significandLimit / 2, e + 1) else (m, e)
    if greatestExponent < e then .infinity negative else .finite negative m e

def ofScaled (negative : Bool) (m : Nat) (e : Int) : Binary64 :=
  ofRatio negative (m * Nat.pow 2 e.toNat) (Nat.pow 2 (-e).toNat)

/-- the integer itself, unrounded, as an operand of `compare?` -/
def exactly (n : Int) : Binary64 := .finite (n < 0) n.natAbs 0

def ofInt? (n : Int) : Option Binary64 :=
  match ofRatio (n < 0) n.natAbs 1 with
  | .infinity _ => none
  | x => some x

def zero : Binary64 := .finite false 0 leastExponent

/-! ## order -/

def signed (negative : Bool) (m : Nat) : Int := if negative then -(m : Int) else m

def inUnitsOf (base : Int) (negative : Bool) (m : Nat) (e : Int) : Int :=
  signed negative (m * Nat.pow 2 (e - base).toNat)

/-- the exact order of two doubles; none if either is not a number -/
def compare? : Binary64 → Binary64 → Option Ordering
  | .nan _, _ => none
  | _, .nan _ => none
  | .infinity a, .infinity b => some (compare b.toNat a.toNat)
  | .infinity a, .finite .. => some (if a then .lt else .gt)
  | .finite .., .infinity b => some (if b then .gt else .lt)
  | .finite a m e, .finite b n f =>
    let base := min e f
    some (compare (inUnitsOf base a m e) (inUnitsOf base b n f))

def isZero : Binary64 → Bool
  | .finite _ m _ => m = 0
  | _ => false

def isNaN : Binary64 → Bool
  | .nan _ => true
  | _ => false

/-- the one double, not only an equal one, where it is not a number -/
def sameNaN : Binary64 → Binary64 → Bool
  | .nan p, .nan q => p == q
  | _, _ => false

def exceeds (x y : Binary64) : Bool := compare? x y == some .gt

/-! ## arithmetic -/

def neg : Binary64 → Binary64
  | .nan payload => .nan payload
  | .infinity a => .infinity !a
  | .finite a m e => .finite (!a) m e

def add : Binary64 → Binary64 → Binary64
  | .nan payload, _ => .nan payload
  | _, .nan payload => .nan payload
  | .infinity a, .infinity b => if a = b then .infinity a else .nan 0
  | .infinity a, .finite .. => .infinity a
  | .finite .., .infinity b => .infinity b
  | .finite a m e, .finite b n f =>
    let base := min e f
    let sum := inUnitsOf base a m e + inUnitsOf base b n f
    if sum = 0 then .finite (a && b) 0 leastExponent
    else ofScaled (sum < 0) sum.natAbs base

def sub (x y : Binary64) : Binary64 := add x (neg y)

def mul : Binary64 → Binary64 → Binary64
  | .nan payload, _ => .nan payload
  | _, .nan payload => .nan payload
  | .infinity a, .infinity b => .infinity (a != b)
  | .infinity a, .finite b n _ => if n = 0 then .nan 0 else .infinity (a != b)
  | .finite a m _, .infinity b => if m = 0 then .nan 0 else .infinity (a != b)
  | .finite a m e, .finite b n f => ofScaled (a != b) (m * n) (e + f)

def div : Binary64 → Binary64 → Binary64
  | .nan payload, _ => .nan payload
  | _, .nan payload => .nan payload
  | .infinity _, .infinity _ => .nan 0
  | .infinity a, .finite b _ _ => .infinity (a != b)
  | .finite a _ _, .infinity b => .finite (a != b) 0 leastExponent
  | .finite a m e, .finite b n f =>
    ofRatio (a != b) (m * Nat.pow 2 (e - f).toNat) (n * Nat.pow 2 (f - e).toNat)

/-! ## integers -/

inductive NotIntegral where
  | notANumber
  | infinite
  deriving DecidableEq

/-- the integer next to `x` on the side of zero -/
def truncate? : Binary64 → Except NotIntegral Int
  | .nan _ => .error .notANumber
  | .infinity _ => .error .infinite
  | .finite a m e => .ok (signed a (m * Nat.pow 2 e.toNat / Nat.pow 2 (-e).toNat))

def ceil? : Binary64 → Except NotIntegral Int
  | .nan _ => .error .notANumber
  | .infinity _ => .error .infinite
  | .finite a m e =>
    let d : Nat := Nat.pow 2 (-e).toNat
    let n : Nat := m * Nat.pow 2 e.toNat
    .ok (if a then -((n / d : Nat) : Int) else ((n + d - 1) / d : Nat))

def floor? : Binary64 → Except NotIntegral Int
  | .nan _ => .error .notANumber
  | .infinity _ => .error .infinite
  | .finite a m e =>
    .ok ((signed a (m * Nat.pow 2 e.toNat)).fdiv (Nat.pow 2 (-e).toNat : Nat))

/-- the integer nearest to `x`; a half is rounded up -/
def nearest? : Binary64 → Except NotIntegral Int
  | .nan _ => .error .notANumber
  | .infinity _ => .error .infinite
  | .finite a m e =>
    let d : Nat := Nat.pow 2 (-e).toNat
    .ok ((2 * signed a (m * Nat.pow 2 e.toNat) + d).fdiv (2 * d : Nat))

def isIntegral : Binary64 → Bool
  | .finite _ m e => m * Nat.pow 2 e.toNat % Nat.pow 2 (-e).toNat = 0
  | _ => false

end Binary64

end ListQuery
