import ListQuery.Json.Encoding
import ListQuery.Value.Basic
import ListQuery.Number.Decimal

/-!
# Reading JSON

Texts of JSON as values: objects become records in the order of their names, of which a later one
replaces an earlier one; integers are exact; `NaN`, `Infinity` and `-Infinity` are numbers.

* `Json.Flaw`       what is wrong with a text, and how much of it was left at that place;
* `Json.Bounds`     what a reader does not put up with;
* `Json.read`       the value of a whole text;
* `Json.readStored` the value of a text that may be in any encoding of JSON.
-/

namespace ListQuery

namespace Json

/-- what is wrong with a text, and how many characters were left where it is; a flaw of no place has
none -/
structure Flaw where
  message : String
  left : Option Nat

abbrev Reader := Except Flaw

def flaw {α : Type} (message : String) (rest : List Char) : Reader α :=
  .error ⟨message, some rest.length⟩

structure Bounds where
  /-- whether half of a character may stand alone -/
  loneHalves : Bool := true
  /-- in how many others a value with parts may stand -/
  deepest : Option Nat := none
  /-- how many digits an integer may have -/
  longestInteger : Option Nat := none

def Bounds.exceeded (bound : Option Nat) (n : Nat) : Bool :=
  match bound with
  | none => false
  | some most => most < n

def Bounds.ofStored : Bounds := { longestInteger := some 4300 }

def Bounds.ofResponse : Bounds :=
  { loneHalves := false, deepest := some 199, longestInteger := some 4300 }

def isSpace (c : Char) : Bool := c = ' ' || c = '\t' || c = '\n' || c = '\r'

def skipSpace (cs : List Char) : List Char := cs.dropWhile isSpace

/-! ## texts -/

def hexDigit? (c : Char) : Option Nat :=
  if c.isDigit then some (c.toNat - '0'.toNat)
  else if 'a' ≤ c ∧ c ≤ 'f' then some (c.toNat - 'a'.toNat + 10)
  else if 'A' ≤ c ∧ c ≤ 'F' then some (c.toNat - 'A'.toNat + 10)
  else none

def unit? : List Char → Option (Nat × List Char)
  | a :: b :: c :: d :: rest => do
    let n := (← hexDigit? a) * 4096 + (← hexDigit? b) * 256 + (← hexDigit? c) * 16 + (← hexDigit? d)
    some (n, rest)
  | _ => none

def escaped? : Char → Option Char
  | '"' => some '"'
  | '\\' => some '\\'
  | '/' => some '/'
  | 'b' => some (Char.ofNat 8)
  | 'f' => some (Char.ofNat 12)
  | 'n' => some '\n'
  | 'r' => some '\r'
  | 't' => some '\t'
  | _ => none

/-- the character of one unit, or of two halves; half of a character alone is none -/
def character? (n : Nat) (rest : List Char) : Option Char × List Char :=
  if Encoding.isHighHalf n then
    match rest with
    | '\\' :: 'u' :: more => match unit? more with
      | some (m, after) =>
        if Encoding.isLowHalf m && !after.isEmpty then (some (Encoding.joinHalves n m), after)
        else (none, rest)
      | none => (none, rest)
    | _ => (none, rest)
  else if Encoding.isLowHalf n then (none, rest)
  else (some (Char.ofNat n), rest)

/-- the text up to the closing quote, in reverse; `opened` is what was left at the opening one -/
def textFrom (bounds : Bounds) (opened : Nat) : (fuel : Nat) → (soFar : List Char) → List Char →
    Reader (List Char × List Char)
  | 0, _, _ => .error ⟨"Unterminated string starting at", some opened⟩
  | fuel + 1, soFar, cs =>
    match cs with
    | [] => .error ⟨"Unterminated string starting at", some opened⟩
    | '"' :: rest => .ok (soFar, rest)
    | ['\\'] => .error ⟨"Unterminated string starting at", some opened⟩
    | '\\' :: 'u' :: rest =>
      match unit? rest with
      | none => flaw "Invalid \\uXXXX escape" ('u' :: rest)
      | some (n, after) =>
        if after.isEmpty then flaw "Invalid \\uXXXX escape" ('u' :: rest)
        else
          match character? n after with
          | (some c, after) => textFrom bounds opened fuel (c :: soFar) after
          | (none, after) =>
            if bounds.loneHalves then textFrom bounds opened fuel (Encoding.replacement :: soFar) after
            else flaw "Lone surrogate" ('u' :: rest)
    | '\\' :: e :: rest =>
      match escaped? e with
      | none => flaw "Invalid \\escape" cs
      | some c => textFrom bounds opened fuel (c :: soFar) rest
    | c :: rest =>
      if c.toNat < 0x20 then flaw "Invalid control character at" cs
      else textFrom bounds opened fuel (c :: soFar) rest

def text (bounds : Bounds) (rest : List Char) : Reader (String × List Char) := do
  let (reversed, after) ← textFrom bounds (rest.length + 1) (rest.length + 1) [] rest
  return (String.ofList reversed.reverse, after)

/-! ## numbers -/

def wholeDigits? (cs : List Char) : Option (List Char × List Char) :=
  match cs with
  | '0' :: rest => some (['0'], rest)
  | _ =>
    let ds := cs.takeWhile Char.isDigit
    if ds.isEmpty then none else some (ds, cs.dropWhile Char.isDigit)

def fractionDigits (cs : List Char) : List Char × List Char :=
  match cs with
  | '.' :: rest =>
    let ds := rest.takeWhile Char.isDigit
    if ds.isEmpty then ([], cs) else (ds, rest.dropWhile Char.isDigit)
  | _ => ([], cs)

def exponent? (cs : List Char) : Option (Int × List Char) :=
  match cs with
  | e :: rest =>
    if e = 'e' ∨ e = 'E' then
      let (negative, ds) := match rest with
        | '-' :: r => (true, r)
        | '+' :: r => (false, r)
        | r => (false, r)
      let digits := ds.takeWhile Char.isDigit
      if digits.isEmpty then none
      else some (Binary64.signed negative (Decimal.natOf digits), ds.dropWhile Char.isDigit)
    else none
  | [] => none

def tooLong (most digits : Nat) : String :=
  "Exceeds the limit (" ++ toString most ++ " digits) for integer string conversion: value has "
    ++ toString digits ++ " digits; use sys.set_int_max_str_digits() to increase the limit"

def integer (bounds : Bounds) (negative : Bool) (digits : List Char) : Reader Value :=
  if Bounds.exceeded bounds.longestInteger digits.length then
    .error ⟨tooLong (bounds.longestInteger.getD 0) digits.length, none⟩
  else .ok (.int (Binary64.signed negative (Decimal.natOf digits)))

/-- a number, an integer unless it has a fraction or an exponent -/
def number (bounds : Bounds) (cs : List Char) : Reader (Value × List Char) := do
  let (negative, ds) := match cs with
    | '-' :: r => (true, r)
    | r => (false, r)
  match wholeDigits? ds with
  | none => flaw "Expecting value" cs
  | some (whole, rest) =>
    let (fraction, rest) := fractionDigits rest
    match exponent? rest with
    | some (e, after) => return (.float (Decimal.ofDigits negative whole fraction e), after)
    | none =>
      if fraction.isEmpty then return (← integer bounds negative whole, rest)
      else return (.float (Decimal.ofDigits negative whole fraction 0), rest)

/-! ## values -/

def after? (word : String) (cs : List Char) : Option (List Char) :=
  let w := word.toList
  if w.isPrefixOf cs then some (cs.drop w.length) else none

def words : List (String × Value) :=
  [("null", .null), ("true", .bool true), ("false", .bool false), ("NaN", .float (.nan 0)),
    ("Infinity", .float (.infinity false)), ("-Infinity", .float (.infinity true))]

def plain (bounds : Bounds) (cs : List Char) : Reader (Value × List Char) :=
  match words.findSome? fun entry => (after? entry.1 cs).map (entry.2, ·) with
  | some answer => .ok answer
  | none => number bounds cs

def checkDepth (bounds : Bounds) (depth : Nat) (cs : List Char) : Reader Unit :=
  if Bounds.exceeded bounds.deepest depth then flaw "Recursion limit exceeded" cs else .ok ()

mutual

def value (bounds : Bounds) : (fuel depth : Nat) → List Char → Reader (Value × List Char)
  | 0, _, cs => flaw "Expecting value" cs
  | fuel + 1, depth, cs =>
    match cs with
    | '"' :: rest => do
      let (s, after) ← text bounds rest
      return (.str s, after)
    | '[' :: rest => do
      match skipSpace rest with
      | ']' :: after => return (.list [], after)
      | start =>
        checkDepth bounds depth cs
        let (items, after) ← items bounds fuel (depth + 1) start
        return (.list items, after)
    | '\x7b' :: rest => do
      match skipSpace rest with
      | '\x7d' :: after => return (.record [], after)
      | start =>
        checkDepth bounds depth cs
        let (entries, after) ← entries bounds fuel (depth + 1) [] start
        return (.record entries, after)
    | _ => plain bounds cs

def items (bounds : Bounds) : (fuel depth : Nat) → List Char → Reader (List Value × List Char)
  | 0, _, cs => flaw "Expecting value" cs
  | fuel + 1, depth, cs => do
    let (v, rest) ← value bounds fuel depth cs
    match skipSpace rest with
    | ']' :: after => return ([v], after)
    | ',' :: more =>
      let (others, after) ← items bounds fuel depth (skipSpace more)
      return (v :: others, after)
    | other => flaw "Expecting ',' delimiter" other

def entries (bounds : Bounds) : (fuel depth : Nat) → List (String × Value) → List Char →
    Reader (List (String × Value) × List Char)
  | 0, _, _, cs => flaw "Expecting value" cs
  | fuel + 1, depth, soFar, cs => do
    match cs with
    | '"' :: rest =>
      let (name, rest) ← text bounds rest
      match skipSpace rest with
      | ':' :: more =>
        let (v, rest) ← value bounds fuel depth (skipSpace more)
        let soFar := Value.put name v soFar
        match skipSpace rest with
        | '\x7d' :: after => return (soFar, after)
        | ',' :: more => entries bounds fuel depth soFar (skipSpace more)
        | other => flaw "Expecting ',' delimiter" other
      | other => flaw "Expecting ':' delimiter" other
    | other => flaw "Expecting property name enclosed in double quotes" other

end

def Flaw.describe (cs : List Char) (f : Flaw) : String :=
  match f.left with
  | none => f.message
  | some left =>
    let before := cs.take (cs.length - left)
    let line := before.count '\n' + 1
    let column := (before.reverse.takeWhile (· ≠ '\n')).length + 1
    f.message ++ ": line " ++ toString line ++ " column " ++ toString column
      ++ " (char " ++ toString before.length ++ ")"

def whole (bounds : Bounds) (cs : List Char) : Reader Value := do
  let (v, rest) ← value bounds (2 * cs.length + 2) 0 (skipSpace cs)
  match skipSpace rest with
  | [] => return v
  | more => flaw "Extra data" more

/-- the value of a whole text, or what is wrong with it -/
def read (bounds : Bounds) (s : String) : Except String Value :=
  (whole bounds s.toList).mapError (Flaw.describe s.toList)

def readStored (s : String) : Except String Value := do
  let cs ← recode s
  (whole .ofStored cs).mapError (Flaw.describe cs)

end Json

end ListQuery
