import ListQuery.Text.Classes
import ListQuery.Text.Search
import ListQuery.Number.Binary64

/-!
# Integers written as text

* `lenient?`  decimal digits of any script, white space around them, single underscores between them;
* `cleaned?`  a text without what an integer field allows around its digits: white space, a plus sign,
              leading zeros, a point with zeros after it, underscores;
* `plain?`    the integer of a sign and ASCII digits.
-/

namespace ListQuery.Numeral

/-- the value of digits with single underscores between them; `last` is the value so far, none at
the start and after an underscore -/
def grouped? (digit? : Char → Option Nat) : (last : Option Nat) → (soFar : Nat) → List Char → Option Nat
  | last, _, [] => last
  | last, soFar, c :: rest =>
    if c = '_' then
      match last with
      | none => none
      | some _ => grouped? digit? none soFar rest
    else match digit? c with
      | none => none
      | some d => grouped? digit? (some (10 * soFar + d)) (10 * soFar + d) rest

/-- the most digits that an integer is read from and written with -/
def mostDigits : Nat := 4300

def sign (cs : List Char) : Bool × List Char :=
  match cs with
  | '-' :: r => (true, r)
  | '+' :: r => (false, r)
  | r => (false, r)

/-- an integer in digits of any script -/
def lenient? (s : String) : Option Int :=
  let (negative, ds) := sign (Text.strip Text.isWhiteSpace s.toList)
  if mostDigits < (ds.filter (· ≠ '_')).length then none
  else (grouped? Text.digitValue? none 0 ds).map (Binary64.signed negative)

/-! ## fields -/

def startsNumber (c : Char) : Bool := c = '-' || (c.isDigit && c ≠ '0')

/-- what is left behind leading zeros and the underscores among them: a digit or a minus sign and
what follows it, a point with the character before it, or the last of the characters -/
def afterZeros? (last : Char) : List Char → Option (List Char)
  | [] => some [last]
  | c :: rest =>
    if c = '0' || c = '_' then afterZeros? c rest
    else if c = '.' then some (last :: c :: rest)
    else if startsNumber c then some (c :: rest)
    else none

def dropLeadingZeros? : List Char → Option (List Char)
  | [] => none
  | c :: rest =>
    if c = '0' then afterZeros? c rest else if startsNumber c then some (c :: rest) else none

def dropZeroFraction? (cs : List Char) : Option (List Char) :=
  match cs.dropWhile (· ≠ '.') with
  | [] => some cs
  | _ :: zeros =>
    if zeros ≠ [] ∧ zeros.all (· = '0') then some (cs.takeWhile (· ≠ '.')) else none

/-- a text without its underscores, which stand alone and not at an end -/
def dropUnderscores? (cs : List Char) : Option (List Char) :=
  if (Text.splitOn '_' cs).all (· ≠ []) then some (cs.filter (· ≠ '_')) else none

def cleaned? (s : String) : Option (List Char) := do
  let cs ← match Text.strip Text.isWhiteSpace s.toList with
    | '+' :: '-' :: _ => none
    | '+' :: rest => some rest
    | cs => some cs
  dropUnderscores? (← dropZeroFraction? (← dropLeadingZeros? cs))

def asciiDigit? (c : Char) : Option Nat :=
  if c.isDigit then some (c.toNat - '0'.toNat) else none

def plain? (cs : List Char) : Option Int :=
  let (negative, ds) := match cs with
    | '-' :: rest => (true, rest)
    | ds => (false, ds)
  (grouped? asciiDigit? none 0 ds).map (Binary64.signed negative)

end ListQuery.Numeral
