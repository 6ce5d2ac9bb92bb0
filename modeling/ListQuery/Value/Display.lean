import ListQuery.Fault
import ListQuery.Value.Attribute
import ListQuery.Number.Decimal
import ListQuery.Number.Numeral
import ListQuery.Calendar.Iso
import ListQuery.Text.Quoted

/-!
# The text of a value

An integer of too many digits has no text, and neither has a value whose text has such an integer in
it.  The names that values stand for and the lines of a log take their integers at any length.

* `Value.integerText`   the text of an integer, if it has one;
* `Value.literal`       the text of a value inside another one, where texts are quoted and dates say
                        what they are;
* `Value.shown`         the text of a value on its own;
* `Value.text`          what a value is searched in and written with in keys, if it has a text;
* `Value.display`       the name that a value stands for.
-/

namespace ListQuery

namespace Value

/-- the digits of an integer, however many -/
def signed (n : Int) : List Char :=
  let ds := Nat.toDigits 10 n.natAbs
  if n < 0 then '-' :: ds else ds

/-- the text of an integer, which takes only so many digits -/
def integerText (n : Int) : Outcome (List Char) :=
  if (Nat.toDigits 10 n.natAbs).length ≤ Numeral.mostDigits then .ok (signed n)
  else .error .tooManyDigits

def joined (separator : List Char) : List (List Char) → List Char
  | [] => []
  | [s] => s
  | s :: rest => s ++ separator ++ joined separator rest

def commaSeparated (parts : List (List Char)) : List Char := joined [',', ' '] parts

def arguments (ns : List Int) : List Char := commaSeparated (ns.map signed)

def dateLiteral (d : Date) : List Char :=
  "datetime.date(".toList ++ arguments [d.year, d.month, d.day] ++ [')']

/-- a length of time in days, seconds and microseconds, those that are zero left out -/
def durationLiteral (us : Int) : List Char :=
  let day : Int := 86400000000
  let days := us.fdiv day
  let rest := us.fmod day
  let parts := [("days=", days), ("seconds=", rest / 1000000), ("microseconds=", rest % 1000000)]
  let shown := (parts.filter (·.2 ≠ 0)).map fun part => part.1.toList ++ signed part.2
  "datetime.timedelta(".toList ++ (if shown.isEmpty then ['0'] else commaSeparated shown) ++ [')']

def offsetLiteral (us : Int) : List Char :=
  if us = 0 then "datetime.timezone.utc".toList
  else "datetime.timezone(".toList ++ durationLiteral us ++ [')']

/-- seconds and microseconds only as far as they are not zero -/
def instantLiteral (t : Instant) : List Char :=
  let front : List Int := [t.date.year, t.date.month, t.date.day, t.hour, t.minute]
  let back : List Int :=
    if t.microsecond ≠ 0 then [(t.second : Int), t.microsecond]
    else if t.second ≠ 0 then [(t.second : Int)] else []
  "datetime.datetime(".toList ++ arguments (front ++ back)
    ++ (match t.offset with
      | none => []
      | some us => ", tzinfo=".toList ++ offsetLiteral us) ++ [')']

def durationText (us : Int) : List Char :=
  let day : Int := 86400000000
  let days := us.fdiv day
  let rest := (us.fmod day).toNat
  let seconds := rest / 1000000
  let inDays := if days = 0 then []
    else signed days ++ (if days.natAbs = 1 then " day, " else " days, ").toList
  inDays ++ signed (seconds / 3600 : Nat) ++ ':' :: Iso.padded 2 (seconds / 60 % 60)
    ++ ':' :: Iso.padded 2 (seconds % 60)
    ++ (if rest % 1000000 = 0 then [] else '.' :: Iso.padded 6 (rest % 1000000))

def zoneText (us : Int) : List Char :=
  "UTC".toList ++ (if us = 0 then [] else Iso.offset us)

def showsOwner : Option Kind → Bool
  | some .pageMeta | some .unset | some .exact | some .oneOf | some .range | some .flag
  | some .differs | some .related => true
  | _ => false

/-- an operation of a value; where the value stands is left open -/
def builtinLiteral (k : Option Kind) (name : String) : List Char :=
  ("<built-in method " ++ name ++ " of " ++ (k.map Kind.name).getD "" ++ " object at 0x0>").toList

def methodLiteral (k : Option Kind) (owner : List Char) (name : String) : List Char :=
  ("<bound method " ++ (k.map Kind.name).getD "" ++ "." ++ name ++ " of ").toList ++ owner ++ ['>']

def listLiteral (parts : List (List Char)) : List Char := '[' :: (commaSeparated parts ++ [']'])

def tupleLiteral : List (List Char) → List Char
  | [one] => '(' :: (one ++ [',', ')'])
  | parts => '(' :: (commaSeparated parts ++ [')'])

def setLiteral : List (List Char) → List Char
  | [] => "set()".toList
  | parts => '\x7b' :: (commaSeparated parts ++ ['\x7d'])

/-! ## values

`write` gives the texts of the integers in a value. -/

section
variable {m : Type → Type} [Monad m] (write : Int → m (List Char))

def pageMetaParts (counts : PageMeta) : m (List (List Char)) :=
  [("total=", counts.total), ("page=", counts.page), ("limit=", counts.limit),
    ("total_pages=", counts.totalPages)].mapM fun part => do
      return part.1.toList ++ (← write part.2)

mutual

/-- the text of a value inside another one -/
def literal : Value → m (List Char)
  | .null => pure "None".toList
  | .bool b => pure (if b then "True" else "False").toList
  | .int n => write n
  | .float x => pure (DecimalStyle.scientific.render x).toList
  | .str s => pure (Text.quoted s.toList)
  | .list xs => do return listLiteral (← literals xs)
  | .tuple xs => do return tupleLiteral (← literals xs)
  | .set xs => do return setLiteral (← literals xs)
  | .record entries => do
    return '\x7b' :: (commaSeparated (← entryLiterals entries) ++ ['\x7d'])
  | .date d => pure (dateLiteral d)
  | .instant t => pure (instantLiteral t)
  | .object attributes => do
    return "namespace(".toList ++ commaSeparated (← attributeLiterals attributes) ++ [')']
  | .pageMeta counts => do
    return "PageMeta(".toList ++ commaSeparated (← pageMetaParts write counts) ++ [')']
  | .unset => pure "UNSET".toList
  | .condition c => conditionLiteral c
  | .operation owner name =>
    if showsOwner owner.kind? then do return methodLiteral owner.kind? (← literal owner) name
    else pure (builtinLiteral owner.kind? name)
  | .kind k => pure k.text.toList
  | .zone us => pure (offsetLiteral us)
  | .duration us => pure (durationLiteral us)

def literals : List Value → m (List (List Char))
  | [] => pure []
  | v :: rest => do
    let here ← literal v
    return here :: (← literals rest)

def entryLiterals : List (String × Value) → m (List (List Char))
  | [] => pure []
  | (name, v) :: rest => do
    let here ← literal v
    return (Text.quoted name.toList ++ ':' :: ' ' :: here) :: (← entryLiterals rest)

def attributeLiterals : List (String × Value) → m (List (List Char))
  | [] => pure []
  | (name, v) :: rest => do
    let here ← literal v
    return (name.toList ++ '=' :: here) :: (← attributeLiterals rest)

def conditionLiteral : Condition → m (List Char)
  | .exact v => do return "Exact(value=".toList ++ (← literal v) ++ [')']
  | .oneOf vs => do return "ArrayIn(values=".toList ++ tupleLiteral (← literals vs) ++ [')']
  | .range lower upper => do
    let from_ ← literal lower
    return "Range(from_=".toList ++ from_ ++ ", to=".toList ++ (← literal upper) ++ [')']
  | .flag v => do return "Boolean(value=".toList ++ (← literal v) ++ [')']
  | .differs v => do return "NotEqual(value=".toList ++ (← literal v) ++ [')']
  | .related q nested => do
    return "RelationExistence(kind=".toList ++ Text.quoted q.toList
      ++ ", where=".toList ++ (← literal nested) ++ [')']

end

def shown : Value → m (List Char)
  | .str s => pure s.toList
  | .date d => pure (Iso.date d)
  | .instant t => pure (Iso.instant ' ' t)
  | .pageMeta counts => do return joined [' '] (← pageMetaParts write counts)
  | .zone us => pure (zoneText us)
  | .duration us => pure (durationText us)
  | v => literal write v

end

/-- the text of a value, unless there is an integer of too many digits in it -/
def text (v : Value) : Outcome (List Char) := v.shown integerText

/-- the text of a value inside another one, with the same exception -/
def literalText (v : Value) : Outcome (List Char) := v.literal integerText

def atLength (n : Int) : Id (List Char) := pure (signed n)

/-- the name that a value stands for -/
def display (v : Value) : String := String.ofList (Id.run (v.shown atLength))

/-- a value as a line of a log has it -/
def logged (v : Value) : String := String.ofList (Id.run (v.literal atLength))

end Value

end ListQuery
