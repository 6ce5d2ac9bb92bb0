import ListQuery.Value.Attribute
import ListQuery.Value.Compare

/-!
# Values as sequences, mappings and numbers

* `items`, `size`, `slice`    a value as a sequence;
* `entries`                   a value as a mapping;
* `pairs`, `namedPairs`       a mapping, or a sequence of pairs;
* `path`, `lookUp`            a value as a path, and as a name to look up;
* `add`, `sub`, `mul`, `div`  arithmetic on booleans, integers and doubles.
-/

namespace ListQuery

namespace Value

/-! ## sequences -/

def items : Value → Outcome (List Value)
  | .list xs => .ok xs
  | .tuple xs => .ok xs
  | .set xs => .ok xs
  | .str s => .ok (s.toList.map fun c => .str (String.singleton c))
  | .record entries => .ok (entries.map fun entry => .str entry.1)
  | .pageMeta m => .ok ((ofPageMeta m).map fun entry => .tuple [.str entry.1, entry.2])
  | _ => .error .wrongKind

def size : Value → Outcome Nat
  | .list xs => .ok xs.length
  | .tuple xs => .ok xs.length
  | .set xs => .ok xs.length
  | .str s => .ok s.length
  | .record entries => .ok entries.length
  | _ => .error .wrongKind

/-- an end of a slice: an integer, or null for the end of the sequence -/
def index? : Value → Outcome (Option Int)
  | .null => .ok none
  | .int n => .ok (some n)
  | .bool b => .ok (some b.toNat)
  | _ => .error .wrongKind

/-- the position a slice end stands for in a sequence of the given length; a negative one counts
from the back -/
def position (length : Nat) (n : Int) : Nat :=
  if n < 0 then (n + length).toNat else min n.toNat length

def takeTo {α : Type} (stop : Option Int) (xs : List α) : List α :=
  match stop with
  | none => xs
  | some n => xs.take (position xs.length n)

def dropTo {α : Type} (start : Option Int) (xs : List α) : List α :=
  match start with
  | none => xs
  | some n => xs.drop (position xs.length n)

def firstItems (v stop : Value) : Outcome (List Value) := do
  match v with
  | .list xs => return takeTo (← stop.index?) xs
  | .tuple xs => return takeTo (← stop.index?) xs
  | .str s => return (takeTo (← stop.index?) s.toList).map fun c => .str (String.singleton c)
  | _ => throw .wrongKind

/-! ## mappings -/

def entries? : Value → Option (List (String × Value))
  | .record entries => some entries
  | _ => none

def entries (v : Value) : Outcome (List (String × Value)) :=
  match v.entries? with
  | some entries => .ok entries
  | none => .error .noMember

def pair (v : Value) : Outcome (Value × Value) := do
  match ← v.items with
  | [name, value] => if name.hashable then return (name, value) else throw .wrongKind
  | _ => throw .badValue

def putPair (name value : Value) : List (Value × Value) → List (Value × Value)
  | [] => [(name, value)]
  | (key, old) :: rest =>
    if key.agrees name then (key, value) :: rest else (key, old) :: putPair name value rest

/-- the entries of a mapping, or of a sequence of pairs of which a later one wins; a name need not be
a text -/
def namedPairs (v : Value) : Outcome (List (Value × Value)) := do
  match v.entries? with
  | some entries => return entries.map fun entry => (.str entry.1, entry.2)
  | none => (← v.items).foldlM (fun named item => do
      let (name, value) ← pair item
      return putPair name value named) []

def pairs (v : Value) : Outcome (List (String × Value)) := do
  (← v.namedPairs).mapM fun entry => match entry.1 with
    | .str name => .ok (name, entry.2)
    | _ => .error .wrongKind

/-! ## names -/

/-- the path a value spells; only a text does -/
def path : Value → Outcome String
  | .str s => .ok s
  | _ => .error .noMember

def lookUp (name row : Value) : Outcome Value :=
  match name, row with
  | .str s, _ => .ok (row.member s)
  | _, .record _ => if name.hashable then .ok .null else .error .wrongKind
  | _, _ => .error .wrongKind

/-! ## arithmetic -/

def integer? : Value → Option Int
  | .bool b => some b.toNat
  | .int n => some n
  | _ => none

def toBinary64 (v : Value) : Outcome Binary64 :=
  match v with
  | .float x => .ok x
  | _ => match v.integer? with
    | none => .error .wrongKind
    | some n => match Binary64.ofInt? n with
      | some x => .ok x
      | none => .error .overflow

/-- exact on integers, rounded where a double takes part -/
def arithmetic (onInt : Int → Int → Int) (onFloat : Binary64 → Binary64 → Binary64) (v w : Value) :
    Outcome Value :=
  match v.integer?, w.integer? with
  | some m, some n => .ok (.int (onInt m n))
  | _, _ =>
    if v.number?.isSome && w.number?.isSome then
      return .float (onFloat (← v.toBinary64) (← w.toBinary64))
    else .error .wrongKind

def add (v w : Value) : Outcome Value := arithmetic (· + ·) Binary64.add v w

def sub (v w : Value) : Outcome Value := arithmetic (· - ·) Binary64.sub v w

def mul (v w : Value) : Outcome Value := arithmetic (· * ·) Binary64.mul v w

def quotient (m n : Int) : Outcome Binary64 :=
  if n = 0 then .error .divisionByZero
  else match Binary64.ofRatio ((m < 0) != (n < 0)) m.natAbs n.natAbs with
    | .infinity _ => .error .overflow
    | x => .ok x

def div (v w : Value) : Outcome Binary64 :=
  match v.integer?, w.integer? with
  | some m, some n => quotient m n
  | _, _ =>
    if v.number?.isSome && w.number?.isSome then do
      let x ← v.toBinary64
      let y ← w.toBinary64
      if y.isZero then throw .divisionByZero else return Binary64.div x y
    else .error .wrongKind

/-- the greater of a bound and a value; the bound on a tie -/
def atLeast (bound v : Value) : Outcome Value :=
  return if ← v.compares .above bound then v else bound

def atMost (bound v : Value) : Outcome Value :=
  return if ← v.compares .below bound then v else bound

end Value

end ListQuery
