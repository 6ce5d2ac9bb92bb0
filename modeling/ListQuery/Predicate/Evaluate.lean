import ListQuery.Predicate.Basic
import ListQuery.Value.Path
import ListQuery.Value.Convert
import ListQuery.Value.Display
import ListQuery.Text.Lower

/-!
# Rows that meet a predicate

* `Operator.check?`       a comparison of two values, undefined for quantifiers and connectives;
* `Predicate.evaluate`    whether a row meets a tree;
* `anyTrue`, `allTrue`    a test over items in turn, up to the first item that decides.
-/

namespace ListQuery

/-! ## tests over items -/

/-- the test holds of an item; items after it are not tested -/
def anyTrue {α : Type} (test : α → Outcome Bool) : List α → Outcome Bool
  | [] => .ok false
  | x :: rest => do if ← test x then return true else anyTrue test rest

def allTrue {α : Type} (test : α → Outcome Bool) : List α → Outcome Bool
  | [] => .ok true
  | x :: rest => do if ← test x then allTrue test rest else return false

/-! ## comparisons -/

namespace Operator

/-- a comparison that null never passes -/
def guarded (check : Value → Value → Outcome Bool) (actual wanted : Value) : Outcome Bool :=
  if actual.isNull || wanted.isNull then .ok false else check actual wanted

/-- the text of a value, letter case aside -/
def folded (v : Value) : Outcome (List Char) := return Text.lowerFrom [] (← v.text)

def foldedTest (test : List Char → List Char → Bool) (a b : Value) : Outcome Bool := do
  return test (← folded a) (← folded b)

def check? : Operator → Option (Value → Value → Outcome Bool)
  | .eq => Option.some fun a b => .ok (a.equals b)
  | .ne => Option.some fun a b => .ok !(a.equals b)
  | .gt => Option.some (guarded (Value.compares .above))
  | .lt => Option.some (guarded (Value.compares .below))
  | .ge => Option.some (guarded (Value.compares .atLeast))
  | .le => Option.some (guarded (Value.compares .atMost))
  | .isIn => Option.some Value.isIn
  | .equalsText => Option.some (guarded (foldedTest (· == ·)))
  | .containsText => Option.some (guarded (foldedTest fun a b => Text.occursIn b a))
  | .startsWithText => Option.some (guarded (foldedTest Text.startsWith))
  | .isNull => Option.some fun a _ => .ok a.isNull
  | .isNotNull => Option.some fun a _ => .ok !a.isNull
  | .some | .none | .every | .and | .or | .not => Option.none

def isNullTest : Operator → Bool
  | .isNull | .isNotNull => true
  | _ => false

end Operator

namespace Predicate

/-! ## rows -/

/-- a comparison with the value found at a path; an item of a list may pass it, but a list is null
or not as a whole -/
def compareWith (op : Operator) (wanted actual : Value) : Outcome Bool :=
  match op.check? with
  | none => .error (.unsupportedOperator op)
  | some check =>
    match actual with
    | .list items => if op.isNullTest then check actual wanted else anyTrue (check · wanted) items
    | _ => check actual wanted

def relatedRecords : Value → Outcome (List Value)
  | .null => .ok []
  | .record entries => .ok [.record entries]
  | v => v.items

def quantify (quantifier : Operator) (test : Value → Outcome Bool) (records : List Value) :
    Outcome Bool :=
  match quantifier with
  | .some => anyTrue test records
  | .none => do return !(← anyTrue test records)
  | .every => allTrue test records
  | op => .error (.unsupportedQuantifier op)

mutual

def evaluate : Predicate → Value → Outcome Bool
  | .unrestricted, _ => .ok true
  | .conjunction parts, row => evaluateAll parts row
  | .disjunction parts, row => evaluateAny parts row
  | .complement part, row => do return !(← evaluate part row)
  | .compare path op value, row => compareWith op value (row.resolve path)
  | .related path quantifier nested, row => do
    quantify quantifier (evaluate nested) (← relatedRecords (row.resolve path))
  | .blank, _ => .error (.unsupportedNode "PredicateNode")

/-- every part holds, tested from left to right up to the first that fails -/
def evaluateAll : List Predicate → Value → Outcome Bool
  | [], _ => .ok true
  | p :: rest, row => do if ← evaluate p row then evaluateAll rest row else return false

def evaluateAny : List Predicate → Value → Outcome Bool
  | [], _ => .ok false
  | p :: rest, row => do if ← evaluate p row then return true else evaluateAny rest row

end

def select (p : Predicate) : List Value → Outcome (List Value)
  | [] => .ok []
  | row :: rest => do
    let here ← evaluate p row
    let others ← select p rest
    return if here then row :: others else others

end Predicate

end ListQuery
