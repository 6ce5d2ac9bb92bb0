import ListQuery.Predicate.Basic
import ListQuery.Condition.Basic

/-!
# Predicates from filters and search terms

* `Predicate.ofCondition`   what a condition asks of the value at a path;
* `Predicate.ofConditions`  all conditions of a filter;
* `Predicate.ofRelations`   all quantified conditions of relation filters;
* `Predicate.excluding`     not all conditions of a filter;
* `SearchMode`, `Predicate.search`  a term in any of several fields.
-/

namespace ListQuery

namespace Predicate

/-! ## conditions -/

def ofRange (path : String) (lower upper : Value) : Predicate :=
  all
    [if lower.isNull then .unrestricted else .compare path .ge lower,
      if upper.isNull then .unrestricted else .compare path .le upper]

def quantifier (name : String) : Outcome Operator :=
  match Operator.ofQuantifier? name with
  | some op => .ok op
  | none => .error .noEntry

/-- what a condition without a quantifier asks of the value at a path -/
def ofPlain (path : String) : Condition → Predicate
  | .flag v => .compare path .eq v
  | .oneOf vs => .compare path .isIn (.tuple vs)
  | .range lo hi => ofRange path lo hi
  | .differs .null => .compare path .isNotNull .null
  | .differs v => .compare path .ne v
  | .exact .null => .compare path .isNull .null
  | .exact v => .compare path .eq v
  | .related _ _ => .unrestricted

mutual

/-- what a condition asks of the value at a path -/
def ofCondition (path : String) : Condition → Outcome Predicate
  | .related name nested => do
    let op ← quantifier name
    return .related path op (← ofNested nested)
  | c => .ok (ofPlain path c)

def ofNested : Value → Outcome Predicate
  | .record entries => do return all (← ofEntries entries)
  | v => if v.truthy then .error .noMember else .ok .unrestricted

/-- what a filter's value, a condition or one loosely written, asks of the value at a path -/
def ofValue (path : String) : Value → Outcome Predicate
  | .condition c => ofCondition path c
  | .record [(name, payload)] => do
    if name ∈ Condition.quantifiers then
      let op ← quantifier name
      match payload with
      | .record entries => return .related path op (all (← ofEntries entries))
      | _ => return .related path op .unrestricted
    else return ofPlain path (Condition.ofValue (.record [(name, payload)]))
  | v => .ok (ofPlain path (Condition.ofValue v))

def ofEntries : List (String × Value) → Outcome (List Predicate)
  | [] => .ok []
  | (_, .unset) :: rest => ofEntries rest
  | (path, v) :: rest => do
    let here ← ofValue path v
    return here :: (← ofEntries rest)

end

def ofConditionList : List (String × Condition) → Outcome (List Predicate)
  | [] => .ok []
  | (path, c) :: rest => do
    let here ← ofCondition path c
    return here :: (← ofConditionList rest)

def ofConditions (cs : List (String × Condition)) : Outcome Predicate :=
  return all (← ofConditionList cs)

/-- all entries of a filter as it is written; an absent or empty one restricts nothing -/
def ofFilters (v : Value) : Outcome Predicate := ofNested v

/-! ## relations and exclusions -/

def ofRelationList : List (String × List Condition) → List (String × Condition)
  | [] => []
  | (path, cs) :: rest => cs.map (path, ·) ++ ofRelationList rest

def ofRelations (relations : List (String × List Condition)) : Outcome Predicate :=
  ofConditions (ofRelationList relations)

def ofRelationFilters (v : Value) : Outcome Predicate := do
  if v.truthy then
    ofRelations ((← v.entries).map fun entry => (entry.1, Condition.ofRelation entry.2))
  else return .unrestricted

def excluding (cs : List (String × Condition)) : Outcome Predicate :=
  return negation [← ofConditions cs]

def excludingFilters (v : Value) : Outcome Predicate := return negation [← ofFilters v]

end Predicate

/-! ## search -/

inductive SearchMode where
  | contains | exact | startsWith
  deriving DecidableEq, Inhabited

namespace SearchMode

def name : SearchMode → String
  | .contains => "contains"
  | .exact => "exact"
  | .startsWith => "prefix"

def ofName? (s : String) : Option SearchMode :=
  [contains, exact, startsWith].find? (·.name == s)

def operator : SearchMode → Operator
  | .contains => .containsText
  | .exact => .equalsText
  | .startsWith => .startsWithText

end SearchMode

namespace Predicate

/-- the term in any of the fields; without a term or fields nothing is asked -/
def search (mode : SearchMode) (term : Value) (fields : List String) : Predicate :=
  if term.truthy then any (fields.map fun path => .compare path mode.operator term)
  else .unrestricted

end Predicate

end ListQuery
