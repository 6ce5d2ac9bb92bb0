import ListQuery.Value.Convert

/-!
# Filters as conditions

A filter is a mapping from paths to values, written loosely: a sequence stands for membership, a
mapping of bounds for a range, `not` for a difference, a quantifier for related records, anything
else for equality.

* `Condition.ofValue`       the condition a value stands for;
* `Condition.ofFilters`     the conditions of a filter, entry by entry, those never supplied left out;
* `Condition.ofRelation`    the quantified conditions of a relation's filter;
* `Condition.toValue`       a condition as it would be written.
-/

namespace ListQuery

namespace Condition

def quantifiers : List String := ["some", "none", "every"]

def asEntries (cs : List (String × Condition)) : List (String × Value) :=
  cs.map fun entry => (entry.1, .condition entry.2)

/-! ## reading -/

mutual

/-- the condition a filter's value stands for -/
def ofValue : Value → Condition
  | .condition c => c
  | .bool b => .flag (.bool b)
  | .list items => .oneOf items
  | .tuple items => .oneOf items
  | .set items => .oneOf items
  | .record [(name, payload)] =>
    if name = "from" then .range payload .null
    else if name = "to" then .range .null payload
    else if name = "not" then .differs payload
    else if name ∈ quantifiers then .related name (.record (asEntries (ofNested payload)))
    else .exact (.record [(name, payload)])
  | .record entries =>
    if entries ≠ [] ∧ entries.all fun entry => entry.1 = "from" || entry.1 = "to" then
      .range ((Value.field? "from" entries).getD .null) ((Value.field? "to" entries).getD .null)
    else .exact (.record entries)
  | v => .exact v

/-- the conditions on a related record; what is no mapping asks nothing -/
def ofNested : Value → List (String × Condition)
  | .record entries => ofEntries entries
  | _ => []

/-- the conditions of a filter's entries, those never supplied left out -/
def ofEntries : List (String × Value) → List (String × Condition)
  | [] => []
  | (_, .unset) :: rest => ofEntries rest
  | (name, v) :: rest => (name, ofValue v) :: ofEntries rest

end

def ofFilters (v : Value) : Outcome (List (String × Condition)) := do
  if v.truthy then return ofEntries (← v.entries) else return []

/-! ## relations -/

def allRelated? : List Value → Option (List Condition)
  | [] => some []
  | .condition (.related q nested) :: rest => (allRelated? rest).map (.related q nested :: ·)
  | _ :: _ => none

/-- one condition per quantifier; a mapping with other names asks for `some` record -/
def ofRelationEntries (entries : List (String × Value)) : List Condition :=
  let used := quantifiers.filter fun q => (Value.field? q entries).isSome
  if used ≠ [] ∧ used.length = entries.length then
    used.map fun q =>
      .related q (.record (asEntries (ofNested ((Value.field? q entries).getD .null))))
  else [.related "some" (.record (asEntries (ofEntries entries)))]

/-- the quantified conditions of a relation's filter; what is no mapping has none -/
def ofRelation : Value → List Condition
  | .condition (.related q nested) => [.related q nested]
  | .tuple items => (allRelated? items).getD []
  | .record entries => ofRelationEntries entries
  | _ => []

/-! ## writing -/

mutual

/-- a condition as a filter would write it -/
def toValue : Condition → Outcome Value
  | .exact v => .ok v
  | .oneOf vs => .ok (.list vs)
  | .range lo hi => .ok (.record [("from", lo), ("to", hi)])
  | .flag v => .ok v
  | .differs v => .ok (.record [("not", v)])
  | .related q nested => do return .record [(q, .record (← nestedToValue nested))]

def nestedToValue : Value → Outcome (List (String × Value))
  | .record entries => entriesToValue entries
  | _ => .error .noMember

def entriesToValue : List (String × Value) → Outcome (List (String × Value))
  | [] => .ok []
  | (name, v) :: rest => do
    match v with
    | .condition c =>
      let written ← toValue c
      return (name, written) :: (← entriesToValue rest)
    | _ => throw .noMember

end

def filtersToValue : List (String × Condition) → Outcome (List (String × Value))
  | [] => .ok []
  | (name, c) :: rest => do
    let written ← c.toValue
    return (name, written) :: (← filtersToValue rest)

end Condition

end ListQuery
