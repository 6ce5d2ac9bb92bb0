import ListQuery.Value.Path
import ListQuery.Value.Convert
import ListQuery.Value.Display

/-!
# Aggregates of rows

An aggregation names a kind and the fields it is taken over; nulls are left out.

* `Aggregation.ofName?`   `count`, `sum`, `avg`, `min` or `max`, leading underscores aside;
* `aggregate`             the answers by the names under which the aggregations were asked.
-/

namespace ListQuery

inductive Aggregation where
  | count | sum | average | least | greatest
  deriving DecidableEq

namespace Aggregation

def ofName? (name : String) : Option Aggregation :=
  match String.ofList (name.toList.dropWhile (· = '_')) with
  | "count" => some .count
  | "sum" => some .sum
  | "avg" => some .average
  | "min" => some .least
  | "max" => some .greatest
  | _ => none

end Aggregation

/-! ## fields -/

/-- the fields of an aggregation: the wanted ones of a mapping, one name, or several -/
def aggregatedFields : Value → Outcome (List Value)
  | .record entries => .ok ((entries.filter (·.2.truthy)).map fun entry => .str entry.1)
  | .str s => .ok [.str s]
  | v => v.items

def presentValues (field : Value) : List Value → Outcome (List Value)
  | [] => .ok []
  | row :: rest => do
    let v := row.resolve (← field.path)
    let others ← presentValues field rest
    return if v.isNull then others else v :: others

def putField (field value : Value) (answers : List (String × Value)) :
    Outcome (List (String × Value)) :=
  if field.hashable then .ok (Value.put field.display value answers) else .error .wrongKind

/-! ## answers -/

def sumOf (values : List Value) : Outcome Value := values.foldlM Value.add (.int 0)

/-- the first value that no later one stands in the relation to -/
def extreme (r : Value.Relation) : List Value → Outcome Value
  | [] => .ok .null
  | v :: rest => rest.foldlM (fun best w => return if ← w.compares r best then w else best) v

/-- the answer for the values of one field; null where there are none -/
def Aggregation.apply (a : Aggregation) (values : List Value) : Outcome Value :=
  match a, values with
  | .count, _ => .ok (.int values.length)
  | _, [] => .ok .null
  | .sum, _ => sumOf values
  | .average, _ => do return .float (← (← sumOf values).div (.int values.length))
  | .least, _ => extreme .below values
  | .greatest, _ => extreme .above values

def countFields (rows : List Value) (fields : List Value) : Outcome (List (String × Value)) :=
  fields.foldlM (fun answers field => do
    let values ← presentValues field rows
    putField field (.int values.length) answers) []

def collectFields (rows : List Value) (fields : List Value) :
    Outcome (List (Value × List Value)) :=
  fields.foldlM (fun collected field => do
    let values ← presentValues field rows
    if field.hashable then return collected ++ [(field, values)] else throw .wrongKind) []

def aggregateOne (rows : List Value) (name : String) (spec : Value) : Outcome Value := do
  match Aggregation.ofName? name, spec with
  | some .count, .bool true => return .int rows.length
  | some .count, _ => return .record (← countFields rows (← aggregatedFields spec))
  | kind?, _ =>
    let collected ← collectFields rows (← aggregatedFields spec)
    match kind? with
    | none => throw (.unsupportedAggregation name)
    | some kind =>
      Value.record <$> collected.foldlM (fun answers entry => do
        putField entry.1 (← kind.apply entry.2) answers) []

def aggregate (rows : List Value) (aggregations : List (Value × Value)) :
    Outcome (List (String × Value)) :=
  aggregations.foldlM (fun answers entry => do
    let name ← entry.1.path
    return Value.put name (← aggregateOne rows name entry.2) answers) []

end ListQuery
