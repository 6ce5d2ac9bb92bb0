import ListQuery.Collection.Order
import ListQuery.Collection.Aggregate
import ListQuery.Predicate.Evaluate

/-!
# Collections in memory

Rows by collection, and the answers of plans on them.

* `Store.ofRecord`, `Store.add`   collections and further rows;
* `Store.find`                    the rows of a plan: matching, ordered, cut to the window, projected;
* `Store.count`                   how many rows match;
* `Store.aggregate`, `Store.groupBy`   aggregates over all of them, or over groups with equal keys.
-/

namespace ListQuery

def Having.keeps (h : Having) (row : Value) : Outcome Bool :=
  match h with
  | .predicate p => p.evaluate row
  | .other _ => .ok true

/-- rows by collection, in the order in which the collections came up -/
structure Store where
  collections : List (Value × List Value) := []
  deriving Inhabited

namespace Store

/-! ## rows -/

def ofRecord (entries : List (String × Value)) : Outcome Store := do
  return ⟨← entries.mapM fun entry => do return (.str entry.1, ← entry.2.items)⟩

def extend (model : Value) (rows : List Value) : List (Value × List Value) → List (Value × List Value)
  | [] => [(model, rows)]
  | (name, old) :: rest =>
    if name.equals model then (name, old ++ rows) :: rest else (name, old) :: extend model rows rest

def add (s : Store) (model : Value) (rows : List Value) : Outcome Store :=
  if model.hashable then .ok ⟨extend model rows s.collections⟩ else .error .wrongKind

def names (s : Store) : List String :=
  stableSort (fun a b => Text.order a.toList b.toList == .lt) (s.collections.map (·.1.display))

/-- the fault of a collection that is not there, which names it if it has a text -/
def unknown (model : Value) : Fault :=
  match model.literalText with
  | .ok _ => .unknownCollection model
  | .error e => e

def rows (s : Store) (model : Value) : Outcome (List Value) :=
  if !model.hashable then .error .wrongKind
  else match s.collections.find? (·.1.equals model) with
    | some (_, rows) => .ok rows
    | none => .error (unknown model)

/-- the rows of a collection that meet a predicate, in their order -/
def matching (s : Store) (model : Value) (p : Predicate) : Outcome (List Value) := do
  p.select (← s.rows model)

/-! ## windows -/

/-- the rows from the anchor on; none at all if no row has the anchor's value -/
def fromAnchor? (cursor : Value) (rows : List Value) : Outcome (Option (List Value)) := do
  if cursor.truthy then
    match ← cursor.entries with
    | [(field, value)] =>
      match rows.dropWhile fun row => !(row.member field).equals value with
      | [] => return none
      | found => return some found
    | _ => throw .badValue
  else return some rows

def between (w : Window) (rows : List Value) : Outcome (List Value) := do
  let rows ← if w.skip.truthy then (do return Value.dropTo (← w.skip.index?) rows) else pure rows
  if w.take.isNull then return rows else return Value.takeTo (← w.take.index?) rows

/-- the rows of a window; without an anchor row its ends do not matter -/
def window (w : Window) (rows : List Value) : Outcome (List Value) := do
  match ← fromAnchor? w.cursor rows with
  | none => return []
  | some rows => between w rows

/-- the fields a projection selects, if it selects any -/
def selection? (projection : Value) : Option Value := do
  Value.field? "select" (← projection.entries?)

def project (projection row : Value) : Outcome Value := do
  match selection? projection with
  | none => return row
  | some selection =>
    let fields ← match selection with
      | .record entries => pure ((entries.filter (·.2.truthy)).map fun entry => Value.str entry.1)
      | v => v.items
    Value.record <$> fields.foldlM (fun entries field => do
      putField field (← field.lookUp row) entries) []

/-! ## answers -/

def find (s : Store) (p : Plan) : Outcome (List Value) := do
  let ordered ← sortRows p.orderBy (← s.matching p.model p.predicate)
  (← window p.window ordered).mapM (project p.projection)

def count (s : Store) (p : Plan) : Outcome Nat := do
  return (← s.matching p.model p.predicate).length

def aggregate (s : Store) (p : Plan) : Outcome (List (String × Value)) := do
  let rows ← s.matching p.model p.predicate
  ListQuery.aggregate rows (← p.aggregations.entries)

/-! ## groups -/

def groupKey (keys : List Value) (row : Value) : Outcome (List Value) := do
  let key ← keys.mapM fun name => do return row.resolve (← name.path)
  if Value.hashableAll key then return key else throw .wrongKind

/-- puts a row behind those with an equal key -/
def joinGroup (key : List Value) (row : Value) :
    List (List Value × List Value) → List (List Value × List Value)
  | [] => [(key, [row])]
  | (other, rows) :: rest =>
    if Value.equalItems other key then (other, rows ++ [row]) :: rest
    else (other, rows) :: joinGroup key row rest

/-- rows by key, in the order in which the keys came up -/
def groups (keys : List Value) (rows : List Value) : Outcome (List (List Value × List Value)) :=
  rows.foldlM (fun groups row => do return joinGroup (← groupKey keys row) row groups) []

/-- the row of a group: its key and its aggregates -/
def groupRow (g : Grouping) (key rows : List Value) : Outcome Value := do
  let named ← (g.keys.zip key).foldlM (fun entries part => putField part.1 part.2 entries) []
  return .record (Value.overlay named (← ListQuery.aggregate rows g.aggregations))

def groupBy (s : Store) (g : Grouping) : Outcome (List Value) := do
  let groups ← groups g.keys (← s.matching g.model g.predicate)
  let rows ← groups.mapM fun (key, rows) => do
    let row ← groupRow g key rows
    return if ← g.having.keeps row then some row else none
  return rows.filterMap id

end Store

end ListQuery
