import ListQuery.Config
import ListQuery.Request
import ListQuery.Log
import ListQuery.Value.Display

/-!
# Plans

A plan says what a collection is asked for: a predicate, an order, a window and a projection, or a
predicate and aggregations.

* `Plan.ofPage`, `Plan.ofCursor`  the plans of a request's page and of its cursor window;
* `Plan.ofCount`, `ofAggregate`   the plans without order and window;
* `Grouping.of`                   what a grouped aggregation asks for;
* `Plan.toRecord`                 a plan by name, without what it leaves open.
-/

namespace ListQuery

/-- one key of an order; any direction but `desc` ascends -/
structure SortKey where
  field : Value
  direction : Value
  deriving Inhabited

def SortKey.descends (k : SortKey) : Bool := k.direction.equals (.str "desc")

inductive Aggregations where
  | unasked
  | named (entries : List (Value × Value))
  /-- a value that names none -/
  | other (v : Value)
  deriving Inhabited

namespace Aggregations

def ofValue (v : Value) : Aggregations :=
  match v with
  | .null => .unasked
  | .record entries => .named (entries.map fun entry => (.str entry.1, entry.2))
  | v => if v.truthy then .other v else .named []

def entries : Aggregations → Outcome (List (Value × Value))
  | .unasked => .ok []
  | .named entries => .ok entries
  | .other _ => .error .noMember

def recordOf (entries : List (Value × Value)) : Value :=
  .record (entries.map fun entry => (entry.1.display, entry.2))

def toValue : Aggregations → Value
  | .unasked => .null
  | .named entries => recordOf entries
  | .other v => v

end Aggregations

structure Plan where
  model : Value := .null
  predicate : Predicate := .unrestricted
  /-- the most significant key first -/
  orderBy : List SortKey := []
  window : Window := {}
  projection : Value := .null
  aggregations : Aggregations := .unasked
  deriving Inhabited

namespace Plan

/-! ## order -/

def cursorField (config : Config) (r : Request) : Value :=
  (Value.ofText? r.cursorField).orElse config.defaultCursorField

def sortField (config : Config) (r : Request) : Value :=
  (Value.ofText? r.sortBy).orElse config.defaultSortField

def direction (config : Config) (r : Request) : Value :=
  (Value.ofText? (r.sortOrder.map SortOrder.name)).orElse config.defaultSortOrder

def pageOrder (config : Config) (r : Request) : List SortKey :=
  [⟨sortField config r, direction config r⟩]

/-- the order of a cursor walk: rows with equal sort values are told apart by the cursor field -/
def cursorOrder (config : Config) (r : Request) : List SortKey :=
  let field := cursorField config r
  if field.equals (sortField config r) then pageOrder config r
  else pageOrder config r ++ [⟨field, direction config r⟩]

/-! ## plans of requests -/

/-- the first value, unless it is null -/
def unlessNull (v default : Value) : Value := if v.isNull then default else v

def pageOf (config : Config) (r : Request) : Value := unlessNull (.ofInt? r.page) config.defaultPage

/-- the plan of a numbered page; `maxLimit` stands in for the configured one unless it is null -/
def ofPage (config : Config) (r : Request) (maxLimit : Value) : Outcome Plan := do
  let predicate ← r.predicate
  let window ← Window.offset (pageOf config r) (.ofInt? r.limit) config.defaultLimit
    (unlessNull maxLimit config.maxLimit)
  return { model := .ofText? r.model, predicate, orderBy := pageOrder config r, window,
           projection := r.projection }

def ofCursor (config : Config) (r : Request) (maxLimit : Value) : Outcome Plan := do
  let predicate ← r.predicate
  let limit ← normalizeLimit (.ofInt? r.limit) config.defaultLimit
    (unlessNull maxLimit config.maxLimit)
  let window ← Window.atCursor r.cursor limit (cursorField config r)
  return { model := .ofText? r.model, predicate, orderBy := cursorOrder config r, window,
           projection := r.projection }

def ofCount (r : Request) : Outcome Plan :=
  return { model := .ofText? r.model, predicate := ← r.predicate }

def ofAggregate (r : Request) (aggregations : Value) : Outcome Plan := do
  let predicate ← r.predicate
  return { model := .ofText? r.model, predicate, aggregations := .named (← aggregations.namedPairs) }

/-! ## writing -/

def toRecord (p : Plan) : Outcome (List (String × Value)) := do
  let predicate ← if p.predicate.restricts then (do return [("where", ← p.predicate.toValue)])
    else pure []
  let order := if p.orderBy.isEmpty then [] else
    [("order_by", Value.list (p.orderBy.map fun k => .list [k.field, k.direction]))]
  let optional := [("take", p.window.take), ("skip", p.window.skip), ("cursor", p.window.cursor),
    ("projection", p.projection), ("aggregations", p.aggregations.toValue)].filter fun entry =>
      !entry.2.isNull
  return ("model", p.model) :: predicate ++ order ++ optional

/-- what is reported when a plan is made -/
def announcement (kind : String) (p : Plan) : Outcome LogEntry := do
  let text := (Value.record (← p.toRecord)).logged
  return ⟨"querypilot.plan", .debug, "Assembled " ++ kind ++ " plan: " ++ text⟩

end Plan

/-! ## groupings -/

inductive Having where
  | predicate (p : Predicate)
  /-- asks nothing of the row -/
  | other (v : Value)
  deriving Inhabited

structure Grouping where
  model : Value
  /-- the paths whose values make a group -/
  keys : List Value
  aggregations : List (Value × Value)
  predicate : Predicate
  having : Having
  deriving Inhabited

namespace Grouping

def of (model keys aggregations filters : Value) (having : Having) : Outcome Grouping := do
  let keys ← keys.items
  let aggregations ← if aggregations.truthy then aggregations.namedPairs else pure []
  let predicate ← Predicate.ofFilters filters
  return { model, keys, aggregations, predicate, having }

end Grouping

end ListQuery
