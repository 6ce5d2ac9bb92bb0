import ListQuery.Field
import ListQuery.Condition.Basic
import ListQuery.Predicate.Filter

/-!
# Requests

One list query: which collection, which rows, in which order, and which page or cursor window of
them.  A request holds its filters as conditions, however they were written.

* `Request.ofFields`     a request from named fields, loosely written;
* `Request.toFields`     its fields by name; reading them back gives the same request;
* `Request.merged`       with other fields written over them;
* `Request.withFilters`  with further filter entries, which win;
* `Request.toRecord`     as it would be written, without what is empty.
-/

namespace ListQuery

inductive SortOrder where
  | asc | desc
  deriving DecidableEq, Inhabited

namespace SortOrder

def name : SortOrder → String
  | .asc => "asc"
  | .desc => "desc"

def ofName? (s : String) : Option SortOrder := [asc, desc].find? (·.name == s)

end SortOrder

structure Request where
  model : Option String := none
  page : Option Int := none
  cursor : Value := .null
  limit : Option Int := none
  search : Option String := none
  searchFields : List String := []
  searchMode : SearchMode := .contains
  filters : List (String × Condition) := []
  relationFilters : List (String × List Condition) := []
  orFilters : List (List (String × Condition)) := []
  notFilters : List (String × Condition) := []
  sortBy : Option String := none
  sortOrder : Option SortOrder := none
  /-- handed on as it is -/
  projection : Value := .null
  cursorField : Option String := none
  deriving Inhabited

namespace Request

/-! ## reading -/

/-- relation filters by relation, those that ask nothing left out -/
def relationsOf (v : Value) : Outcome (List (String × List Condition)) := do
  if v.truthy then
    let resolved := (← v.entries).map fun entry => (entry.1, Condition.ofRelation entry.2)
    return resolved.filter fun entry => !entry.2.isEmpty
  else return []

/-- the conditions of each group; one mapping is a group of its own -/
def groupsOf (v : Value) : Outcome (List (List (String × Condition))) := do
  if v.truthy then
    match v with
    | .record entries => return [Condition.ofEntries entries]
    | _ => (← v.items).mapM Condition.ofFilters
  else return []

def fieldOrNull (name : String) (fields : List (String × Value)) : Value :=
  (Value.field? name fields).getD .null

/-- a request from named fields; other names are ignored -/
def ofFields (fields : List (String × Value)) : Outcome Request := do
  let filters ← Condition.ofFilters (fieldOrNull "filters" fields)
  let relationFilters ← relationsOf (fieldOrNull "relation_filters" fields)
  let orFilters ← groupsOf (fieldOrNull "or_filters" fields)
  let notFilters ← Condition.ofFilters (fieldOrNull "not_filters" fields)
  let optionalText (name : String) : Checked (Option String) :=
    Field.withDefault name none (Field.optional Field.text) fields
  let optionalInteger (name : String) : Checked (Option Int) :=
    Field.withDefault name none (Field.optional Field.integer) fields
  let build (model : Option String) (page limit : Option Int) (search : Option String)
      (searchFields : List String) (searchMode : SearchMode) (sortBy : Option String)
      (sortOrder : Option SortOrder) (cursorField : Option String) : Request :=
    { model, page, limit, search, searchFields, searchMode, sortBy, sortOrder, cursorField,
      filters, relationFilters, orFilters, notFilters,
      cursor := fieldOrNull "cursor" fields, projection := fieldOrNull "projection" fields }
  let checked : Checked Request :=
    build <$> optionalText "model" <*> optionalInteger "page" <*> optionalInteger "limit"
      <*> optionalText "search"
      <*> Field.withDefault "search_fields" [] Field.texts fields
      <*> Field.withDefault "search_mode" .contains (Field.choice SearchMode.ofName?) fields
      <*> optionalText "sort_by"
      <*> Field.withDefault "sort_order" none (Field.optional (Field.choice SortOrder.ofName?)) fields
      <*> optionalText "cursor_field"
  checked.orFault "QueryRequest"

/-! ## fields -/

def conditionsValue (cs : List (String × Condition)) : Value := .record (Condition.asEntries cs)

def toFields (r : Request) : List (String × Value) :=
  [("model", .ofText? r.model), ("page", .ofInt? r.page), ("cursor", r.cursor),
    ("limit", .ofInt? r.limit), ("search", .ofText? r.search),
    ("search_fields", .tuple (r.searchFields.map .str)), ("search_mode", .str r.searchMode.name),
    ("filters", conditionsValue r.filters),
    ("relation_filters",
      .record (r.relationFilters.map fun entry => (entry.1, .tuple (entry.2.map .condition)))),
    ("or_filters", .tuple (r.orFilters.map conditionsValue)),
    ("not_filters", conditionsValue r.notFilters),
    ("sort_by", .ofText? r.sortBy), ("sort_order", .ofText? (r.sortOrder.map SortOrder.name)),
    ("projection", r.projection), ("cursor_field", .ofText? r.cursorField)]

/-- the request with other fields written over its own; nothing is written for an empty value -/
def merged (r : Request) (overrides : Value) : Outcome Request := do
  let extra ← if overrides.truthy then overrides.pairs else pure []
  ofFields (Value.overlay r.toFields extra)

/-- the request with further filter entries, which win over its own -/
def withFilters (r : Request) (extra : Value) : Outcome Request := do
  match extra with
  | .record entries =>
    r.merged (.record [("filters", .record (Value.overlay (Condition.asEntries r.filters) entries))])
  | _ => throw .wrongKind

/-! ## writing -/

/-- nothing that a written request would show -/
def isEmptyField (v : Value) : Bool :=
  v.equals .null || v.equals (.record []) || v.equals (.list [])

def relationToValue (cs : List Condition) : Outcome Value :=
  Value.record <$> cs.foldlM (fun entries c => do
    return Value.overlay entries (← (← c.toValue).entries)) []

/-- the request as it would be written, without empty fields -/
def toRecord (r : Request) : Outcome (List (String × Value)) := do
  let relations ← r.relationFilters.mapM fun entry => do
    return (entry.1, ← relationToValue entry.2)
  let filters ← Condition.filtersToValue r.filters
  let groups ← r.orFilters.mapM fun group => Value.record <$> Condition.filtersToValue group
  let excluded ← Condition.filtersToValue r.notFilters
  let written : List (String × Value) :=
    [("model", .ofText? r.model), ("page", .ofInt? r.page), ("cursor", r.cursor),
      ("limit", .ofInt? r.limit), ("search", .ofText? r.search),
      ("search_fields", .list (r.searchFields.map .str)), ("search_mode", .str r.searchMode.name),
      ("filters", .record filters), ("relation_filters", .record relations),
      ("or_filters", .list groups), ("not_filters", .record excluded),
      ("sort_by", .ofText? r.sortBy), ("sort_order", .ofText? (r.sortOrder.map SortOrder.name)),
      ("projection", r.projection), ("cursor_field", .ofText? r.cursorField)]
  return written.filter fun entry => !isEmptyField entry.2

/-! ## predicate -/

/-- what a row has to meet: filters, relations, search, one of the groups, and no exclusion -/
def predicate (r : Request) : Outcome Predicate := do
  let filters ← Predicate.ofConditions r.filters
  let relations ← Predicate.ofRelations r.relationFilters
  let search := Predicate.search r.searchMode (.ofText? r.search) r.searchFields
  let groups ← r.orFilters.mapM Predicate.ofConditions
  let excluded ← Predicate.excluding r.notFilters
  return .all [filters, relations, search, .any groups, excluded]

end Request

end ListQuery
