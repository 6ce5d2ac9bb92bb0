import ListQuery.Builder.Basic
import ListQuery.Scope

/-!
# Builders with a scope

A scope's filter is written over the filters of every request, whatever is asked.

* `Builder.inScope`   all four questions within a filter.
-/

namespace ListQuery

namespace Builder

variable {S : Type}

/-- a request within a filter, which wins over the request's own entries -/
def within (filter : List (String × Value)) (r : Request) : Outcome Request :=
  if filter.isEmpty then .ok r else r.withFilters (.record filter)

/-- every request is put to the builder within the filter -/
def inScope (filter : List (String × Value)) (b : Builder S) : Builder S where
  prepare r maxLimit := do b.prepare (← within filter r) maxLimit
  cursorQuery r := do b.cursorQuery (← within filter r)
  count r := do b.count (← within filter r)
  aggregate r aggregations := do b.aggregate (← within filter r) aggregations

/-- the rows of one tenant; there must be one -/
def tenant (id : Value) (field : String) (b : Builder S) : Outcome (Builder S) :=
  if id.truthy then .ok (b.inScope (Scope.tenant id field))
  else .error (.refused (.invalidArgument (.str "tenant_id") .null))

/-- the live rows, the trashed ones, or both -/
def softDelete (t : Trash) (field : String) (b : Builder S) : Builder S :=
  b.inScope (Scope.softDelete t field)

end Builder

end ListQuery
