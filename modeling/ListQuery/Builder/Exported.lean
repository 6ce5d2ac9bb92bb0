import ListQuery.Builder.Basic
import ListQuery.Export

/-!
# Exports of a builder's rows

The rows that match a request, up to a greatest number that stands in for its limit, as a text.
-/

namespace ListQuery

namespace Builder

variable {S : Type}

/-- at most `maxRows` rows of the request's answer -/
def rowsUpTo (b : Builder S) (r : Request) (maxRows : Value) : Action S (List Value) := do
  let capped ← r.merged (.record [("limit", maxRows)])
  return (← b.query capped maxRows).data

def exportCsv (b : Builder S) (r : Request) (maxRows : Value) : Action S String := do
  Export.csv (← b.rowsUpTo r maxRows)

def exportJson (b : Builder S) (r : Request) (maxRows : Value) (pretty : Bool) :
    Action S String := do
  Export.json (← b.rowsUpTo r maxRows) pretty

end Builder

end ListQuery
