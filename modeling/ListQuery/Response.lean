import ListQuery.Window
import ListQuery.Field

/-!
# Responses

Rows with the counts of their page, or with the cursor of the next window.

* `PagedResponse.shape`, `CursorResponse.shape`   a response from rows and the window they fill;
* `PagedResponse.ofValue`                         a response from a stored record.
-/

namespace ListQuery

/-- how long a query took, in milliseconds, and how many rows matched -/
structure QueryMetrics where
  queryTime : Binary64
  resultCount : Int
  isSlow : Bool
  timestamp : Instant
  deriving Inhabited

def QueryMetrics.toRecord (m : QueryMetrics) : List (String × Value) :=
  [("query_time", .float m.queryTime), ("result_count", .int m.resultCount),
    ("is_slow", .bool m.isSlow)]

structure PagedResponse where
  data : List Value
  counts : PageMeta
  metrics : Option QueryMetrics := none
  deriving Inhabited

structure CursorResponse where
  data : List Value
  nextCursor : Value
  hasMore : Bool
  limit : Int

namespace PagedResponse

def checkCounts (fields : List (String × Value)) : Checked PageMeta :=
  PageMeta.mk <$> Field.required "total" Field.integer fields
    <*> Field.required "page" Field.integer fields
    <*> Field.required "limit" Field.integer fields
    <*> Field.required "total_pages" Field.integer fields

def shape (rows total page limit : Value) : Outcome PagedResponse := do
  let data ← rows.items
  let pages ← totalPages total limit
  let counts ← (checkCounts [("total", total), ("page", page), ("limit", limit),
    ("total_pages", pages)]).orFault "PageMeta"
  return { data, counts }

def countsOf : Value → Checked PageMeta
  | .pageMeta m => .valid m
  | .record entries => checkCounts entries
  | _ => .reject .modelType

def check : Value → Checked PagedResponse
  | .record entries =>
    (PagedResponse.mk · · none) <$> Field.required "data" Field.list entries
      <*> Field.required "meta" countsOf entries
  | _ => .reject .modelType

def ofValue (v : Value) : Outcome PagedResponse := (check v).orFault "PagedResponse"

def toValue (r : PagedResponse) : Value :=
  .record ([("data", .list r.data), ("meta", .record (Value.ofPageMeta r.counts))]
    ++ (match r.metrics with
      | none => []
      | some m => [("metrics", .record m.toRecord)]))

def toStored (r : PagedResponse) : Value :=
  .record ([("data", .list r.data), ("meta", .record (Value.ofPageMeta r.counts))]
    ++ (match r.metrics with
      | none => []
      | some m => [("metrics", .record (m.toRecord ++ [("timestamp", .instant m.timestamp)]))]))

end PagedResponse

namespace CursorResponse

def shape (rows limit field : Value) : Outcome CursorResponse := do
  let page ← CursorPage.ofRows rows limit field
  let limit ← ((Field.integer limit).inside "limit").orFault "CursorMeta"
  return ⟨page.data, page.nextCursor, page.hasMore, limit⟩

def toValue (r : CursorResponse) : Value :=
  .record [("data", .list r.data), ("meta", .record [("next_cursor", r.nextCursor),
    ("has_more", .bool r.hasMore), ("limit", .int r.limit)])]

end CursorResponse

end ListQuery
