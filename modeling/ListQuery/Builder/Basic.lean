import ListQuery.Action
import ListQuery.Plan
import ListQuery.Response

/-!
# Builders

A builder answers requests.  The one at the base makes plans, has them executed, and shapes the
result; the others wrap it.  A query is answered in three steps, so that several queries can run
side by side: it is prepared, its rows are fetched, and the answer is concluded from them.

* `Executor`             what plans are handed to;
* `Prepared`             a query that has its answer, or has still to fetch it;
* `Builder`              the four questions; `Builder.query` runs the steps of one query in turn;
* `Builder.base`         the builder over an executor;
* `Builder.batch`        several named queries side by side.
-/

namespace ListQuery

structure Executor (S : Type) where
  find : Plan → Action S (List Value)
  count : Plan → Action S Nat
  aggregate : Plan → Action S (List (String × Value))
  groupBy : Grouping → Action S (List Value)

inductive Prepared (S : Type) where
  | answered (r : PagedResponse)
  /-- fetches what is needed, and yields how the answer is concluded from it -/
  | fetching (fetch : Action S (Action S PagedResponse))

namespace Prepared

variable {S : Type}

def complete : Prepared S → Action S PagedResponse
  | .answered r => return r
  | .fetching fetch => do
    let conclude ← fetch
    conclude

/-- the query with a further step after its answer -/
def andThen (next : PagedResponse → Action S PagedResponse) : Prepared S → Action S (Prepared S)
  | .answered r => .answered <$> next r
  | .fetching fetch => return .fetching do
    let conclude ← fetch
    return do next (← conclude)

end Prepared

structure Builder (S : Type) where
  /-- prepares the query for a page; `maxLimit` stands in for the greatest page size unless null -/
  prepare : Request → (maxLimit : Value) → Action S (Prepared S)
  cursorQuery : Request → Action S CursorResponse
  count : Request → Action S Nat
  aggregate : Request → Value → Action S (List (String × Value))

namespace Builder

variable {S : Type}

def query (b : Builder S) (r : Request) (maxLimit : Value) : Action S PagedResponse := do
  (← b.prepare r maxLimit).complete

/-! ## the base -/

def announce (kind : String) (p : Plan) : Action S Unit := do
  let entry ← p.announcement kind
  Action.report entry.source entry.severity entry.message

def concludePage (config : Config) (r : Request) (plan : Plan) (rows : Outcome (List Value))
    (total : Outcome Nat) : Outcome PagedResponse := do
  let rows ← rows
  let total ← total
  let page ← normalizePage (Plan.pageOf config r) Window.defaultPage
  PagedResponse.shape (.list rows) (.int total) page
    (Plan.unlessNull plan.window.take config.defaultLimit)

/-- rows and their number are fetched together; both are asked for even if one fails -/
def preparePage (config : Config) (e : Executor S) (r : Request) (maxLimit : Value) :
    Action S (Prepared S) := do
  let plan ← Plan.ofPage config r maxLimit
  announce "offset" plan
  let countPlan ← Plan.ofCount r
  return .fetching do
    let rows ← Action.attempt (e.find plan)
    let total ← Action.attempt (e.count countPlan)
    return Action.ofOutcome (concludePage config r plan rows total)

/-- one row more than the limit shows whether there are further ones -/
def cursorWindow (config : Config) (e : Executor S) (r : Request) : Action S CursorResponse := do
  let plan ← Plan.ofCursor config r .null
  announce "cursor" plan
  let rows ← e.find plan
  let limit ← (plan.window.take.orElse (.int 1)).sub (.int 1)
  CursorResponse.shape (.list rows) limit (Plan.cursorField config r)

def base (config : Config) (e : Executor S) : Builder S where
  prepare := preparePage config e
  cursorQuery := cursorWindow config e
  count r := do e.count (← Plan.ofCount r)
  aggregate r aggregations := do e.aggregate (← Plan.ofAggregate r aggregations)

/-! ## several queries -/

/-- the answers by name; a later one takes the place of an earlier one -/
def named (answers : List (String × PagedResponse)) : List (String × PagedResponse) :=
  answers.foldl (fun given answer => Value.put answer.1 answer.2 given) []

def fetchOf : Prepared S → Action S (Action S PagedResponse)
  | .fetching fetch => fetch
  | .answered r => return pure r

/-- named queries side by side: all are prepared, then all fetch, then all conclude.  A query that
fails does not keep the others from being fetched.  The first failure is the failure of the whole,
and `meanwhile` is what else waits to be done while they fetch. -/
def batch (b : Builder S) (meanwhile : Action S Unit) (queries : List (String × Request)) :
    Action S (List (String × PagedResponse)) := do
  let prepared ← queries.mapM fun q => Action.attempt (b.prepare q.2 .null)
  let fetched ← prepared.mapM fun p => Action.attempt do fetchOf (← Action.ofOutcome p)
  meanwhile
  let conclusions ← Action.ofOutcome (fetched.mapM id)
  let answers ← conclusions.mapM Action.attempt
  let responses ← Action.ofOutcome (answers.mapM id)
  return named ((queries.map (·.1)).zip responses)

/-! ## walks -/

/-- cursor windows from a request on, each from the cursor of the one before, at most `windows` -/
def walk (b : Builder S) : (windows : Nat) → Request → Action S (List CursorResponse)
  | 0, _ => return []
  | windows + 1, r => do
    let here ← b.cursorQuery r
    if here.hasMore then
      let next ← r.merged (.record [("cursor", here.nextCursor)])
      return here :: (← walk b windows next)
    else return [here]

end Builder

end ListQuery
