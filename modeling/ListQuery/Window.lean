import ListQuery.Value.Convert
import ListQuery.Value.Display
import ListQuery.Number.Numeral

/-!
# Windows into an ordered result

* `normalizePage`, `normalizeLimit`  a page number and a page size within their bounds;
* `Window.offset`                    the window of a numbered page;
* `Window.atCursor`                  the window after an anchor, with one row more than asked for;
* `totalPages`                       how many pages a number of rows fills;
* `CursorPage.ofRows`                a window's rows without the extra one, and where to go on.
-/

namespace ListQuery

/-! ## pages and limits -/

def wholeNumber? : Value → Outcome (Option Int)
  | .int n => .ok (some n)
  | .bool b => .ok (some b.toNat)
  | .float x => match x.truncate? with
    | .ok n => .ok (some n)
    | .error .notANumber => .ok none
    | .error .infinite => .error .overflow
  | .str s => .ok (Numeral.lenient? s)
  | _ => .ok none

def wholeOr (v default : Value) : Outcome Value :=
  return match ← wholeNumber? v with
    | some n => .int n
    | none => default

def normalizePage (page default : Value) : Outcome Value := do
  Value.atLeast (.int 1) (← wholeOr page default)

/-- a page size, at least 1 and then at most the greatest one -/
def normalizeLimit (limit default maxLimit : Value) : Outcome Value := do
  Value.atMost maxLimit (← Value.atLeast (.int 1) (← wholeOr limit default))

/-! ## windows -/

structure Window where
  /-- how many rows; null for all -/
  take : Value := .null
  /-- how many rows are left out before them -/
  skip : Value := .null
  /-- a record of the field and value that mark the row to start from, null for the first -/
  cursor : Value := .null
  deriving Inhabited

namespace Window

def defaultPage : Value := .int 1
def defaultLimit : Value := .int 10
def maxLimit : Value := .int 100

/-- the window of a numbered page -/
def offset (page limit defaultLimit maxLimit : Value) : Outcome Window := do
  let page ← normalizePage page defaultPage
  let limit ← normalizeLimit limit defaultLimit maxLimit
  let before ← page.sub (.int 1)
  return { take := limit, skip := ← before.mul limit }

/-- one row more than the limit; with a cursor, after the row it marks -/
def atCursor (cursor limit field : Value) : Outcome Window := do
  let take ← limit.add (.int 1)
  if cursor.isNull || cursor.equals (.str "") then return { take, skip := .int 0 }
  else if field.hashable then
    return { take, skip := .int 1, cursor := .record [(field.display, cursor)] }
  else throw .wrongKind

end Window

/-- how many pages of `limit` rows hold `total` rows -/
def totalPages (total limit : Value) : Outcome Value := do
  if ← total.compares .atMost (.int 0) then return .int 0
  match (← total.div limit).ceil? with
  | .ok n => return .int n
  | .error .notANumber => throw .badValue
  | .error .infinite => throw .overflow

/-! ## rows of a window -/

structure CursorPage where
  data : List Value
  hasMore : Bool
  nextCursor : Value

namespace CursorPage

def lastMember (field : Value) (data : List Value) : Outcome Value :=
  match data.getLast? with
  | some row => field.lookUp row
  | none => .ok .null

/-- a row past the limit shows that there are more and is dropped -/
def ofRows (rows limit field : Value) : Outcome CursorPage := do
  if ← (Value.int (← rows.size)).compares .above limit then
    let data ← rows.firstItems limit
    if data.isEmpty then throw .noItem
    return ⟨data, true, ← lastMember field data⟩
  else
    let data ← rows.items
    return ⟨data, false, ← lastMember field data⟩

end CursorPage

end ListQuery
