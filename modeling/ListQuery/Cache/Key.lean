import ListQuery.Json.Write
import ListQuery.Plan

/-!
# Cache keys

The key of a request is made of its parts with colons between them; a part that says nothing more
than the settings do is left out.  Filters are written with sorted names, so their order does not
matter.
-/

namespace ListQuery

namespace CacheKey

/-- the filters of a written request; alone, the plain ones stand for themselves -/
def filterPart (written : List (String × Value)) : List (String × Value) :=
  let used := ["filters", "relation_filters", "or_filters", "not_filters"].filterMap fun name =>
    (Value.field? name written).map (name, ·)
  match used with
  | [("filters", .record entries)] => entries
  | _ => used

/-- a number of a request, or the setting where it is absent or zero -/
def numberOr (n : Option Int) (default : Value) : Outcome String :=
  String.ofList <$> ((Value.ofInt? n).orElse default).text

def part (name text : String) (given : Bool) : List String :=
  if given then [name ++ ":" ++ text] else []

def valuePart (name : String) (v : Value) : Outcome (List String) := do
  if v.isNull then return [] else return [name ++ ":" ++ (← JsonStyle.key.render v)]

def ofRequest (config : Config) (r : Request) : Outcome String := do
  let filters := filterPart (← r.toRecord)
  let page ← numberOr r.page config.defaultPage
  let limit ← numberOr r.limit config.defaultLimit
  let filterText ← JsonStyle.key.render (.record filters)
  let projection ← valuePart "projection" r.projection
  let cursor ← valuePart "cursor" r.cursor
  let sortField ← (Plan.sortField config r).text
  let direction ← (Plan.direction config r).text
  let search := r.search.getD ""
  let cursorField := r.cursorField.getD ""
  let parts :=
    [((Value.ofText? r.model).orElse (.str "unknown")).display, "page:" ++ page, "limit:" ++ limit]
    ++ part "search" search (search ≠ "")
    ++ part "fields" (String.intercalate "," r.searchFields) (r.searchFields ≠ [])
    ++ part "mode" r.searchMode.name (r.searchMode ≠ .contains)
    ++ part "filters" filterText (filters.length ≠ 0)
    ++ projection ++ cursor
    ++ part "cursor_field" cursorField (cursorField ≠ "")
    ++ ["sort:" ++ String.ofList sortField ++ ":" ++ String.ofList direction]
  return String.intercalate ":" parts

end CacheKey

end ListQuery
