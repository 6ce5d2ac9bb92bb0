import ListQuery.Json.Write
import ListQuery.Value.Convert

/-!
# Exports

Rows as tables of comma-separated values and as JSON.

* `Export.csv`    a line of names, then a line a row; fields are quoted where they need it;
* `Export.json`   all rows as one array, indented or on one line.
-/

namespace ListQuery

namespace Export

/-! ## fields -/

def needsQuotes (c : Char) : Bool := c = ',' || c = '"' || c = '\n' || c = '\r'

/-- a field; in quotes, with its own quotes doubled, where it holds a mark -/
def field (s : List Char) : List Char :=
  if s.any needsQuotes then
    '"' :: (s.flatMap (fun c => if c = '"' then ['"', '"'] else [c]) ++ ['"'])
  else s

/-- the text of a value in a table: nothing for null, JSON for what has parts -/
def cell : Value → Outcome (List Char)
  | .null => .ok []
  | .str s => .ok s.toList
  | .bool b => .ok (if b then "true" else "false").toList
  | .int n => Value.integerText n
  | .float x => .ok (DecimalStyle.scientific.render x).toList
  | .date d => .ok (Iso.date d)
  | .instant t => .ok (Iso.instant 'T' t)
  | v => JsonStyle.cell.write 0 v

/-! ## tables -/

def columns : Value → Outcome (List String)
  | .record entries => .ok (entries.map (·.1))
  | .object attributes =>
    if (Value.object attributes).has "model_dump" then .error .wrongKind
    else .ok (attributes.map (·.1))
  | .pageMeta m => .ok ((Value.ofPageMeta m).map (·.1))
  | .condition c => .ok ((Value.conditionAttributes c).map (·.1))
  | .unset => .ok []
  | _ => .error .wrongKind

def line (fields : List (List Char)) : List Char := Value.joined [','] (fields.map field)

/-- a row's values under the names of the table -/
def rowLine (names : List String) (row : Value) : Outcome (List Char) := do
  return line (← names.mapM fun name => cell (row.member name))

/-- a table with the names of the first row -/
def csv (rows : List Value) : Outcome String := do
  match rows with
  | [] => return ""
  | first :: _ =>
    let names ← columns first
    let lines ← rows.mapM (rowLine names)
    return String.ofList (Value.joined ['\n'] (line (names.map String.toList) :: lines))

/-- a table of the items of a sequence; nothing for what is empty or absent -/
def csvOf (rows : Value) : Outcome String :=
  if !rows.truthy then .ok ""
  else match rows with
    | .list items => csv items
    | .tuple items => csv items
    | .record _ => .error .noEntry
    | _ => .error .wrongKind

/-! ## arrays -/

def json (rows : List Value) (pretty : Bool) : Outcome String :=
  (if pretty then JsonStyle.exportPretty else JsonStyle.exportLine).render (.list rows)

end Export

end ListQuery
