import ListQuery.Fault
import ListQuery.Value.Display
import ListQuery.Text.Search

/-!
# Writing JSON

One writer for all the forms in which values leave as JSON.

* `JsonStyle`         the choices of a form: escapes, separators, indentation, order of names;
* `JsonStyle.Others`  how values that JSON does not know are written;
* `JsonStyle.deepest` how far values may be nested;
* `JsonStyle.write`   the text of a value.
-/

namespace ListQuery

inductive JsonStyle.Others where
  /-- as their text -/
  | display
  /-- dates in ISO 8601, counts of a page as an object, all else as its text; what has `model_dump`
  would have to give its data by that name, which only counts can -/
  | iso
  /-- by what they hold; what has no form is a fault, and an integer has any number of digits -/
  | content
  deriving DecidableEq

structure JsonStyle where
  /-- whether characters outside ASCII are escaped -/
  ascii : Bool
  betweenItems : String
  betweenNameAndValue : String
  /-- the step of indentation; none for one line -/
  indent : Option Nat
  /-- whether names are sorted -/
  sorted : Bool
  number : DecimalStyle
  others : JsonStyle.Others
  /-- how many levels below the top a value may stand; none for any number -/
  deepest : Option Nat := none

namespace JsonStyle

def exportLine : JsonStyle := ⟨true, ",", ":", none, false, .json, .iso, none⟩

def exportPretty : JsonStyle := ⟨true, ",", ": ", some 2, false, .json, .iso, none⟩

def cell : JsonStyle := ⟨true, ", ", ": ", none, false, .json, .iso, none⟩

def key : JsonStyle := ⟨true, ",", ":", none, true, .json, .display, none⟩

/-- stored values other than responses -/
def stored : JsonStyle := ⟨true, ", ", ": ", none, false, .json, .display, none⟩

def response : JsonStyle := ⟨false, ",", ":", none, false, .compact, .content, some 256⟩

/-! ## texts -/

/-- `\u` with four hexadecimal digits -/
def unitEscape (n : Nat) : List Char := '\\' :: 'u' :: Text.hex 4 n

def character (ascii : Bool) (c : Char) : List Char :=
  let n := c.toNat
  if c = '"' ∨ c = '\\' then ['\\', c]
  else if c = '\n' then ['\\', 'n']
  else if c = '\r' then ['\\', 'r']
  else if c = '\t' then ['\\', 't']
  else if n = 8 then ['\\', 'b']
  else if n = 12 then ['\\', 'f']
  else if n < 0x20 then unitEscape n
  else if !ascii ∨ n < 0x7f then [c]
  else if n < 0x10000 then unitEscape n
  else unitEscape (0xd800 + (n - 0x10000) / 0x400) ++ unitEscape (0xdc00 + (n - 0x10000) % 0x400)

def text (style : JsonStyle) (s : List Char) : List Char :=
  '"' :: (s.flatMap (character style.ascii) ++ ['"'])

/-! ## brackets -/

def lineBreak (style : JsonStyle) (depth : Nat) : List Char :=
  match style.indent with
  | none => []
  | some step => '\n' :: List.replicate (step * depth) ' '

def bracketed (style : JsonStyle) (depth : Nat) (opening closing : Char)
    (parts : List (List Char)) : List Char :=
  if parts.isEmpty then [opening, closing]
  else
    let separator := style.betweenItems.toList ++ style.lineBreak (depth + 1)
    opening :: (style.lineBreak (depth + 1) ++ Value.joined separator parts
      ++ style.lineBreak depth ++ [closing])

/-- puts a named part in front of the first one with a greater name -/
def insertByName {α : Type} (part : String × α) : List (String × α) → List (String × α)
  | [] => [part]
  | other :: rest =>
    if Text.order other.1.toList part.1.toList == .gt then part :: other :: rest
    else other :: insertByName part rest

def byName {α : Type} (parts : List (String × α)) : List (String × α) :=
  parts.foldl (fun sorted part => insertByName part sorted) []

def object (style : JsonStyle) (depth : Nat) (parts : List (String × List Char)) : List Char :=
  let parts := if style.sorted then byName parts else parts
  style.bracketed depth '\x7b' '\x7d' (parts.map fun part =>
    style.text part.1.toList ++ style.betweenNameAndValue.toList ++ part.2)

/-! ## values -/

def integer (style : JsonStyle) (n : Int) : Outcome (List Char) :=
  if style.others = .content then .ok (Value.signed n) else Value.integerText n

/-- an offset in hours and minutes, whole seconds deciding; universal time has the mark `Z` -/
def offsetContent (us : Int) : List Char :=
  let seconds := us.fdiv 1000000
  let minutes := seconds.natAbs / 60
  if seconds = 0 then ['Z']
  else (if seconds < 0 then '-' else '+')
    :: (Iso.padded 2 (minutes / 60) ++ ':' :: Iso.padded 2 (minutes % 60))

def instantContent (t : Instant) : List Char :=
  Iso.instant 'T' { t with offset := none } ++ (t.offset.map offsetContent).getD []

def instantText (style : JsonStyle) (t : Instant) : List Char :=
  match style.others with
  | .display => Iso.instant ' ' t
  | .iso => Iso.instant 'T' t
  | .content => instantContent t

def counts (style : JsonStyle) (depth : Nat) (m : PageMeta) : Outcome (List Char) := do
  let total ← style.integer m.total
  let page ← style.integer m.page
  let limit ← style.integer m.limit
  let totalPages ← style.integer m.totalPages
  return style.object depth
    [("total", total), ("page", page), ("limit", limit), ("total_pages", totalPages)]

def shown (style : JsonStyle) (v : Value) : Outcome (List Char) := do
  return style.text (← v.text)

def asText (style : JsonStyle) (v : Value) (k : Kind) : Outcome (List Char) :=
  match style.others with
  | .display => style.shown v
  | .iso => if v.has "model_dump" then .error .wrongKind else style.shown v
  | .content => .error (.unserializable k)

def checkDepth (style : JsonStyle) (depth : Nat) : Outcome Unit :=
  match style.deepest with
  | none => .ok ()
  | some most => if depth ≤ most then .ok () else .error .nestedTooDeep

mutual

/-- the text of a value that stands `depth` levels below the top -/
def write (style : JsonStyle) (depth : Nat) : Value → Outcome (List Char)
  | .null => .ok "null".toList
  | .bool b => .ok (if b then "true" else "false").toList
  | .int n => style.integer n
  | .float x => .ok (style.number.render x).toList
  | .str s => .ok (style.text s.toList)
  | .list items => do return style.bracketed depth '[' ']' (← writeAll style (depth + 1) items)
  | .tuple items => do return style.bracketed depth '[' ']' (← writeAll style (depth + 1) items)
  | .set items =>
    if style.others = .content then do
      return style.bracketed depth '[' ']' (← writeAll style (depth + 1) items)
    else style.shown (.set items)
  | .record entries => do return style.object depth (← writeEntries style (depth + 1) entries)
  | .date d => .ok (style.text (Iso.date d))
  | .instant t => .ok (style.text (style.instantText t))
  | .object attributes => style.asText (.object attributes) .object
  | .pageMeta m =>
    if style.others = .display then style.shown (.pageMeta m) else style.counts depth m
  | .unset => style.asText .unset .unset
  | .condition c =>
    if style.others = .content then do
      style.checkDepth (depth + 1)
      return style.object depth (← writeCondition style (depth + 1) c)
    else style.shown (.condition c)
  | .operation owner name =>
    style.asText (.operation owner name) (((Value.operation owner name).kind?).getD .builtin)
  | .kind k => style.asText (.kind k) .kind
  | .zone us => style.asText (.zone us) .zone
  | .duration us => style.asText (.duration us) .duration

def writeAll (style : JsonStyle) (depth : Nat) : List Value → Outcome (List (List Char))
  | [] => .ok []
  | v :: rest => do
    style.checkDepth depth
    let here ← write style depth v
    return here :: (← writeAll style depth rest)

def writeEntries (style : JsonStyle) (depth : Nat) :
    List (String × Value) → Outcome (List (String × List Char))
  | [] => .ok []
  | (name, v) :: rest => do
    style.checkDepth depth
    let here ← write style depth v
    return (name, here) :: (← writeEntries style depth rest)

def writeCondition (style : JsonStyle) (depth : Nat) :
    Condition → Outcome (List (String × List Char))
  | .exact v => do return [("value", ← write style depth v)]
  | .oneOf vs => do
    return [("values", style.bracketed depth '[' ']' (← writeAll style (depth + 1) vs))]
  | .range lo hi => do
    let lower ← write style depth lo
    return [("from_", lower), ("to", ← write style depth hi)]
  | .flag v => do return [("value", ← write style depth v)]
  | .differs v => do return [("value", ← write style depth v)]
  | .related q nested => do
    return [("kind", style.text q.toList), ("where", ← write style depth nested)]

end

def render (style : JsonStyle) (v : Value) : Outcome String :=
  String.ofList <$> style.write 0 v

end JsonStyle

end ListQuery
