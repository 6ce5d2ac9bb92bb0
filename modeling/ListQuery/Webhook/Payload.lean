import ListQuery.Calendar.Timestamp
import ListQuery.Field
import ListQuery.Json.Write

/-!
# Webhook payloads

What a webhook is told of a query: its rows, the counts of the page, when it was answered and, if
wanted, the request.

* `Payload.ofFields`   a payload from loose values;
* `Payload.body`       its JSON text, without the request where there is none.
-/

namespace ListQuery

structure Payload where
  data : List Value
  /-- the counts of the page by name -/
  counts : List (String × Value)
  timestamp : Instant
  request : Option (List (String × Value)) := none

namespace Payload

def inCalendar (t : Instant) : Checked Instant :=
  if t.date.year = 0 then .reject .datetimeOutOfRange else .valid t

def counted : Option Instant → Checked Instant
  | none => .reject .datetimeOutOfRange
  | some t => inCalendar t

/-- an instant, a date, a timestamp, or a number of seconds no greater than a double can be -/
def instant : Value → Checked Instant
  | .instant t => .valid t
  | .date d => .valid (.midnight d)
  | .int n =>
    if (Binary64.ofInt? n).isNone then .reject .datetimeType else counted (Timestamp.ofSeconds? n)
  | .float x => counted (Timestamp.ofDouble? x)
  | .str s => match Timestamp.read? s.toList <|> Timestamp.ofNumeral? s.toList with
    | some t => inCalendar t
    | none => .reject .datetimeParsing
  | _ => .reject .datetimeType

def ofFields (fields : List (String × Value)) : Outcome Payload :=
  let checked : Checked Payload := Payload.mk <$> Field.required "data" Field.list fields
    <*> Field.required "meta" Field.record fields
    <*> Field.required "timestamp" instant fields
    <*> Field.withDefault "query" none (Field.optional Field.record) fields
  checked.orFault "WebhookPayload"

def toRecord (p : Payload) : List (String × Value) :=
  [("data", .list p.data), ("meta", .record p.counts), ("timestamp", .instant p.timestamp)]
    ++ (p.request.toList.map fun request => ("query", .record request))

def body (p : Payload) : Outcome String := JsonStyle.response.render (.record p.toRecord)

end Payload

end ListQuery
