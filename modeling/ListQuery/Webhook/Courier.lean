import ListQuery.Action
import ListQuery.Collection.Order
import ListQuery.Fault.Message
import ListQuery.Text.Lower
import ListQuery.Text.Search
import ListQuery.Webhook.Payload

/-!
# Delivering to webhooks

A delivery posts a payload.  It can be made at once, and then fails as a fault; or it is scheduled,
made later, and a failure is only reported.

* `Courier.deliver`    posts a payload now;
* `Courier.schedule`   keeps a delivery for later;
* `Courier.drain`      makes the scheduled deliveries in their order.
-/

namespace ListQuery

inductive Reply where
  /-- a status; all but the two hundreds are failures -/
  | status (code : Int)
  /-- no connection, with the reason if one is known -/
  | unreachable (reason : String)
  deriving DecidableEq

def Reply.failure? : Reply → Option String
  | .status code => if 200 ≤ code ∧ code < 300 then none else some ("HTTP " ++ toString code)
  | .unreachable reason => some (if reason = "" then "ConnectError" else reason)

structure Delivery where
  url : String
  payload : Payload
  /-- sent with the content type, and over it where the name is the same -/
  headers : List (String × Value) := []
  /-- whether it opens a client of its own -/
  ownClient : Bool := false

namespace Delivery

def merged (d : Delivery) : List (String × Value) :=
  Value.overlay [("Content-Type", .str "application/json")] d.headers

end Delivery

structure Post where
  url : String
  headers : List (String × Value)
  body : String

namespace Post

/-- whether a header, by its lower-case name, tells the content type or is one of the sender's own -/
def isNoted (header : String × Value) : Bool :=
  header.1 == "content-type" || Text.startsWith header.1.toList ['x', '-']

def headerBefore (a b : String × Value) : Bool :=
  ((Text.order a.1.toList b.1.toList).then
    (Text.order a.2.display.toList b.2.display.toList)) == .lt

def notedHeaders (p : Post) : List (String × Value) :=
  let lowered := p.headers.map fun header => (Text.lower header.1, header.2)
  stableSort headerBefore (lowered.filter isNoted)

end Post

structure Courier where
  /-- what the receivers answer now -/
  reply : Reply := .status 200
  /-- whether the shared client has been closed -/
  closed : Bool := false
  scheduled : List Delivery := []
  posts : List Post := []

instance : Inhabited Courier := ⟨{}⟩

namespace Courier

def source : String := "querypilot.webhook"

def failure (d : Delivery) (reason : String) : Fault :=
  .refused (.deliveryFailed (.str d.url) (.str reason))

def post (d : Delivery) (body : String) : Action Courier (Option String) := do
  let courier ← Action.read
  if courier.closed ∧ ¬ d.ownClient then
    return some "Cannot send a request, as the client has been closed."
  else
    Action.update fun c => { c with posts := c.posts ++ [⟨d.url, d.merged, body⟩] }
    return courier.reply.failure?

def deliver (d : Delivery) : Action Courier Unit := do
  match d.payload.body with
  | .error f => throw (failure d f.message)
  | .ok body =>
    match ← post d body with
    | some reason => throw (failure d reason)
    | none => Action.report source .debug ("Webhook delivered to " ++ d.url)

def schedule (d : Delivery) : Action Courier Unit :=
  Action.update fun c => { c with scheduled := c.scheduled ++ [d] }

/-- a delivery that nothing waits for -/
def deliverQuietly (d : Delivery) : Action Courier Unit := do
  match ← Action.attempt (deliver d) with
  | .ok _ => return
  | .error f => Action.report source .error ("Webhook error: " ++ f.message)

def drain : Action Courier Unit := do
  let waiting := (← Action.read).scheduled
  Action.update fun c => { c with scheduled := [] }
  waiting.forM deliverQuietly

end Courier

end ListQuery
