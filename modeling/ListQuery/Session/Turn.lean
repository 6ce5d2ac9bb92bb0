import ListQuery.Session.Layer

/-!
# Turns

A session answers one question at a time.  When the answer is there, the deliveries that it gave
rise to are made, and what was noted is read off.

* `Session.turn`   an answer, with what was noted on the way to it;
* `Stack.batch`, `Stack.cachedQuery`, `Stack.invalidate`, `Stack.observe`, `Stack.send`
                   questions that need more of the stack than its builder.
-/

namespace ListQuery

structure Turn (α : Type) where
  result : Outcome α
  log : List LogEntry
  /-- how many deliveries were waiting when the answer was there -/
  pending : Nat
  /-- the session after the deliveries, with what was noted since the answer before -/
  session : Session

/-- answers a question, and makes the deliveries that wait -/
def Session.turn {α : Type} (s : Session) (a : Action Session α) : Turn α :=
  let (result, answered) := a.runOn ⟨s.unnoted, []⟩
  let (_, drained) := (Session.ofCourier Courier.drain).runOn answered
  { result
    log := drained.log
    pending := answered.state.courier.scheduled.length
    session := drained.state }

namespace Stack

def walkLength : Nat := 50

def walk (s : Stack) (r : Request) : Action Session (List CursorResponse) :=
  s.builder.walk walkLength r

/-- several queries side by side; deliveries that wait are made while they fetch -/
def batch (s : Stack) (queries : List (String × Request)) :
    Action Session (List (String × PagedResponse)) :=
  s.builder.batch (Session.ofCourier Courier.drain) queries

def theCache (s : Stack) : Outcome CacheLayer :=
  match s.cache with
  | some c => .ok c
  | none => .error .noMember

def cachedQuery (s : Stack) (r : Request) (key : Option String) (lifetime : Value) (enabled : Bool)
    (maxLimit : Value) : Action Session PagedResponse := do
  let c ← s.theCache
  c.inner.cachedQuery c.store c.ttl r key lifetime enabled maxLimit

def invalidate (s : Stack) (key : String) : Action Session Unit := do
  let c ← s.theCache
  c.store.invalidate key

def observe (s : Stack) (observer : Option String) : Action Session Unit :=
  match s.meters.length with
  | 0 => throw .noMember
  | n + 1 => Session.meterAt n (Meter.observe observer)

def cachedKeys? (s : Stack) (state : Session) : Option (List String) := do
  let i ← (← s.cache).memory
  some ((state.memories.getD i {}).entries.map (·.1))

end Stack

end ListQuery
