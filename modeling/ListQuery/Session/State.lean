import ListQuery.Builder.Stored
import ListQuery.Cache.Memory
import ListQuery.Cache.Remote
import ListQuery.Meter
import ListQuery.Preset
import ListQuery.Webhook.Courier

/-!
# Sessions

Everything that the answers of a session depend on: the collections, the time, what the layers over
the executor keep, and what has been noted since the last answer.

* `Session`              the state;
* `Session.executor`     plans carried out on the collections, each call noted;
* `Session.meterAt`, `ofServer`, `ofCourier`, `ofPresets`   computations on a part.
-/

namespace ListQuery

structure Session where
  store : Store
  /-- seconds on the clock that lifetimes and durations go by -/
  clock : Binary64 := .ofRatio false 1000 1
  /-- the date and time that messages carry -/
  now : Instant
  /-- seconds that finding rows takes -/
  latency : Value := .int 0
  /-- what the executor was asked, in order -/
  calls : List String := []
  memories : List Memory := []
  server : Server := {}
  meters : List Meter := []
  courier : Courier := {}
  presets : Presets := []
  deriving Inhabited

namespace Session

/-! ## parts -/

def meterAt {α : Type} (i : Nat) (a : Action Meter α) : Action Session α :=
  Action.within (·.meters.getD i default) (fun m s => { s with meters := s.meters.set i m }) a

def ofServer {α : Type} (a : Action Server α) : Action Session α :=
  Action.within (·.server) (fun server s => { s with server }) a

def ofCourier {α : Type} (a : Action Courier α) : Action Session α :=
  Action.within (·.courier) (fun courier s => { s with courier }) a

def ofPresets {α : Type} (a : Action Presets α) : Action Session α :=
  Action.within (·.presets) (fun presets s => { s with presets }) a

/-! ## time -/

def advance (seconds : Value) : Action Session Unit := do
  let clock ← Memory.after (← Action.read).clock seconds
  Action.update fun s => { s with clock }

/-! ## the executor -/

def collections : Executor Session := .ofStore (·.store)

def call (name : String) : Action Session Unit :=
  Action.update fun s => { s with calls := s.calls ++ [name] }

def executor : Executor Session where
  find p := do
    call "find"
    advance (← Action.read).latency
    collections.find p
  count p := do
    call "count"
    collections.count p
  aggregate p := do
    call "aggregate"
    collections.aggregate p
  groupBy g := do
    call "group_by"
    collections.groupBy g

/-! ## notes -/

def unnoted (s : Session) : Session :=
  { s with
    calls := []
    server := { s.server with commands := [] }
    meters := s.meters.map fun m => { m with events := [] }
    courier := { s.courier with posts := [] } }

def events (s : Session) : List MeterEvent := s.meters.flatMap (·.events)

def registry? (s : Session) : Option Registry := (s.meters.filterMap (·.registry)).getLast?

end Session

end ListQuery
