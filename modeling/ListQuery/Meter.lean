import ListQuery.Action
import ListQuery.Response
import ListQuery.Request
import ListQuery.Number.Decimal
import ListQuery.Value.Display

/-!
# Measuring queries

A meter judges how long queries took, counts them by model, and tells one observer.

* `Meter.record`      one query: a slow one is reported, counted and told;
* `Registry.samples`  the counts and sums so far.
-/

namespace ListQuery

/-! ## counts by model -/

structure Durations where
  count : Nat := 0
  sum : Binary64 := .zero
  deriving Inhabited

structure Registry where
  durations : List (String × Durations) := []
  slow : List (String × Nat) := []
  deriving Inhabited

namespace Registry

def alter {α : Type} (start : α) (f : α → α) (label : String) : List (String × α) → List (String × α)
  | [] => [(label, f start)]
  | (other, x) :: rest =>
    if other = label then (other, f x) :: rest else (other, x) :: alter start f label rest

/-- one more duration; what is not a number has no place among the counts -/
def Durations.observe (seconds : Binary64) (d : Durations) : Durations :=
  { count := if seconds.isNaN then d.count else d.count + 1, sum := d.sum.add seconds }

def observe (label : String) (seconds : Binary64) (r : Registry) : Registry :=
  { r with durations := alter {} (Durations.observe seconds) label r.durations }

def countSlow (label : String) (r : Registry) : Registry :=
  { r with slow := alter 0 (· + 1) label r.slow }

structure Sample where
  name : String
  label : String
  amount : Binary64

def Sample.atMost (a b : Sample) : Bool :=
  match Text.order a.name.toList b.name.toList with
  | .lt => true
  | .gt => false
  | .eq => Text.order a.label.toList b.label.toList != .gt

def Sample.insert (s : Sample) : List Sample → List Sample
  | [] => [s]
  | other :: rest => if s.atMost other then s :: other :: rest else other :: Sample.insert s rest

def ofNat (n : Nat) : Binary64 := .ofRatio false n 1

def samples (r : Registry) : List Sample :=
  let counts := r.durations.map fun (label, d) =>
    ⟨"querypilot_query_duration_seconds_count", label, ofNat d.count⟩
  let sums := r.durations.map fun (label, d) =>
    ⟨"querypilot_query_duration_seconds_sum", label, d.sum⟩
  let slow := r.slow.map fun (label, n) => ⟨"querypilot_slow_queries_total", label, ofNat n⟩
  (counts ++ sums ++ slow).foldr Sample.insert []

end Registry

/-! ## the meter -/

structure MeterEvent where
  observer : String
  request : Request
  metrics : QueryMetrics

def MeterEvent.model (e : MeterEvent) : Option String := e.request.model

structure Meter where
  /-- queries above this many milliseconds are slow -/
  threshold : Value
  observer : Option String := none
  registry : Option Registry := none
  events : List MeterEvent := []
  deriving Inhabited

namespace Meter

def defaultThreshold : Value := .float (.ofRatio false 1000 1)

def observe (observer : Option String) : Action Meter Unit :=
  Action.update fun m => { m with observer }

/-- a duration or count that is not one of the values it may be -/
def duration (v : Value) : Checked Binary64 :=
  match v.toBinary64 with
  | .ok x => .valid x
  | .error _ => .reject .floatType

def slowText (r : Request) (elapsed : Binary64) (filters : Value) : String :=
  "Slow query detected: " ++ Decimal.fixed 2 elapsed ++ "ms (model="
    ++ (Value.ofText? r.model).display ++ ", page=" ++ (Value.ofInt? r.page).display
    ++ ", filters=" ++ filters.display ++ ")"

def labelOf (r : Request) : String :=
  match r.model with
  | none => "unknown"
  | some s => if s = "" then "unknown" else s

/-- one query that took `elapsed` milliseconds and matched `count` rows, at the time `now` -/
def record (now : Instant) (r : Request) (elapsed count : Value) : Action Meter QueryMetrics := do
  let meter ← Action.read
  let isSlow ← elapsed.compares .above meter.threshold
  let checked := (QueryMetrics.mk · · isSlow now) <$> (duration elapsed).inside "query_time"
    <*> (Field.integer count).inside "result_count"
  let metrics ← checked.orFault "QueryMetrics"
  if isSlow then
    let written ← r.toRecord
    Action.report "querypilot.metrics" .warning
      (slowText r metrics.queryTime (.ofOption (Value.field? "filters" written)))
  let seconds := metrics.queryTime.div (.ofRatio false 1000 1)
  Action.update fun m => { m with
    registry := m.registry.map fun registry =>
      let counted := registry.observe (labelOf r) seconds
      if isSlow then counted.countSlow (labelOf r) else counted
    events := m.events ++ (m.observer.toList.map fun observer => ⟨observer, r, metrics⟩) }
  return metrics

end Meter

end ListQuery
