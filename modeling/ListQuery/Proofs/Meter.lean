import ListQuery.Builder.Metered
import ListQuery.Meter
import ListQuery.Proofs.Number.Order
import ListQuery.Proofs.Request.Written
import ListQuery.Proofs.Value.Integers

/-!
# What a meter has counted

A resolved request is recorded, whatever time it took.  What a meter holds after some recordings is
told by the list of them: counts by model, reports and events.

* `Builder.isNaN_elapsed`    the time between two finite readings of a clock is a number;
* `Meter.Entry`              a recording, with the observer of its time;
* `Meter.record_eq`          what one recording does;
* `Registry.standing`        what stands under a label;
* `Meter.Holds`              a meter that holds just some recordings, and its counts then.
-/

namespace ListQuery

/-! ## times -/

namespace Binary64

def IsFinite (x : Binary64) : Prop := ∃ negative m e, x = .finite negative m e

theorem IsFinite.isNaN {x : Binary64} (h : x.IsFinite) : x.isNaN = false := by
  obtain ⟨_, _, _, rfl⟩ := h
  rfl

theorem isNaN_mul_finite {x : Binary64} (h : x.isNaN = false) (b : Bool) {n : Nat} (hn : n ≠ 0)
    (f : Int) : (x.mul (.finite b n f)).isNaN = false := by
  cases x with
  | nan => cases h
  | infinity a =>
    show (if n = 0 then Binary64.nan 0 else Binary64.infinity (a != b)).isNaN = false
    rw [if_neg hn]
    rfl
  | finite a m e => exact isNaN_ofRatio _ _ _

theorem isNaN_div_finite {x : Binary64} (h : x.isNaN = false) (b : Bool) (n : Nat) (f : Int) :
    (x.div (.finite b n f)).isNaN = false := by
  cases x with
  | nan => cases h
  | infinity a => rfl
  | finite a m e => exact isNaN_ofRatio _ _ _

theorem thousand_eq : ofRatio false 1000 1 = .finite false (1000 * 2 ^ 43) (-43) := by decide +kernel

end Binary64

theorem Builder.isNaN_elapsed {began ended : Binary64} (hbegan : began.IsFinite)
    (hended : ended.IsFinite) : (elapsed began ended).isNaN = false := by
  obtain ⟨a, m, e, rfl⟩ := hbegan
  unfold elapsed
  rw [Binary64.thousand_eq]
  exact Binary64.isNaN_mul_finite (Binary64.isNaN_add_finite hended.isNaN ..) _ (by decide) _

/-! ## one recording -/

theorem Value.compares_above (x : Binary64) {v : Value} {limit : Binary64}
    (h : v.number? = some limit) : (Value.float x).compares .above v = .ok (x.exceeds limit) := by
  rw [compares_of_number .above rfl, h]
  dsimp only
  unfold Binary64.exceeds
  rcases x.compare? limit with _ | o
  · rfl
  · cases o <;> rfl

namespace Meter

def judged (limit : Binary64) (now : Instant) (elapsed : Binary64) (total : Int) : QueryMetrics :=
  ⟨elapsed, total, elapsed.exceeds limit, now⟩

structure Entry where
  request : Request
  metrics : QueryMetrics
  observer : Option String

namespace Entry

def label (e : Entry) : String := labelOf e.request

def seconds (e : Entry) : Binary64 := e.metrics.queryTime.div (.ofRatio false 1000 1)

def events (e : Entry) : List MeterEvent :=
  e.observer.toList.map fun observer => ⟨observer, e.request, e.metrics⟩

def warning (e : Entry) : LogEntry :=
  ⟨"querypilot.metrics", .warning, slowText e.request e.metrics.queryTime
    (.ofOption (Value.field? "filters" (e.request.toRecord.toOption.getD [])))⟩

def reports (e : Entry) : List LogEntry := if e.metrics.isSlow then [e.warning] else []

end Entry

def counted (registry : Registry) (e : Entry) : Registry :=
  let observed := registry.observe e.label e.seconds
  if e.metrics.isSlow then observed.countSlow e.label else observed

def recorded (w : Logged Meter) (e : Entry) : Logged Meter where
  state := { w.state with
    registry := w.state.registry.map (counted · e)
    events := w.state.events ++ e.events }
  log := w.log ++ e.reports

theorem record_eq (now : Instant) {r : Request} (hr : r.Resolved) (elapsed : Binary64) (total : Int)
    {w : Logged Meter} {limit : Binary64} (h : w.state.threshold.number? = some limit) :
    let metrics := judged limit now elapsed total
    (record now r (.float elapsed) (.int total)).runOn w
      = (.ok metrics, recorded w ⟨r, metrics, w.state.observer⟩) := by
  obtain ⟨fields, hfields⟩ := Request.toRecord_ok hr
  unfold record judged recorded counted Entry.reports Entry.warning
  rw [Action.runOn_bind, Action.runOn_read]
  dsimp only
  rw [Value.compares_above elapsed h, hfields]
  generalize elapsed.exceeds limit = slow
  cases slow
  · show _ = (_, Logged.mk _ (w.log ++ []))
    rw [List.append_nil]
    rfl
  · rfl

end Meter

/-! ## counts -/

namespace Registry

variable {α : Type} {start : α} {f : α → α}

def standing (start : α) (label : String) (xs : List (String × α)) : α :=
  (xs.lookup label).getD start

theorem standing_alter (label other : String) (xs : List (String × α)) :
    standing start other (alter start f label xs)
      = if label = other then f (standing start other xs) else standing start other xs := by
  unfold standing
  induction xs with
  | nil =>
    by_cases h : label = other
    · simp [alter, h]
    · simp [alter, h, List.lookup_cons, beq_false_of_ne (Ne.symm h)]
  | cons x xs ih =>
    obtain ⟨first, value⟩ := x
    unfold alter
    by_cases hfirst : first = label
    · rw [if_pos hfirst]
      by_cases h : label = other
      · simp [hfirst, h]
      · simp [hfirst, h, List.lookup_cons, beq_false_of_ne (Ne.symm h)]
    · rw [if_neg hfirst]
      by_cases hother : first = other
      · have h : label ≠ other := fun h => hfirst (hother.trans h.symm)
        simp [hother, h]
      · rw [List.lookup_cons, List.lookup_cons, beq_false_of_ne (Ne.symm hother)]
        exact ih

theorem sum_alter (label : String) (xs : List (String × Nat)) :
    ((alter 0 (· + 1) label xs).map (·.2)).sum = (xs.map (·.2)).sum + 1 := by
  induction xs with
  | nil => rfl
  | cons x xs ih =>
    unfold alter
    split
    · simp only [List.map_cons, List.sum_cons]
      omega
    · simp only [List.map_cons, List.sum_cons, ih]
      omega

def durationsOf (label : String) (registry : Registry) : Durations :=
  standing {} label registry.durations

def slowOf (label : String) (registry : Registry) : Nat := standing 0 label registry.slow

def slowTotal (registry : Registry) : Nat := (registry.slow.map (·.2)).sum

end Registry

namespace Meter

variable (e : Entry) (registry : Registry) (label : String)

theorem counted_durationsOf : (counted registry e).durationsOf label
    = if e.label = label then Registry.Durations.observe e.seconds (registry.durationsOf label)
      else registry.durationsOf label := by
  have hdurations : (counted registry e).durations
      = (registry.observe e.label e.seconds).durations := by
    unfold counted
    dsimp only
    split <;> rfl
  unfold Registry.durationsOf
  rw [hdurations]
  exact Registry.standing_alter ..

theorem counted_slowOf : (counted registry e).slowOf label
    = registry.slowOf label + if e.metrics.isSlow = true ∧ e.label = label then 1 else 0 := by
  unfold counted
  dsimp only
  cases e.metrics.isSlow with
  | false => simp [Registry.slowOf, Registry.observe]
  | true =>
    refine (Registry.standing_alter ..).trans ?_
    by_cases h : e.label = label
    · simp [h, Registry.slowOf, Registry.observe]
    · simp [h, Registry.slowOf, Registry.observe]

theorem counted_slowTotal : (counted registry e).slowTotal
    = registry.slowTotal + if e.metrics.isSlow then 1 else 0 := by
  unfold counted
  dsimp only
  cases e.metrics.isSlow with
  | false => rfl
  | true => exact Registry.sum_alter ..

end Meter

/-! ## all recordings -/

namespace Meter

def tally (entries : List Entry) : Registry := entries.foldl counted {}

variable {entries : List Entry} {e : Entry} {w : Logged Meter}

theorem tally_append : tally (entries ++ [e]) = counted (tally entries) e := by
  unfold tally
  rw [List.foldl_append]
  rfl

/-- every recording whose time is a number counts once, under its label -/
theorem tally_durationsOf (h : ∀ e ∈ entries, e.metrics.queryTime.isNaN = false) (label : String) :
    ((tally entries).durationsOf label).count = entries.countP (·.label = label) := by
  induction entries using List.reverseRecOn with
  | nil => rfl
  | append_singleton entries e ih =>
    have hseconds : e.seconds.isNaN = false := by
      unfold Entry.seconds
      rw [Binary64.thousand_eq]
      exact Binary64.isNaN_div_finite (h e (by simp)) ..
    rw [tally_append, counted_durationsOf, List.countP_append, List.countP_singleton,
      ← ih fun e he => h e (List.mem_append_left _ he)]
    by_cases hlabel : e.label = label
    · simp [hlabel, Registry.Durations.observe, hseconds]
    · simp [hlabel]

theorem tally_slowOf (entries : List Entry) (label : String) :
    (tally entries).slowOf label = entries.countP fun e => e.metrics.isSlow ∧ e.label = label := by
  induction entries using List.reverseRecOn with
  | nil => rfl
  | append_singleton entries e ih =>
    rw [tally_append, counted_slowOf, List.countP_append, List.countP_singleton, ← ih]
    simp only [decide_eq_true_eq]

theorem tally_slowTotal (entries : List Entry) :
    (tally entries).slowTotal = entries.countP (·.metrics.isSlow) := by
  induction entries using List.reverseRecOn with
  | nil => rfl
  | append_singleton entries e ih =>
    rw [tally_append, counted_slowTotal, List.countP_append, List.countP_singleton, ← ih]

/-- what the meter holds is what these recordings left -/
structure Holds (w : Logged Meter) (entries : List Entry) : Prop where
  registry : w.state.registry = some (tally entries)
  events : w.state.events = entries.flatMap Entry.events
  log : w.log = (entries.filter (·.metrics.isSlow)).map Entry.warning

namespace Holds

theorem recorded (h : Holds w entries) (e : Entry) : Holds (recorded w e) (entries ++ [e]) where
  registry := by
    rw [tally_append]
    exact congrArg (Option.map (counted · e)) h.registry
  events := by
    rw [List.flatMap_append, List.flatMap_singleton, ← h.events]
    rfl
  log := by
    rw [List.filter_append, List.map_append, ← h.log]
    show w.log ++ e.reports = _
    unfold Entry.reports
    cases hslow : e.metrics.isSlow <;> simp [hslow]

theorem observing (h : Holds w entries) (observer : Option String) :
    Holds { w with state := { w.state with observer } } entries :=
  ⟨h.registry, h.events, h.log⟩

/-- there is one report for every slow query, and nothing else is reported -/
theorem log_length (h : Holds w entries) : w.log.length = entries.countP (·.metrics.isSlow) := by
  rw [h.log, List.length_map, List.countP_eq_length_filter]

theorem warns (h : Holds w entries) {report : LogEntry} (hreport : report ∈ w.log) :
    report.source = "querypilot.metrics" ∧ report.severity = .warning := by
  rw [h.log] at hreport
  obtain ⟨e, -, rfl⟩ := List.mem_map.mp hreport
  exact ⟨rfl, rfl⟩

end Holds

end Meter

end ListQuery
