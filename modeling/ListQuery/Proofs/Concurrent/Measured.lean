import Mathlib.Data.List.Perm.Basic
import ListQuery.Builder.Stored
import ListQuery.Proofs.Concurrent.Tasks
import ListQuery.Proofs.Layers.Part
import ListQuery.Proofs.Meter

/-!
# Queries measured side by side

Queries are measured by one meter, whose observer may be another one from step to step.  A watch that
looks at the run from outside writes down which query was answered, who was the observer then, and what
the clock showed at its first and last step.  The meter has just counted, reported and told of these.

* `Bench`, `Interim`              the builder inside and the meter, and what happens between steps;
* `Sighting`, `Watch.along`       an answered query, and those of a run, as they are seen from outside;
* `Task.Measures`                 what every step of a query does to the meter;
* `MeasuredQuery.task_measures`   every measured query is such a task;
* `Watched`                       the invariant of a run;
* `Bench.measured_once`           the meter after any moves.
-/

namespace ListQuery

variable {T : Type}

/-! ## the bench -/

/-- the builder inside and the meter, each with its own log -/
structure Bench (T : Type) where
  inner : Logged T
  meter : Logged Meter

inductive Interim (T : Type) where
  | register (observer : Option String)
  | meanwhile (change : T → T)

structure MeasuredQuery where
  request : Request
  maxLimit : Value
  now : Instant

namespace Bench

def ofInner : Port T (Bench T) :=
  .apart (·.inner) (fun inner s => { s with inner }) (fun _ _ => rfl) (fun _ _ _ => rfl) fun _ => rfl

def ofMeter : Port Meter (Bench T) :=
  .apart (·.meter) (fun meter s => { s with meter }) (fun _ _ => rfl) (fun _ _ _ => rfl) fun _ => rfl

def perform : Interim T → Action (Bench T) Unit
  | .register observer => ofMeter.lift (Meter.observe observer)
  | .meanwhile change => ofInner.lift (Action.update change)

def time (clock : T → Binary64) (w : Logged (Bench T)) : Binary64 := clock w.state.inner.state

end Bench

def MeasuredQuery.builder (q : MeasuredQuery) (clock : T → Binary64) (b : Builder T) :
    Builder (Bench T) :=
  (b.through Bench.ofInner).metered (fun s => clock s.inner.state) fun r elapsed count =>
    Bench.ofMeter.lift (Meter.record q.now r elapsed count)

/-! ## seen from outside -/

/-- an answered query: the observer then, and the clock at its first and last step -/
structure Sighting where
  query : MeasuredQuery
  observer : Option String
  began : Binary64
  ended : Binary64
  response : PagedResponse

namespace Sighting

def label (s : Sighting) : String := Meter.labelOf s.query.request

def elapsed (s : Sighting) : Binary64 := Builder.elapsed s.began s.ended

def metrics (limit : Binary64) (s : Sighting) : QueryMetrics :=
  Meter.judged limit s.query.now s.elapsed s.response.counts.total

def entry (limit : Binary64) (s : Sighting) : Meter.Entry :=
  ⟨s.query.request, s.metrics limit, s.observer⟩

end Sighting

/-- what a watch has written down: the clock at the first steps of queries, the observer, and the
sightings -/
structure Watch where
  started : Nat → Option Binary64 := fun _ => none
  registered : Option String := none
  sightings : List Sighting := []

namespace Watch

variable (clock : T → Binary64) (queries : List MeasuredQuery)

/-- the next step of a query: the first one tells when it began, and it is a sighting if it ends with an
answer -/
def step (u : Underway (Bench T)) (watch : Watch) (i : Nat) : Watch :=
  match queries[i]?, u.tasks[i]? with
  | some q, some (.waiting next world) =>
    let began := (watch.started i).getD (Bench.time clock u.world)
    let sighting? := (next u.world).response?.map
      (⟨q, watch.registered, began, Bench.time clock (world u.world), ·⟩)
    { watch with
      started := Function.update watch.started i (some began)
      sightings := watch.sightings ++ sighting?.toList }
  | _, _ => watch

def move (u : Underway (Bench T)) (watch : Watch) : Move (Interim T) → Watch
  | .step i => watch.step clock queries u i
  | .outside (.register observer) => { watch with registered := observer }
  | .outside (.meanwhile _) => watch

def along (u : Underway (Bench T)) (watch : Watch) : List (Move (Interim T)) → Watch
  | [] => watch
  | m :: moves => along (u.move Bench.perform m) (watch.move clock queries u m) moves

end Watch

/-! ## one query -/

section Measures

variable (q : MeasuredQuery) (clock : T → Binary64) (limit : Binary64)

/-- what a step of a query that began at some time does to the meter: nothing, unless it ends with an
answer, which is then recorded with what it says was measured -/
def MeasuredQuery.Keeps (began : Binary64) (before : Logged Meter) (after : Logged (Bench T)) :
    Option PagedResponse → Prop
  | none => after.state.meter = before
  | some response =>
    let s : Sighting := ⟨q, before.state.observer, began, Bench.time clock after, response⟩
    response.metrics = some (s.metrics limit) ∧
      after.state.meter = Meter.recorded before (s.entry limit)

/-- every step of the task does to the meter what a step of the query does -/
def Task.Measures : Task (Bench T) PagedResponse → (started : Option Binary64) → Prop
  | .finished _, _ => True
  | .waiting next world, started => ∀ w : Logged (Bench T),
    w.state.meter.state.threshold.number? = some limit →
      let began := started.getD (Bench.time clock w)
      q.Keeps clock limit began w.state.meter (world w) (next w).response? ∧
        (next w).Measures (some began)

def Action.Measures {α : Type} (started : Option Binary64) (a : Action (Bench T) α)
    (rest : α → Task (Bench T) PagedResponse) : Prop :=
  ∀ w : Logged (Bench T), w.state.meter.state.threshold.number? = some limit →
    let began := started.getD (Bench.time clock w)
    match a.runOn w with
    | (.error _, after) => after.state.meter = w.state.meter
    | (.ok x, after) => q.Keeps clock limit began w.state.meter after (rest x).response? ∧
      (rest x).Measures q clock limit (some began)

variable {q clock limit} {started : Option Binary64}

theorem Task.Measures.step_bind {α : Type} {a : Action (Bench T) α}
    {rest : α → Task (Bench T) PagedResponse} (h : a.Measures q clock limit started rest) :
    (Task.step a >>= rest).Measures q clock limit started := by
  intro w hw
  show q.Keeps clock limit _ _ (a.runOn w).2 ((Task.finished (a.runOn w).1).bind rest).response? ∧
    ((Task.finished (a.runOn w).1).bind rest).Measures q clock limit _
  have hrun := h w hw
  rcases ha : a.runOn w with ⟨f | x, after⟩
  · rw [ha] at hrun
    exact ⟨hrun, trivial⟩
  · rw [ha] at hrun
    exact hrun

theorem Task.Measures.step {a : Action (Bench T) PagedResponse}
    (h : a.Measures q clock limit started Pure.pure) : (Task.step a).Measures q clock limit started := by
  have hstep : Task.step a = Task.step a >>= Pure.pure := by
    show Task.waiting _ _ = Task.waiting _ _
    congr 1
    funext w
    show Task.finished (a.runOn w).1 = (Task.finished (a.runOn w).1).bind Pure.pure
    cases (a.runOn w).1 <;> rfl
  rw [hstep]
  exact .step_bind h

end Measures

namespace Bench

theorem runOn_inner {α : Type} (a : Action T α) (w : Logged (Bench T)) :
    (ofInner.lift a).runOn w = ((a.runOn w.state.inner).1,
      { w with state := { w.state with inner := (a.runOn w.state.inner).2 } }) := rfl

theorem runOn_meter {α : Type} (a : Action Meter α) (w : Logged (Bench T)) :
    (ofMeter.lift a).runOn w = ((a.runOn w.state.meter).1,
      { w with state := { w.state with meter := (a.runOn w.state.meter).2 } }) := rfl

end Bench

namespace MeasuredQuery

variable {q : MeasuredQuery} {clock : T → Binary64} {limit : Binary64} {b : Builder T}

def finish (q : MeasuredQuery) (clock : T → Binary64) (began : Binary64) (response : PagedResponse) :
    Action (Bench T) PagedResponse := do
  let ended := clock (← Action.read).inner.state
  let metrics ← Bench.ofMeter.lift (Meter.record q.now q.request
    (.float (Builder.elapsed began ended)) (.int response.counts.total))
  return { response with metrics := some metrics }

theorem finish_keeps (clock : T → Binary64) (h : q.request.Resolved) (began : Binary64)
    (response : PagedResponse) {w : Logged (Bench T)}
    (hw : w.state.meter.state.threshold.number? = some limit) :
    ∃ answer after, (q.finish clock began response).runOn w = (.ok answer, after) ∧
      q.Keeps clock limit began w.state.meter after (some answer) := by
  unfold finish
  rw [Action.runOn_bind, Action.runOn_read]
  dsimp only
  rw [Action.runOn_bind, Bench.runOn_meter, Meter.record_eq q.now h _ _ hw]
  exact ⟨_, _, rfl, rfl, rfl⟩

/-- a conclusion and then the measuring -/
theorem conclude_measures (h : q.request.Resolved) (began : Binary64)
    (conclude : Action T PagedResponse) :
    (Bench.ofInner.lift conclude >>= q.finish clock began).Measures q clock limit (some began)
      Pure.pure := by
  intro w hw
  rw [Action.runOn_bind, Bench.runOn_inner]
  rcases conclude.runOn w.state.inner with ⟨f | response, inner⟩
  · rfl
  · obtain ⟨answer, after, hrun, hkeeps⟩ := finish_keeps clock h began response
      (w := { w with state := { w.state with inner } }) hw
    dsimp only
    rw [hrun]
    exact ⟨hkeeps, trivial⟩

theorem prepared_measures (clock : T → Binary64) (h : q.request.Resolved) (began : Binary64)
    (p : Prepared T) {w : Logged (Bench T)}
    (hw : w.state.meter.state.threshold.number? = some limit) :
    ∃ p' after, ((p.through Bench.ofInner).andThen (q.finish clock began)).runOn w = (.ok p', after) ∧
      q.Keeps clock limit began w.state.meter after p'.task.response? ∧
      p'.task.Measures q clock limit (some began) := by
  cases p with
  | answered response =>
    obtain ⟨answer, after, hrun, hkeeps⟩ := finish_keeps clock h began response hw
    refine ⟨.answered answer, after, ?_, hkeeps, trivial⟩
    show (.answered <$> q.finish clock began response : Action (Bench T) (Prepared (Bench T))).runOn w
      = _
    rw [map_eq_pure_bind, Action.runOn_bind, hrun]
    rfl
  | fetching fetch =>
    refine ⟨_, w, rfl, rfl, ?_⟩
    show (Task.step ((Bench.ofInner.lift fetch >>= fun conclude =>
        pure (Bench.ofInner.lift conclude)) >>= fun conclude =>
      pure (conclude >>= q.finish clock began)) >>= Task.step).Measures q clock limit (some began)
    refine .step_bind fun w hw => ?_
    rw [bind_assoc, Action.runOn_bind, Bench.runOn_inner]
    rcases fetch.runOn w.state.inner with ⟨f | conclude, inner⟩
    · rfl
    · exact ⟨rfl, .step (conclude_measures h began conclude)⟩

theorem task_measures (h : q.request.Resolved) (b : Builder T) :
    ((q.builder clock b).task q.request q.maxLimit).Measures q clock limit none := by
  show (Task.step (Action.read >>= fun s : Bench T =>
    (Bench.ofInner.lift (b.prepare q.request q.maxLimit) >>= fun p =>
      pure (p.through Bench.ofInner)) >>= fun p =>
    p.andThen (q.finish clock (clock s.inner.state))) >>= Prepared.task).Measures q clock limit none
  refine .step_bind fun w hw => ?_
  rw [Action.runOn_bind, Action.runOn_read]
  dsimp only
  rw [bind_assoc, Action.runOn_bind, Bench.runOn_inner]
  rcases (b.prepare q.request q.maxLimit).runOn w.state.inner with ⟨f | p, inner⟩
  · rfl
  · obtain ⟨p', after, hrun, hprepared⟩ := prepared_measures clock h
      (Bench.time clock w) p (w := { w with state := { w.state with inner } }) hw
    have hnext : ((pure (p.through Bench.ofInner) : Action (Bench T) (Prepared (Bench T))) >>= fun p =>
        p.andThen (q.finish clock (clock w.state.inner.state))).runOn
          { w with state := { w.state with inner } } = (.ok p', after) := hrun
    dsimp only
    rw [hnext]
    exact hprepared

end MeasuredQuery

/-! ## any number of queries -/

/-- The meter holds what was recorded of the sightings, and their answers say what was measured. -/
structure Tallied (limit : Binary64) (registered : Option String) (sightings : List Sighting)
    (meter : Logged Meter) : Prop where
  threshold : meter.state.threshold.number? = some limit
  observer : meter.state.observer = registered
  measured {s : Sighting} (hs : s ∈ sightings) : s.response.metrics = some (s.metrics limit)
  timed {s : Sighting} (hs : s ∈ sightings) : s.elapsed.isNaN = false
  holds : Meter.Holds meter (sightings.map (·.entry limit))

namespace Tallied

variable {limit : Binary64} {registered : Option String} {sightings : List Sighting}
  {meter : Logged Meter}

theorem observing (h : Tallied limit registered sightings meter) (observer : Option String) :
    Tallied limit observer sightings { meter with state := { meter.state with observer } } :=
  ⟨h.threshold, rfl, h.measured, h.timed, h.holds.observing observer⟩

theorem sighting (h : Tallied limit registered sightings meter) {s : Sighting}
    (hmeasured : s.response.metrics = some (s.metrics limit)) (htimed : s.elapsed.isNaN = false) :
    Tallied limit registered (sightings ++ [s]) (Meter.recorded meter (s.entry limit)) where
  threshold := h.threshold
  observer := h.observer
  measured hs := by
    rcases List.mem_append.mp hs with hs | hs
    · exact h.measured hs
    · exact List.mem_singleton.mp hs ▸ hmeasured
  timed hs := by
    rcases List.mem_append.mp hs with hs | hs
    · exact h.timed hs
    · exact List.mem_singleton.mp hs ▸ htimed
  holds := by
    rw [List.map_append]
    exact h.holds.recorded _

section

variable (h : Tallied limit registered sightings meter) (label : String)

include h

theorem durations_count : ((Meter.tally (sightings.map (·.entry limit))).durationsOf label).count
    = (sightings.map fun s => (s.query, s.response)).countP
      fun a => Meter.labelOf a.1.request = label := by
  have hnumbers : ∀ e ∈ sightings.map (·.entry limit), e.metrics.queryTime.isNaN = false := by
    intro e he
    obtain ⟨s, hs, rfl⟩ := List.mem_map.mp he
    exact h.timed hs
  rw [Meter.tally_durationsOf hnumbers, List.countP_map, List.countP_map]
  rfl

theorem flagged_count : (sightings.map fun s => (s.query, s.response)).countP
      (fun a => a.2.metrics.any (·.isSlow)) = sightings.countP (·.elapsed.exceeds limit) := by
  rw [List.countP_map]
  refine List.countP_congr fun s hs => ?_
  rw [Function.comp_apply, h.measured hs]
  rfl

end

end Tallied

/-- Queries underway and the watch: every task measures its query, the sightings are the answers, and the
meter goes with them. -/
structure Watched (clock : T → Binary64) (limit : Binary64) (queries : List MeasuredQuery)
    (u : Underway (Bench T)) (watch : Watch) : Prop where
  length : u.tasks.length = queries.length
  task {i : Nat} {q : MeasuredQuery} {t : Task (Bench T) PagedResponse} (hq : queries[i]? = some q)
    (ht : u.tasks[i]? = some t) : t.Measures q clock limit (watch.started i)
  started {i : Nat} {x : Binary64} (hx : watch.started i = some x) : x.IsFinite
  answered : (watch.sightings.map fun s => (s.query, s.response)).Perm (answered queries u.tasks)
  tallied : Tallied limit watch.registered watch.sightings u.world.state.meter

namespace Watched

variable {clock : T → Binary64} {limit : Binary64} {queries : List MeasuredQuery}
  {u : Underway (Bench T)} {watch : Watch}

theorem began (hclock : ∀ t, (clock t).IsFinite) (h : Watched clock limit queries u watch) (i : Nat) :
    ((watch.started i).getD (Bench.time clock u.world)).IsFinite := by
  cases hx : watch.started i with
  | none => exact hclock _
  | some x => exact h.started hx

/-- One step of a query that has not ended leaves the meter as it is, or there is one answer more, of
which the meter has the sighting. -/
theorem advance (hclock : ∀ t, (clock t).IsFinite) (h : Watched clock limit queries u watch) {i : Nat}
    {q : MeasuredQuery} {next : Logged (Bench T) → Task (Bench T) PagedResponse}
    {world : Logged (Bench T) → Logged (Bench T)} (hq : queries[i]? = some q)
    (ht : u.tasks[i]? = some (.waiting next world)) :
    let began := (watch.started i).getD (Bench.time clock u.world)
    let sightings := watch.sightings ++ ((next u.world).response?.map
      (⟨q, watch.registered, began, Bench.time clock (world u.world), ·⟩)).toList
    (sightings.map fun s => (s.query, s.response)).Perm
        (ListQuery.answered queries (u.tasks.set i (next u.world))) ∧
      Tallied limit watch.registered sightings (world u.world).state.meter := by
  intro began sightings
  have hanswered := (h.answered.append_right _).trans (answered_set hq ht rfl (next u.world)).symm
  have hkeeps := (h.task hq ht u.world h.tallied.threshold).1
  cases hresponse : (next u.world).response? with
  | none =>
    have hmeter : (world u.world).state.meter = u.world.state.meter := by
      rw [hresponse] at hkeeps
      exact hkeeps
    have hsightings : sightings = watch.sightings := by
      show watch.sightings ++ _ = _
      rw [hresponse]
      exact List.append_nil _
    rw [hresponse] at hanswered
    rw [hsightings, hmeter]
    exact ⟨(List.append_nil _ ▸ hanswered :), h.tallied⟩
  | some response =>
    let s : Sighting := ⟨q, watch.registered, began, Bench.time clock (world u.world), response⟩
    obtain ⟨hmetrics, hmeter⟩ : response.metrics = some (s.metrics limit) ∧
        (world u.world).state.meter = Meter.recorded u.world.state.meter (s.entry limit) := by
      rw [hresponse] at hkeeps
      unfold MeasuredQuery.Keeps at hkeeps
      rw [h.tallied.observer] at hkeeps
      exact hkeeps
    have hsightings : sightings = watch.sightings ++ [s] := by
      show watch.sightings ++ _ = _
      rw [hresponse]
      rfl
    rw [hresponse] at hanswered
    rw [hsightings, hmeter, List.map_append]
    exact ⟨hanswered, h.tallied.sighting hmetrics
      (Builder.isNaN_elapsed (h.began hclock i) (hclock _))⟩

theorem step (hclock : ∀ t, (clock t).IsFinite) (h : Watched clock limit queries u watch) (i : Nat) :
    Watched clock limit queries (u.step i) (watch.step clock queries u i) := by
  unfold Underway.step Watch.step
  cases hq : queries[i]? with
  | none =>
    have ht : u.tasks[i]? = none :=
      List.getElem?_eq_none (h.length ▸ List.getElem?_eq_none_iff.mp hq)
    rw [ht]
    exact h
  | some q =>
    have hi : i < u.tasks.length := h.length ▸ (List.getElem?_eq_some_iff.mp hq).1
    obtain ⟨t, ht⟩ : ∃ t, u.tasks[i]? = some t := ⟨_, List.getElem?_eq_getElem hi⟩
    rw [ht]
    cases t with
    | finished result =>
      -- a step of a task that has ended changes nothing
      show Watched clock limit queries ⟨u.tasks.set i (.finished result), u.world⟩ watch
      rw [set_same ht]
      exact h
    | waiting next world =>
      obtain ⟨hanswered, htallied⟩ := h.advance hclock hq ht
      refine ⟨List.length_set.trans h.length, ?_, ?_, hanswered, htallied⟩
      · intro j q' t' hq' ht'
        by_cases hji : j = i
        · subst hji
          replace ht' : (u.tasks.set j (next u.world))[j]? = some t' := ht'
          rw [List.getElem?_set_self hi, Option.some_inj] at ht'
          dsimp only
          rw [Function.update_self, ← ht', ← Option.some_inj.mp (hq.symm.trans hq')]
          exact (h.task hq ht u.world h.tallied.threshold).2
        · replace ht' : (u.tasks.set i (next u.world))[j]? = some t' := ht'
          rw [List.getElem?_set_ne (Ne.symm hji)] at ht'
          dsimp only
          rw [Function.update_of_ne hji]
          exact h.task hq' ht'
      · intro j x hx
        dsimp only at hx
        by_cases hji : j = i
        · rw [hji, Function.update_self, Option.some_inj] at hx
          exact hx ▸ h.began hclock i
        · rw [Function.update_of_ne hji] at hx
          exact h.started hx

theorem outside (h : Watched clock limit queries u watch) (event : Interim T) :
    Watched clock limit queries (u.move Bench.perform (.outside event))
      (watch.move clock queries u (.outside event)) := by
  cases event with
  | register observer =>
    exact ⟨h.length, h.task, h.started, h.answered, h.tallied.observing observer⟩
  | meanwhile change => exact ⟨h.length, h.task, h.started, h.answered, h.tallied⟩

theorem run (hclock : ∀ t, (clock t).IsFinite) (h : Watched clock limit queries u watch)
    (moves : List (Move (Interim T))) :
    Watched clock limit queries (u.run Bench.perform moves) (watch.along clock queries u moves) := by
  induction moves generalizing u watch with
  | nil => exact h
  | cons m moves ih =>
    cases m with
    | step i => exact ih (h.step hclock i)
    | outside event => exact ih (h.outside event)

theorem start (b : Builder T) (clock : T → Binary64)
    (hresolved : ∀ q ∈ queries, q.request.Resolved) {threshold : Value}
    (hlimit : threshold.number? = some limit) (inner : Logged T) (log : List LogEntry) :
    Watched clock limit queries
      ⟨queries.map fun q => (q.builder clock b).task q.request q.maxLimit,
        ⟨⟨inner, ⟨{ threshold, registry := some {} }, []⟩⟩, log⟩⟩ {} where
  length := List.length_map _
  task {i q t} hq ht := by
    rw [List.getElem?_map, hq] at ht
    cases ht
    exact MeasuredQuery.task_measures (hresolved q (List.mem_of_getElem? hq)) b
  started hx := by cases hx
  answered := by
    rw [answered_untouched fun _ => rfl]
    exact .nil
  tallied :=
    { threshold := hlimit
      observer := rfl
      measured := fun hs => by cases hs
      timed := fun hs => by cases hs
      holds := ⟨rfl, rfl, rfl⟩ }

/-- a step that ends with no answer leaves the meter as it is -/
theorem unanswered (h : Watched clock limit queries u watch) {i : Nat}
    (hnone : ∀ response, (u.step i).tasks[i]? ≠ some (.finished (.ok response))) :
    (u.step i).world.state.meter = u.world.state.meter := by
  unfold Underway.step at hnone ⊢
  cases ht : u.tasks[i]? with
  | none => rfl
  | some t =>
    obtain ⟨hi, -⟩ := List.getElem?_eq_some_iff.mp ht
    obtain ⟨q, hq⟩ : ∃ q, queries[i]? = some q := ⟨_, List.getElem?_eq_getElem (h.length ▸ hi)⟩
    cases t with
    | finished result => rfl
    | waiting next world =>
      have hkeeps := (h.task hq ht u.world h.tallied.threshold).1
      have hresponse : (next u.world).response? = none := by
        rw [ht] at hnone
        replace hnone : ∀ response, (u.tasks.set i (next u.world))[i]?
          ≠ some (.finished (.ok response)) := hnone
        rw [List.getElem?_set_self hi] at hnone
        cases hnext : next u.world with
        | waiting next' world' => rfl
        | finished result =>
          cases result with
          | error f => rfl
          | ok response => exact absurd (congrArg some hnext) (hnone response)
      rw [hresponse] at hkeeps
      exact hkeeps

end Watched

namespace Bench

/-- Queries are measured by one meter with counts by model, each query in steps.  After any steps of
the queries, with other observers registered and any time passing in between: the queries that have
been answered are the sightings a watch sees from outside, and their answers say what was measured, with
the time between the first and the last step.  Under each label there are as many durations as answers,
and as many slow queries as sightings whose time exceeds the limit.  Over all labels these are as many as
the reports, all of which are warnings, and as the answers that say they were slow.  For every sighting,
the one who was the observer then was told of it once, with the request and what was measured; there
was no other event.  A step that ends with no answer leaves the meter as it is. -/
theorem measured_once (b : Builder T) {clock : T → Binary64} (hclock : ∀ t, (clock t).IsFinite)
    {queries : List MeasuredQuery} (hresolved : ∀ q ∈ queries, q.request.Resolved) {threshold : Value}
    {limit : Binary64} (hlimit : threshold.number? = some limit) (start : Logged T)
    (log : List LogEntry) (moves : List (Move (Interim T))) :
    let tasks := queries.map fun q => (q.builder clock b).task q.request q.maxLimit
    let first : Underway (Bench T) :=
      ⟨tasks, ⟨⟨start, ⟨{ threshold, registry := some {} }, []⟩⟩, log⟩⟩
    let after := first.run perform moves
    let meter := after.world.state.meter
    let sightings := (Watch.along clock queries first {} moves).sightings
    let answers := answered queries after.tasks
    (sightings.map fun s => (s.query, s.response)).Perm answers ∧
    (∀ s ∈ sightings, s.response.metrics = some (s.metrics limit)) ∧
    (∃ registry, meter.state.registry = some registry ∧
      (∀ label, (registry.durationsOf label).count
        = answers.countP fun a => Meter.labelOf a.1.request = label) ∧
      (∀ label, registry.slowOf label
        = sightings.countP fun s => s.elapsed.exceeds limit ∧ s.label = label) ∧
      registry.slowTotal = sightings.countP (·.elapsed.exceeds limit) ∧
      registry.slowTotal = meter.log.length ∧
      registry.slowTotal = answers.countP fun a => a.2.metrics.any (·.isSlow)) ∧
    (∀ report ∈ meter.log, report.source = "querypilot.metrics" ∧ report.severity = .warning) ∧
    (meter.state.events = sightings.flatMap fun s =>
      s.observer.toList.map fun observer => ⟨observer, s.query.request, s.metrics limit⟩) ∧
    ∀ i, (∀ response, (after.step i).tasks[i]? ≠ some (.finished (.ok response))) →
      (after.step i).world.state.meter = meter := by
  intro tasks first after meter sightings answers
  have hafter := (Watched.start b clock hresolved hlimit start log).run hclock moves
  have htallied : Tallied limit _ sightings meter := hafter.tallied
  have hanswers : (sightings.map fun s => (s.query, s.response)).Perm answers := hafter.answered
  have htotal : (Meter.tally (sightings.map (·.entry limit))).slowTotal
      = sightings.countP (·.elapsed.exceeds limit) :=
    (Meter.tally_slowTotal _).trans List.countP_map
  refine ⟨hanswers, fun s => htallied.measured, ⟨_, htallied.holds.registry, ?_, ?_, htotal, ?_, ?_⟩,
    fun report => htallied.holds.warns, ?_, fun i => hafter.unanswered⟩
  · intro label
    rw [← hanswers.countP_eq]
    exact htallied.durations_count label
  · intro label
    exact (Meter.tally_slowOf _ label).trans List.countP_map
  · rw [htallied.holds.log_length]
    exact Meter.tally_slowTotal _
  · rw [htotal, ← hanswers.countP_eq]
    exact htallied.flagged_count.symm
  · rw [htallied.holds.events, List.flatMap_map]
    rfl

/-- Four queries, of which the second has no model: the first takes three seconds, and there is no
observer when the third is answered. -/
theorem measured_once_four :
    let b : Builder (Store × Nat) := .base {} (.ofStore (·.1))
    let clock : Store × Nat → Binary64 := fun t => .finite false t.2 0
    let rows : List Value := [.record [("n", .int 1)], .record [("n", .int 2)]]
    let queries : List MeasuredQuery := [⟨{ model := some "m" }, .null, default⟩,
      ⟨{}, .null, default⟩, ⟨{ model := some "other" }, .null, default⟩,
      ⟨{ model := some "m", limit := some 1 }, .null, default⟩]
    let start : Logged (Store × Nat) := ⟨(⟨[(.str "m", rows), (.str "other", [])]⟩, 5), []⟩
    let moves : List (Move (Interim (Store × Nat))) := [.outside (.register (some "a")), .step 0,
      .step 1, .step 0, .step 3, .outside (.meanwhile fun t => (t.1, t.2 + 3)), .step 0,
      .outside (.register none), .step 2, .step 2, .step 2, .outside (.register (some "b")), .step 3]
    let tasks := queries.map fun q => (q.builder clock b).task q.request q.maxLimit
    let first : Underway (Bench (Store × Nat)) :=
      ⟨tasks, ⟨⟨start, ⟨{ threshold := Meter.defaultThreshold, registry := some {} }, []⟩⟩, []⟩⟩
    let after := first.run perform moves
    let meter := after.world.state.meter
    (∀ t, (clock t).IsFinite) ∧ (∀ q ∈ queries, q.request.Resolved) ∧
      Meter.defaultThreshold.number? = some (.ofRatio false 1000 1) ∧
      (answered queries after.tasks).map (·.1.request.model) = [some "m", some "other"] ∧
      (∃ registry, meter.state.registry = some registry ∧ (registry.durationsOf "m").count = 1 ∧
        (registry.durationsOf "other").count = 1 ∧ registry.slowOf "m" = 1 ∧
        registry.slowTotal = meter.log.length ∧ meter.log.length = 1) ∧
      meter.state.events.map (fun e => (e.observer, e.model, e.metrics.isSlow))
        = [("a", some "m", true)] ∧
      (after.step 3).world.state.meter.state.events.length = 2 := by
  intro b clock rows queries start moves tasks first after meter
  have hclock : ∀ t, (clock t).IsFinite := fun t => ⟨false, t.2, 0, rfl⟩
  have hresolved : ∀ q ∈ queries, q.request.Resolved := by
    intro q hq
    have hplain : q.request.filters = [] ∧ q.request.relationFilters = [] ∧
        q.request.orFilters = [] ∧ q.request.notFilters = [] := by
      simp only [queries, List.mem_cons, List.not_mem_nil, or_false] at hq
      rcases hq with rfl | rfl | rfl | rfl <;> exact ⟨rfl, rfl, rfl, rfl⟩
    obtain ⟨hfilters, hrelations, hgroups, hexcluded⟩ := hplain
    constructor
    · simp [hfilters]
    · simp [hrelations]
    · simp [hgroups]
    · simp [hexcluded]
  have hlimit : Meter.defaultThreshold.number? = some (.ofRatio false 1000 1) := rfl
  obtain ⟨-, -, ⟨registry, hregistry, hdurations, hslow, htotal, hlog, -⟩, -, hevents, -⟩ :=
    measured_once b hclock hresolved hlimit start [] moves
  dsimp only [meter, after, first, tasks]
  refine ⟨hclock, hresolved, hlimit, by decide +kernel, ⟨registry, hregistry, ?_, ?_, ?_, hlog, ?_⟩,
    ?_, by decide +kernel⟩
  · exact (hdurations "m").trans (by decide +kernel)
  · exact (hdurations "other").trans (by decide +kernel)
  · exact (hslow "m").trans (by decide +kernel)
  · exact hlog.symm.trans (htotal.trans (by decide +kernel))
  · exact (congrArg _ hevents).trans (by decide +kernel)

end Bench

end ListQuery
