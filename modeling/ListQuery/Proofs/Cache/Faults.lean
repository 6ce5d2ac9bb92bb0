import ListQuery.Proofs.Cache.ReadThrough
import ListQuery.Proofs.Layers.Part

/-!
# Stores that fail

A layer that keeps responses puts up with a store that fails at any of its calls: whatever the store
does, a query is answered by the builder inside, or with a response that the builder inside gave
before.  Here the builder and the store are any, and what the layer has to do with them is noted.

* `Contact`, `Rig`                the calls of the store and the builder inside, and where they are
                                  noted;
* `Frail`, `Errand`               the layer, and the calls of the layer;
* `Question`, `Course`            a query with its key, and what is noted of one that was asked;
* `lookup_watched`, `keep_watched`, `query_watched`
                                  the parts of a query;
* `Frail.question_cases`          one query;
* `Honest`                        a store that has no response but those it was given;
* `Frail.unaffected`              any call of a run.
-/

namespace ListQuery

variable {T U : Type}

/-! ## the layer -/

inductive Contact where
  | read (key : String) (found : Outcome (Option PagedResponse))
  | asked (r : Request) (maxLimit : Value)
  | wrote (key : String) (response : PagedResponse) (result : Outcome Unit)
  | removed (key : String) (result : Outcome Unit)

structure Rig (T U : Type) where
  inner : T
  kept : U
  contacts : List Contact := []

namespace Rig

def ofInner : Port T (Rig T U) :=
  .part (·.inner) (fun inner s => { s with inner }) (fun _ _ => rfl) (fun _ _ _ => rfl) fun _ => rfl

def ofKept : Port U (Rig T U) :=
  .part (·.kept) (fun kept s => { s with kept }) (fun _ _ => rfl) (fun _ _ _ => rfl) fun _ => rfl

def note (c : Contact) : Action (Rig T U) Unit :=
  Action.update fun s => { s with contacts := s.contacts ++ [c] }

def watch {α : Type} (a : Action U α) (contact : Outcome α → Contact) : Action (Rig T U) α := do
  let result ← Action.attempt (ofKept.lift a)
  note (contact result)
  Action.ofOutcome result

def watched (store : ResponseStore U) : ResponseStore (Rig T U) where
  get key := watch (store.get key) (.read key)
  set key response ttl := watch (store.set key response ttl) (.wrote key response)
  delete key := watch (store.delete key) (.removed key)

end Rig

def Builder.watched (b : Builder T) : Builder (Rig T U) :=
  { b.through Rig.ofInner with
    prepare := fun r maxLimit => do
      Rig.note (.asked r maxLimit)
      (b.through Rig.ofInner).prepare r maxLimit }

/-- the builder inside, the store, how many seconds a response is kept unless told otherwise, and the
keys of the requests, if any -/
structure Frail (T U : Type) where
  inner : Builder T
  store : ResponseStore U
  lifetime : Int
  keyOf : Option (Request → String)

inductive Errand (T : Type) where
  | query (r : Request) (maxLimit : Value)
  | cachedQuery (q : KeyedQuery)
  | invalidate (key : String)
  | meanwhile (change : T → T)

structure Question where
  request : Request
  maxLimit : Value
  key : Option String

namespace Errand

def question? (keyOf : Option (Request → String)) : Errand T → Option Question
  | .query r maxLimit => some ⟨r, maxLimit, keyOf.bind fun key => Builder.usableKey (key r)⟩
  | .cachedQuery q => some ⟨q.request, q.maxLimit, q.usable⟩
  | .invalidate _ => none
  | .meanwhile _ => none

end Errand

namespace Frail

variable (L : Frail T U)

def perform : Errand T → Action (Rig T U) (Option PagedResponse)
  | .query r maxLimit =>
    some <$> (L.inner.watched.cached (Rig.watched L.store) (.int L.lifetime)
      (L.keyOf.map fun key r => .ok (key r))).query r maxLimit
  | .cachedQuery q =>
    some <$> L.inner.watched.cachedQuery (Rig.watched L.store) (.int L.lifetime) q.request q.key
      (.ofInt? q.ttl) q.enabled q.maxLimit
  | .invalidate key => do
    (Rig.watched L.store).invalidate key
    return none
  | .meanwhile change => do
    Action.update fun s => { s with inner := change s.inner }
    return none

def ask (q : Question) (s : Rig T U) (log : List LogEntry) : Outcome PagedResponse × Logged T :=
  (L.inner.query q.request q.maxLimit).runOn ⟨s.inner, log⟩

/-- a query under its key -/
def answer (q : Question) (ttl : Value) : Action (Rig T U) PagedResponse :=
  L.inner.watched.prepareCached (Rig.watched L.store) q.key ttl q.request q.maxLimit
    >>= Prepared.complete

theorem perform_question {e : Errand T} {q : Question} (h : e.question? L.keyOf = some q) :
    ∃ ttl, L.perform e = some <$> L.answer q ttl := by
  cases e with
  | query r maxLimit =>
    cases h
    refine ⟨.int L.lifetime, congrArg (some <$> ·) ?_⟩
    cases hkey : L.keyOf with
    | none => rfl
    | some key => rfl
  | cachedQuery q =>
    cases h
    exact ⟨_, rfl⟩
  | invalidate key => cases h
  | meanwhile change => cases h

end Frail

/-! ## the parts of a query -/

namespace Rig

variable (s : Rig T U) (log : List LogEntry)

def response? : Outcome (Option PagedResponse) → Option PagedResponse
  | .ok found => found
  | .error _ => none

theorem response?_eq_some {found : Outcome (Option PagedResponse)} {response : PagedResponse} :
    response? found = some response ↔ found = .ok (some response) := by
  cases found with
  | error f => simp [response?]
  | ok found => simp [response?]

def reading (store : ResponseStore U) (key : String) (s : Rig T U) (log : List LogEntry) : Rig T U :=
  let got := (store.get key).runOn ⟨s.kept, log⟩
  { s with kept := got.2.state, contacts := s.contacts ++ [.read key got.1] }

theorem lookup_watched (store : ResponseStore U) (key : String) :
    let got := (store.get key).runOn ⟨s.kept, log⟩
    ∃ log', ((watched store).lookup key).runOn ⟨s, log⟩
      = (.ok (response? got.1), ⟨reading store key s log, log'⟩) := by
  intro got
  have hget : ((watched store).get key).runOn ⟨s, log⟩
      = (got.1, ⟨reading store key s log, got.2.log⟩) := rfl
  unfold ResponseStore.lookup
  rw [Action.runOn_bind, Action.runOn_attempt, hget]
  cases got.1 with
  | error f => exact ⟨_, rfl⟩
  | ok found => cases found <;> exact ⟨_, rfl⟩

theorem keep_watched (store : ResponseStore U) (key : String) (ttl : Value) (response : PagedResponse) :
    let put := (store.set key response ttl).runOn ⟨s.kept, log⟩
    ∃ log', ((watched store).keep key ttl response).runOn ⟨s, log⟩ = (.ok response,
      ⟨{ s with kept := put.2.state, contacts := s.contacts ++ [.wrote key response put.1] },
        log'⟩) := by
  intro put
  have hset : ((watched store).set key response ttl).runOn ⟨s, log⟩ = (put.1,
      ⟨{ s with kept := put.2.state, contacts := s.contacts ++ [.wrote key response put.1] },
        put.2.log⟩) := rfl
  unfold ResponseStore.keep
  rw [Action.runOn_bind, Action.runOn_attempt, hset]
  cases put.1 <;> exact ⟨_, rfl⟩

theorem invalidate_watched (store : ResponseStore U) (key : String) :
    let removed := (store.delete key).runOn ⟨s.kept, log⟩
    ∃ log', ((watched store).invalidate key).runOn ⟨s, log⟩ = (.ok (),
      ⟨{ s with kept := removed.2.state, contacts := s.contacts ++ [.removed key removed.1] },
        log'⟩) := by
  intro removed
  have hdelete : ((watched store).delete key).runOn ⟨s, log⟩ = (removed.1,
      ⟨{ s with kept := removed.2.state, contacts := s.contacts ++ [.removed key removed.1] },
        removed.2.log⟩) := rfl
  unfold ResponseStore.invalidate
  rw [Action.runOn_bind, Action.runOn_attempt, hdelete]
  cases removed.1 <;> exact ⟨_, rfl⟩

theorem query_watched (b : Builder T) (r : Request) (maxLimit : Value) :
    let own := (b.query r maxLimit).runOn ⟨s.inner, log⟩
    (b.watched.query r maxLimit).runOn ⟨s, log⟩ = (own.1,
      ⟨{ s with inner := own.2.state, contacts := s.contacts ++ [.asked r maxLimit] },
        own.2.log⟩) := by
  show ((note (.asked r maxLimit) >>= fun _ => (b.through ofInner).prepare r maxLimit)
    >>= Prepared.complete).runOn ⟨s, log⟩ = _
  rw [bind_assoc]
  show ((b.through ofInner).query r maxLimit).runOn
    ⟨{ s with contacts := s.contacts ++ [.asked r maxLimit] }, log⟩ = _
  rw [Builder.query_through]
  rfl

end Rig

/-! ## one query -/

/-- what is noted of a query that was put to the builder inside: once, after a read that came to no
response if there is a key, and before one write if there is an answer to write -/
inductive Course (q : Question) : Outcome PagedResponse → List Contact → Prop
  | unkeyed (outcome : Outcome PagedResponse) (hkey : q.key = none) :
    Course q outcome [.asked q.request q.maxLimit]
  | failed {key : String} {found : Outcome (Option PagedResponse)} (f : Fault)
    (hkey : q.key = some key) (hfound : Rig.response? found = none) :
    Course q (.error f) [.read key found, .asked q.request q.maxLimit]
  | kept {key : String} {found : Outcome (Option PagedResponse)} (response : PagedResponse)
    (result : Outcome Unit) (hkey : q.key = some key) (hfound : Rig.response? found = none) :
    Course q (.ok response)
      [.read key found, .asked q.request q.maxLimit, .wrote key response result]

namespace Frail

variable (L : Frail T U)

/-- the answer to a query is what the builder inside makes of it -/
def Asks (q : Question) (before : Rig T U) (outcome : Outcome PagedResponse) (after : Rig T U) : Prop :=
  ∃ log made, outcome = (L.ask q before log).1 ∧ after.inner = (L.ask q before log).2.state ∧
    after.contacts = before.contacts ++ made ∧ Course q outcome made

/-- the answer to a query is what was found under its key, and nothing else is done -/
def Recalls (q : Question) (key : String) (response : PagedResponse) (before : Rig T U)
    (outcome : Outcome PagedResponse) (after : Rig T U) : Prop :=
  q.key = some key ∧ outcome = .ok response ∧ after.inner = before.inner ∧
    after.contacts = before.contacts ++ [.read key (.ok (some response))]

variable {L} {q : Question} (ttl : Value) {key : String} {s : Rig T U} {log : List LogEntry}

theorem answer_unkeyed (hkey : q.key = none) :
    (L.answer q ttl).runOn ⟨s, log⟩ = ((L.ask q s log).1,
      ⟨{ s with inner := (L.ask q s log).2.state,
                contacts := s.contacts ++ [.asked q.request q.maxLimit] },
        (L.ask q s log).2.log⟩) := by
  unfold answer
  rw [hkey]
  exact Rig.query_watched s log L.inner q.request q.maxLimit

theorem answer_found {response : PagedResponse} (hkey : q.key = some key)
    (hfound : ((L.store.get key).runOn ⟨s.kept, log⟩).1 = .ok (some response)) :
    ∃ log', (L.answer q ttl).runOn ⟨s, log⟩
      = (.ok response, ⟨Rig.reading L.store key s log, log'⟩) := by
  obtain ⟨log', hlookup⟩ := Rig.lookup_watched s log L.store key
  rw [Rig.response?_eq_some.mpr hfound] at hlookup
  refine ⟨log', ?_⟩
  unfold answer Builder.prepareCached
  rw [hkey, bind_assoc, Action.runOn_bind, hlookup]
  rfl

theorem answer_missed (hkey : q.key = some key)
    (hfound : Rig.response? ((L.store.get key).runOn ⟨s.kept, log⟩).1 = none) :
    ∃ log', (L.answer q ttl).runOn ⟨s, log⟩
      = (L.inner.watched.query q.request q.maxLimit >>= (Rig.watched L.store).keep key ttl).runOn
        ⟨Rig.reading L.store key s log, log'⟩ := by
  obtain ⟨log', hlookup⟩ := Rig.lookup_watched s log L.store key
  rw [hfound] at hlookup
  refine ⟨log' ++ [⟨ResponseStore.source, .debug, "Cache miss for key " ++ key⟩], ?_⟩
  rw [← Builder.prepare_andThen]
  unfold answer Builder.prepareCached
  rw [hkey, bind_assoc, Action.runOn_bind, hlookup]
  rfl

theorem question_cases (L : Frail T U) (q : Question) (ttl : Value) (w : Logged (Rig T U)) :
    let done := (L.answer q ttl).runOn w
    L.Asks q w.state done.1 done.2.state ∨
      ∃ key response, Recalls q key response w.state done.1 done.2.state := by
  intro done
  obtain ⟨s, log⟩ := w
  cases hkey : q.key with
  | none =>
    rw [show done = _ from answer_unkeyed ttl hkey]
    exact .inl ⟨log, _, rfl, rfl, rfl, .unkeyed _ hkey⟩
  | some key =>
    cases hfound : Rig.response? ((L.store.get key).runOn ⟨s.kept, log⟩).1 with
    | some response =>
      have hgot := Rig.response?_eq_some.mp hfound
      obtain ⟨log', hrun⟩ := answer_found ttl hkey hgot
      rw [show done = _ from hrun]
      refine .inr ⟨key, response, hkey, rfl, rfl, ?_⟩
      show s.contacts ++ [.read key _] = _
      rw [hgot]
    | none =>
      obtain ⟨log', hrun⟩ := answer_missed ttl hkey hfound
      let read := Rig.reading L.store key s log
      let own := L.ask q s log'
      have hown : (L.inner.watched.query q.request q.maxLimit).runOn ⟨read, log'⟩ = (own.1,
          ⟨{ read with inner := own.2.state,
                       contacts := read.contacts ++ [.asked q.request q.maxLimit] }, own.2.log⟩) :=
        Rig.query_watched read log' L.inner q.request q.maxLimit
      rw [Action.runOn_bind, hown] at hrun
      cases houtcome : own.1 with
      | error f =>
        rw [houtcome] at hrun
        rw [show done = _ from hrun]
        refine .inl ⟨log', _, houtcome.symm, rfl, ?_, .failed f hkey hfound⟩
        exact List.append_assoc ..
      | ok response =>
        rw [houtcome] at hrun
        obtain ⟨log'', hkeep⟩ := Rig.keep_watched { read with
          inner := own.2.state, contacts := read.contacts ++ [.asked q.request q.maxLimit] }
          own.2.log L.store key ttl response
        let put := (L.store.set key response ttl).runOn ⟨read.kept, own.2.log⟩
        rw [show done = _ from hrun.trans hkeep]
        refine .inl ⟨log', _, houtcome.symm, rfl, ?_, .kept response put.1 hkey hfound⟩
        show s.contacts ++ [_] ++ [_] ++ [_] = s.contacts ++ [_, _, _]
        rw [List.append_assoc, List.append_assoc]
        rfl

/-! ## one call -/

theorem perform_invalidate (L : Frail T U) (key : String) (w : Logged (Rig T U)) :
    let done := (L.perform (.invalidate key)).runOn w
    done.1 = .ok none ∧ done.2.state.inner = w.state.inner ∧
      ∃ result, done.2.state.contacts = w.state.contacts ++ [.removed key result] := by
  intro done
  obtain ⟨log, hrun⟩ := Rig.invalidate_watched w.state w.log L.store key
  have hdone : done = _ := Action.runOn_bind ((Rig.watched L.store).invalidate key) _ w
  rw [hrun] at hdone
  rw [hdone]
  exact ⟨rfl, rfl, _, rfl⟩

theorem perform_cases {L : Frail T U} {e : Errand T} {q : Question}
    (h : e.question? L.keyOf = some q) (w : Logged (Rig T U)) :
    let done := (L.perform e).runOn w
    ∃ outcome, done.1 = some <$> outcome ∧
      (L.Asks q w.state outcome done.2.state ∨
        ∃ key response, Recalls q key response w.state outcome done.2.state) := by
  intro done
  obtain ⟨ttl, hperform⟩ := perform_question L h
  have hdone : done = (some <$> ((L.answer q ttl).runOn w).1, ((L.answer q ttl).runOn w).2) := by
    show (L.perform e).runOn w = _
    rw [hperform, map_eq_pure_bind, Action.runOn_bind]
    rcases (L.answer q ttl).runOn w with ⟨x | x, after⟩ <;> rfl
  rw [hdone]
  exact ⟨_, rfl, question_cases L q ttl w⟩

/-! ## a run -/

structure Record (T U : Type) where
  errand : Errand T
  before : Rig T U
  answer : Outcome (Option PagedResponse)
  after : Rig T U

def record (L : Frail T U) (w : Logged (Rig T U)) (e : Errand T) : Record T U :=
  let done := (L.perform e).runOn w
  ⟨e, w.state, done.1, done.2.state⟩

def records (L : Frail T U) : Logged (Rig T U) → List (Errand T) → List (Record T U)
  | _, [] => []
  | w, e :: errands => L.record w e :: L.records ((L.perform e).runOn w).2 errands

def contacts (L : Frail T U) (w : Logged (Rig T U)) (errands : List (Errand T)) : List Contact :=
  (errands.foldl (fun w e => ((L.perform e).runOn w).2) w).state.contacts

/-- the answer to a call under a key is a response of the builder inside -/
def Answered (L : Frail T U) (key : String) (response : PagedResponse) (rec : Record T U) : Prop :=
  ∃ q, rec.errand.question? L.keyOf = some q ∧ q.key = some key ∧ rec.answer = .ok (some response) ∧
    L.Asks q rec.before (.ok response) rec.after

/-- A call after others.  An invalidation succeeds; a query comes to what the builder inside makes of
it, or to a response of the builder inside to an earlier call under the same key. -/
structure Sound (L : Frail T U) (past : List (Record T U)) (rec : Record T U) : Prop where
  invalidate {key : String} (h : rec.errand = .invalidate key) :
    rec.answer = .ok none ∧ rec.after.inner = rec.before.inner ∧
      ∃ result, rec.after.contacts = rec.before.contacts ++ [.removed key result]
  query {q : Question} (h : rec.errand.question? L.keyOf = some q) :
    ∃ outcome, rec.answer = some <$> outcome ∧
      (L.Asks q rec.before outcome rec.after ∨
        ∃ key response, Recalls q key response rec.before outcome rec.after ∧
          ∃ prior ∈ past, L.Answered key response prior)

/-- a call only adds to what is noted, and what it writes is its answer -/
theorem record_writes (L : Frail T U) (w : Logged (Rig T U)) (e : Errand T) :
    ∃ made, (L.record w e).after.contacts = w.state.contacts ++ made ∧
      ∀ key response result, .wrote key response result ∈ made →
        L.Answered key response (L.record w e) := by
  cases hq : e.question? L.keyOf with
  | none =>
    cases e with
    | query r maxLimit => cases hq
    | cachedQuery q => cases hq
    | invalidate key =>
      obtain ⟨-, -, result, hcontacts⟩ := perform_invalidate L key w
      exact ⟨_, hcontacts, fun _ _ _ h => by simp at h⟩
    | meanwhile change => exact ⟨[], (List.append_nil _).symm, fun _ _ _ h => by cases h⟩
  | some q =>
    obtain ⟨outcome, hanswer, hasks | ⟨key, response, -, -, -, hcontacts⟩⟩ := perform_cases hq w
    · obtain ⟨log, made, hown, hinner, hcontacts, hcourse⟩ := hasks
      refine ⟨made, hcontacts, fun key response result h => ?_⟩
      cases hcourse with
      | unkeyed outcome hkey => simp at h
      | failed f hkey hfound => simp at h
      | kept response' result' hkey hfound =>
        obtain ⟨rfl, rfl, rfl⟩ : key = _ ∧ response = response' ∧ result = result' := by
          simpa using h
        exact ⟨q, hq, hkey, hanswer, log, _, hown, hinner, hcontacts, .kept response result hkey hfound⟩
    · exact ⟨_, hcontacts, fun _ _ _ h => by simp at h⟩

theorem contacts_grow (L : Frail T U) (w : Logged (Rig T U)) (errands : List (Errand T)) :
    ∃ more, L.contacts w errands = w.state.contacts ++ more := by
  induction errands generalizing w with
  | nil => exact ⟨[], (List.append_nil _).symm⟩
  | cons e errands ih =>
    obtain ⟨made, hmade, -⟩ := record_writes L w e
    obtain ⟨more, hmore⟩ := ih ((L.perform e).runOn w).2
    refine ⟨made ++ more, hmore.trans ?_⟩
    rw [← List.append_assoc, ← hmade]
    rfl

end Frail

/-- a store that finds nothing under a key but responses which it was to keep under it, whether it
did or failed -/
def Honest (contacts : List Contact) : Prop :=
  ∀ earlier key response later, contacts = earlier ++ .read key (.ok (some response)) :: later →
    ∃ result, .wrote key response result ∈ earlier

namespace Frail

variable {L : Frail T U}

theorem sound_run (past : List (Record T U)) {w : Logged (Rig T U)} {errands : List (Errand T)}
    (hpast : ∀ key response result, .wrote key response result ∈ w.state.contacts →
      ∃ prior ∈ past, L.Answered key response prior)
    (hhonest : Honest (L.contacts w errands)) {earlier later : List (Record T U)} {rec : Record T U}
    (h : L.records w errands = earlier ++ rec :: later) : L.Sound (past ++ earlier) rec := by
  induction errands generalizing w past earlier with
  | nil => simp [records] at h
  | cons e errands ih =>
    cases earlier with
    | nil =>
      obtain ⟨rfl, -⟩ := List.cons.inj h
      rw [List.append_nil]
      refine ⟨fun {key} he => ?_, fun {q} hq => ?_⟩
      · cases he
        exact perform_invalidate L key w
      · obtain ⟨outcome, hanswer, hasks | ⟨key, response, hrecalls⟩⟩ := perform_cases hq w
        · exact ⟨outcome, hanswer, .inl hasks⟩
        · obtain ⟨more, hmore⟩ := contacts_grow L ((L.perform e).runOn w).2 errands
          have hcontacts := hmore.trans (congrArg (· ++ more) hrecalls.2.2.2)
          rw [List.append_assoc] at hcontacts
          obtain ⟨result, hwrote⟩ := hhonest _ key response more hcontacts
          exact ⟨outcome, hanswer, .inr ⟨key, response, hrecalls, hpast key response result hwrote⟩⟩
    | cons first earlier =>
      obtain ⟨rfl, hrest⟩ := List.cons.inj h
      have hsound : L.Sound (past ++ [L.record w e] ++ earlier) rec := ih _ ?_ hhonest hrest
      · rwa [List.append_assoc] at hsound
      intro key response result hwrote
      obtain ⟨made, hmade, hanswered⟩ := record_writes L w e
      rw [show ((L.perform e).runOn w).2.state.contacts = _ from hmade, List.mem_append] at hwrote
      rcases hwrote with hbefore | hhere
      · obtain ⟨prior, hprior, hanswer⟩ := hpast key response result hbefore
        exact ⟨prior, List.mem_append_left _ hprior, hanswer⟩
      · exact ⟨_, by simp, hanswered key response result hhere⟩

/-- Take any run of calls over a store that does what it likes at each of its calls, failures
included, as long as it finds no response under a key but those it was to keep under it.  Every query
comes to what the builder inside makes of it, faults included, or to a response that the builder inside
gave to an earlier call under the same key; and an invalidation succeeds.  The builder inside is asked
once unless a response was found, so after a read that failed it is; and there is a write, one, exactly
if it was asked under a key and did not fail. -/
theorem unaffected (L : Frail T U) (inner : T) (kept : U) (log : List LogEntry)
    (errands : List (Errand T)) (hhonest : Honest (L.contacts ⟨⟨inner, kept, []⟩, log⟩ errands))
    {earlier later : List (Record T U)} {rec : Record T U}
    (h : L.records ⟨⟨inner, kept, []⟩, log⟩ errands = earlier ++ rec :: later) :
    L.Sound earlier rec :=
  sound_run [] (fun _ _ _ hwrote => by cases hwrote) hhonest h

/-- over a store that works at its third call alone: a query whose read and write fail, one that is
answered with the response of the first, an invalidation that fails, and a query that fails itself -/
theorem unaffected_flaky :
    let flaky : ResponseStore (Nat × List (String × PagedResponse)) :=
      { get := fun key => do
          let (calls, kept) ← Action.read
          Action.update fun s => (s.1 + 1, s.2)
          if calls = 2 then return (kept.find? (·.1 = key)).map (·.2)
          else throw (.connection "get down")
        set := fun key response _ => do
          Action.update fun s => (s.1 + 1, (key, response) :: s.2)
          throw (.connection "set down")
        delete := fun _ => do
          Action.update fun s => (s.1 + 1, s.2)
          throw (.connection "delete down") }
    let clock : Builder Nat := { Keeper.timekeeper.inner with
      prepare := fun r maxLimit =>
        if r.page = none then Keeper.timekeeper.inner.prepare r maxLimit else throw .notImplemented }
    let L : Frail Nat (Nat × List (String × PagedResponse)) := ⟨clock, flaky, 60, some fun _ => "time"⟩
    let start : Logged (Rig Nat (Nat × List (String × PagedResponse))) := ⟨⟨0, (0, []), []⟩, []⟩
    let errands : List (Errand Nat) := [.query {} .null, .meanwhile (· + 5), .query {} .null,
      .invalidate "time", .query { page := some 2 } .null]
    Honest (L.contacts start errands) ∧
      ∃ first changed again removed failed, L.records start errands
          = [first, changed] ++ again :: [removed, failed] ∧
        L.Sound [first, changed] again ∧ again.answer = first.answer ∧
        removed.answer = .ok none ∧ failed.answer = .error .notImplemented := by
  intro flaky clock L start errands
  have hhonest : Honest (L.contacts start errands) := by
    intro earlier key response later h
    have hcontacts : L.contacts start errands
        = [.read "time" (.error (.connection "get down")), .asked {} .null,
          .wrote "time" { data := [.int 0], counts := ⟨1, 1, 1, 1⟩ } (.error (.connection "set down")),
          .read "time" (.ok (some { data := [.int 0], counts := ⟨1, 1, 1, 1⟩ })),
          .removed "time" (.error (.connection "delete down")),
          .read "time" (.error (.connection "get down")), .asked { page := some 2 } .null] := rfl
    rw [hcontacts] at h
    -- the only read that finds a response is the fourth contact
    rcases earlier with _ | ⟨_, _ | ⟨_, _ | ⟨_, _ | ⟨_, _ | ⟨_, _ | ⟨_, _ | ⟨_, _⟩⟩⟩⟩⟩⟩⟩
    all_goals simp at h
    obtain ⟨rfl, rfl, rfl, ⟨rfl, rfl⟩, -⟩ := h
    exact ⟨.error (.connection "set down"), by simp⟩
  refine ⟨hhonest, _, _, _, _, _, rfl, ?_, rfl, rfl, rfl⟩
  exact unaffected L 0 (0, []) [] errands hhonest rfl

end Frail

end ListQuery
