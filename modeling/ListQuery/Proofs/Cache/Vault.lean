import ListQuery.Proofs.Cache.Faults

/-!
# Layers that answer with nothing late

A layer keeps responses in a store that is a part of the state of the builder inside, and what is put
into the store is noted with the time.  Over a store that finds nothing but what was put into it, and
none of it late, no answer of the layer is late.

* `Deposit`, `Booked`    what was put into a store, and a state with what was put into it so far;
* `Vault`                the layer;
* `Vault.Prompt`         a store that finds nothing late;
* `Vault.Fresh`          an answer that is not late;
* `Vault.answer_fresh`   one query;
* `Vault.fresh_run`      any query after any run.
-/

namespace ListQuery

/-! ## the layer -/

structure Deposit (τ : Type) where
  key : String
  response : PagedResponse
  since : τ
  ttl : Value

structure Booked (S τ : Type) where
  state : S
  deposits : List (Deposit τ) := []

/-- a layer that keeps responses: the builder inside, the store, the time, how many seconds a response
is kept unless told otherwise, and the keys of the requests, if any -/
structure Vault (S τ : Type) where
  inner : Builder S
  store : ResponseStore S
  now : S → τ
  lifetime : Int
  keyOf : Option (Request → String)

variable {S τ : Type}

namespace Booked

def ofState : Port S (Booked S τ) :=
  .part (·.state) (fun state b => { b with state }) (fun _ _ => rfl) (fun _ _ _ => rfl) fun _ => rfl

end Booked

namespace Vault

variable (L : Vault S τ)

def booked : ResponseStore (Booked S τ) where
  get key := Booked.ofState.lift (L.store.get key)
  set key response ttl := do
    Action.update fun b => { b with deposits := b.deposits ++ [⟨key, response, L.now b.state, ttl⟩] }
    Booked.ofState.lift (L.store.set key response ttl)
  delete key := Booked.ofState.lift (L.store.delete key)

def perform : Errand S → Action (Booked S τ) (Option PagedResponse)
  | .query r maxLimit =>
    some <$> ((L.inner.through Booked.ofState).cached L.booked (.int L.lifetime)
      (L.keyOf.map fun key r => .ok (key r))).query r maxLimit
  | .cachedQuery q =>
    some <$> (L.inner.through Booked.ofState).cachedQuery L.booked (.int L.lifetime) q.request q.key
      (.ofInt? q.ttl) q.enabled q.maxLimit
  | .invalidate key => do
    L.booked.invalidate key
    return none
  | .meanwhile change => do
    Action.update fun b => { b with state := change b.state }
    return none

def answer (q : Question) (seconds : Int) : Action (Booked S τ) PagedResponse :=
  (L.inner.through Booked.ofState).prepareCached L.booked q.key (.int seconds) q.request q.maxLimit
    >>= Prepared.complete

theorem perform_question {e : Errand S} {q : Question} (h : e.question? L.keyOf = some q)
    (w : Logged (Booked S τ)) :
    ∃ seconds, (L.perform e).runOn w
      = (some <$> ((L.answer q seconds).runOn w).1, ((L.answer q seconds).runOn w).2) := by
  have hsome {a : Action (Booked S τ) PagedResponse} :
      (some <$> a).runOn w = (some <$> (a.runOn w).1, (a.runOn w).2) := by
    rw [map_eq_pure_bind, Action.runOn_bind]
    rcases a.runOn w with ⟨x | x, after⟩ <;> rfl
  suffices hperform : ∃ seconds, L.perform e = some <$> L.answer q seconds by
    obtain ⟨seconds, hperform⟩ := hperform
    exact ⟨seconds, hperform ▸ hsome⟩
  cases e with
  | query r maxLimit =>
    cases h
    refine ⟨L.lifetime, congrArg (some <$> ·) ?_⟩
    cases hkey : L.keyOf with
    | none => rfl
    | some key => rfl
  | cachedQuery q =>
    cases h
    refine ⟨q.ttl.getD L.lifetime, congrArg (some <$> ·) ?_⟩
    have hseconds : (if (Value.ofInt? q.ttl).isNull then .int L.lifetime else .ofInt? q.ttl)
        = Value.int (q.ttl.getD L.lifetime) := by
      cases q.ttl <;> rfl
    unfold Builder.cachedQuery
    rw [hseconds]
    rfl
  | invalidate key => cases h
  | meanwhile change => cases h

/-! ## one call -/

/-- A store that has nothing but what was put into it, and finds none of it late.  Of a deposit it
`shows` some responses; `holds` says that what a state has is from some deposits, and `passes` what
may happen to a state without the store. -/
structure Prompt (passes : S → S → Prop) (late : τ → Deposit τ → Prop)
    (shows : PagedResponse → PagedResponse → Prop) (holds : List (Deposit τ) → S → Prop) : Prop where
  pass {deposits : List (Deposit τ)} {s s' : S} (h : holds deposits s) (hpass : passes s s') :
    holds deposits s'
  get {deposits : List (Deposit τ)} (key : String) (w : Logged S) (h : holds deposits w.state) :
    let got := (L.store.get key).runOn w
    holds deposits got.2.state ∧ L.now got.2.state = L.now w.state ∧
      ∀ response, got.1 = .ok (some response) →
        ∃ d ∈ deposits, d.key = key ∧ shows d.response response ∧ ¬ late (L.now w.state) d
  set {deposits : List (Deposit τ)} (key : String) (response : PagedResponse) (seconds : Int)
    (w : Logged S) (h : holds deposits w.state) :
    holds (deposits ++ [⟨key, response, L.now w.state, .int seconds⟩])
      ((L.store.set key response (.int seconds)).runOn w).2.state
  delete {deposits : List (Deposit τ)} (key : String) (w : Logged S) (h : holds deposits w.state) :
    holds deposits ((L.store.delete key).runOn w).2.state

/-- The answer to a query is a response that was put into the store under the key of the query and is
not late, or what the builder inside gives when it is asked at that time. -/
def Fresh (late : τ → Deposit τ → Prop) (shows : PagedResponse → PagedResponse → Prop) (q : Question)
    (b : Booked S τ) (answer : Outcome (Option PagedResponse)) : Prop :=
  (∃ d ∈ b.deposits, ∃ response, q.key = some d.key ∧ shows d.response response ∧
    ¬ late (L.now b.state) d ∧ answer = .ok (some response)) ∨
  ∃ w, L.now w.state = L.now b.state ∧
    answer = some <$> ((L.inner.query q.request q.maxLimit).runOn w).1

variable {L} {passes : S → S → Prop} {late : τ → Deposit τ → Prop}
  {shows : PagedResponse → PagedResponse → Prop} {holds : List (Deposit τ) → S → Prop}

theorem lookup_booked (key : String) (b : Booked S τ) (log : List LogEntry) :
    let got := (L.store.get key).runOn ⟨b.state, log⟩
    ∃ log', (L.booked.lookup key).runOn ⟨b, log⟩
      = (.ok (Rig.response? got.1), ⟨{ b with state := got.2.state }, log'⟩) := by
  intro got
  have hget : (L.booked.get key).runOn ⟨b, log⟩
      = (got.1, ⟨{ b with state := got.2.state }, got.2.log⟩) := rfl
  unfold ResponseStore.lookup
  rw [Action.runOn_bind, Action.runOn_attempt, hget]
  cases got.1 with
  | error f => exact ⟨_, rfl⟩
  | ok found => cases found <;> exact ⟨_, rfl⟩

theorem keep_booked (key : String) (ttl : Value) (response : PagedResponse) (b : Booked S τ)
    (log : List LogEntry) :
    let put := (L.store.set key response ttl).runOn ⟨b.state, log⟩
    ∃ log', (L.booked.keep key ttl response).runOn ⟨b, log⟩ = (.ok response,
      ⟨⟨put.2.state, b.deposits ++ [⟨key, response, L.now b.state, ttl⟩]⟩, log'⟩) := by
  intro put
  have hset : (L.booked.set key response ttl).runOn ⟨b, log⟩ = (put.1,
      ⟨⟨put.2.state, b.deposits ++ [⟨key, response, L.now b.state, ttl⟩]⟩, put.2.log⟩) := rfl
  unfold ResponseStore.keep
  rw [Action.runOn_bind, Action.runOn_attempt, hset]
  cases put.1 <;> exact ⟨_, rfl⟩

theorem invalidate_booked (key : String) (b : Booked S τ) (log : List LogEntry) :
    let removed := (L.store.delete key).runOn ⟨b.state, log⟩
    ∃ log', (L.booked.invalidate key).runOn ⟨b, log⟩
      = (.ok (), ⟨{ b with state := removed.2.state }, log'⟩) := by
  intro removed
  have hdelete : (L.booked.delete key).runOn ⟨b, log⟩
      = (removed.1, ⟨{ b with state := removed.2.state }, removed.2.log⟩) := rfl
  unfold ResponseStore.invalidate
  rw [Action.runOn_bind, Action.runOn_attempt, hdelete]
  cases removed.1 <;> exact ⟨_, rfl⟩

theorem query_booked (r : Request) (maxLimit : Value) (b : Booked S τ) (log : List LogEntry) :
    let own := (L.inner.query r maxLimit).runOn ⟨b.state, log⟩
    ((L.inner.through Booked.ofState).query r maxLimit).runOn ⟨b, log⟩
      = (own.1, ⟨{ b with state := own.2.state }, own.2.log⟩) := by
  rw [Builder.query_through]
  rfl

theorem answer_unkeyed {q : Question} (hkey : q.key = none) (seconds : Int) (b : Booked S τ)
    (log : List LogEntry) :
    let own := (L.inner.query q.request q.maxLimit).runOn ⟨b.state, log⟩
    (L.answer q seconds).runOn ⟨b, log⟩ = (own.1, ⟨{ b with state := own.2.state }, own.2.log⟩) := by
  unfold answer
  rw [hkey]
  exact query_booked q.request q.maxLimit b log

theorem answer_found {q : Question} {key : String} (hkey : q.key = some key) (seconds : Int)
    {b : Booked S τ} {log : List LogEntry} {response : PagedResponse}
    (hfound : ((L.store.get key).runOn ⟨b.state, log⟩).1 = .ok (some response)) :
    ∃ log', (L.answer q seconds).runOn ⟨b, log⟩ = (.ok response,
      ⟨{ b with state := ((L.store.get key).runOn ⟨b.state, log⟩).2.state }, log'⟩) := by
  obtain ⟨log', hlookup⟩ := lookup_booked (L := L) key b log
  rw [Rig.response?_eq_some.mpr hfound] at hlookup
  refine ⟨log', ?_⟩
  unfold answer Builder.prepareCached
  rw [hkey, bind_assoc, Action.runOn_bind, hlookup]
  rfl

theorem answer_missed {q : Question} {key : String} (hkey : q.key = some key) (seconds : Int)
    {b : Booked S τ} {log : List LogEntry}
    (hfound : Rig.response? ((L.store.get key).runOn ⟨b.state, log⟩).1 = none) :
    ∃ log', (L.answer q seconds).runOn ⟨b, log⟩
      = ((L.inner.through Booked.ofState).query q.request q.maxLimit >>=
          L.booked.keep key (.int seconds)).runOn
        ⟨{ b with state := ((L.store.get key).runOn ⟨b.state, log⟩).2.state }, log'⟩ := by
  obtain ⟨log', hlookup⟩ := lookup_booked (L := L) key b log
  rw [hfound] at hlookup
  refine ⟨log' ++ [⟨ResponseStore.source, .debug, "Cache miss for key " ++ key⟩], ?_⟩
  rw [← Builder.prepare_andThen]
  unfold answer Builder.prepareCached
  rw [hkey, bind_assoc, Action.runOn_bind, hlookup]
  rfl

/-- a query keeps what the store holds, and its answer is not late -/
theorem answer_fresh (h : L.Prompt passes late shows holds)
    (hinner : ∀ r maxLimit w, passes w.state ((L.inner.query r maxLimit).runOn w).2.state)
    (q : Question) (seconds : Int) {w : Logged (Booked S τ)}
    (hholds : holds w.state.deposits w.state.state) :
    let done := (L.answer q seconds).runOn w
    holds done.2.state.deposits done.2.state.state ∧
      L.Fresh late shows q w.state (some <$> done.1) := by
  intro done
  obtain ⟨b, log⟩ := w
  cases hkey : q.key with
  | none =>
    rw [show done = _ from answer_unkeyed hkey seconds b log]
    exact ⟨h.pass hholds (hinner q.request q.maxLimit ⟨b.state, log⟩), .inr ⟨⟨b.state, log⟩, rfl, rfl⟩⟩
  | some key =>
    obtain ⟨hgot, hnow, hfresh⟩ := h.get key ⟨b.state, log⟩ hholds
    cases hfound : Rig.response? ((L.store.get key).runOn ⟨b.state, log⟩).1 with
    | some response =>
      have hanswer := Rig.response?_eq_some.mp hfound
      obtain ⟨log', hrun⟩ := answer_found hkey seconds hanswer
      obtain ⟨d, hd, rfl, hshows, hlate⟩ := hfresh response hanswer
      rw [show done = _ from hrun]
      exact ⟨hgot, .inl ⟨d, hd, response, hkey, hshows, hlate, rfl⟩⟩
    | none =>
      obtain ⟨log', hrun⟩ := answer_missed hkey seconds hfound
      let asked : Logged S := ⟨((L.store.get key).runOn ⟨b.state, log⟩).2.state, log'⟩
      have hpassed := h.pass hgot (hinner q.request q.maxLimit asked)
      rw [Action.runOn_bind, query_booked] at hrun
      rcases hown : (L.inner.query q.request q.maxLimit).runOn asked with ⟨f | response, after⟩
      · rw [hown] at hpassed hrun
        rw [show done = _ from hrun]
        exact ⟨hpassed, .inr ⟨asked, hnow, by rw [hown]⟩⟩
      · rw [hown] at hpassed hrun
        obtain ⟨log'', hkeep⟩ := keep_booked (L := L) key (.int seconds) response
          { b with state := after.state } after.log
        rw [show done = _ from hrun.trans hkeep]
        exact ⟨h.set key response seconds ⟨after.state, after.log⟩ hpassed,
          .inr ⟨asked, hnow, by rw [hown]⟩⟩

/-! ## a run -/

def Quiet (passes : S → S → Prop) : Errand S → Prop
  | .meanwhile change => ∀ s, passes s (change s)
  | _ => True

def run (L : Vault S τ) (w : Logged (Booked S τ)) (errands : List (Errand S)) :
    Logged (Booked S τ) :=
  errands.foldl (fun w e => ((L.perform e).runOn w).2) w

theorem holds_perform (h : L.Prompt passes late shows holds)
    (hinner : ∀ r maxLimit w, passes w.state ((L.inner.query r maxLimit).runOn w).2.state)
    {e : Errand S} (hquiet : Quiet passes e) {w : Logged (Booked S τ)}
    (hholds : holds w.state.deposits w.state.state) :
    let after := ((L.perform e).runOn w).2
    holds after.state.deposits after.state.state := by
  intro after
  cases hq : e.question? L.keyOf with
  | some q =>
    obtain ⟨seconds, hperform⟩ := perform_question L hq w
    rw [show after = _ from congrArg Prod.snd hperform]
    exact (answer_fresh h hinner q seconds hholds).1
  | none =>
    cases e with
    | query r maxLimit => cases hq
    | cachedQuery q => cases hq
    | invalidate key =>
      obtain ⟨log, hrun⟩ := invalidate_booked (L := L) key w.state w.log
      have hafter : after = _ := congrArg Prod.snd (Action.runOn_bind (L.booked.invalidate key) _ w)
      rw [hrun] at hafter
      rw [hafter]
      exact h.delete key ⟨w.state.state, w.log⟩ hholds
    | meanwhile change => exact h.pass hholds (hquiet w.state.state)

theorem holds_run (h : L.Prompt passes late shows holds)
    (hinner : ∀ r maxLimit w, passes w.state ((L.inner.query r maxLimit).runOn w).2.state)
    {errands : List (Errand S)} (hquiet : ∀ e ∈ errands, Quiet passes e) {w : Logged (Booked S τ)}
    (hholds : holds w.state.deposits w.state.state) :
    holds (L.run w errands).state.deposits (L.run w errands).state.state := by
  induction errands generalizing w with
  | nil => exact hholds
  | cons e rest ih =>
    rw [List.forall_mem_cons] at hquiet
    exact ih hquiet.2 (holds_perform h hinner hquiet.1 hholds)

/-- Take any query after any run over a store that finds nothing late, and has nothing at first.  Its
answer is not late. -/
theorem fresh_run (h : L.Prompt passes late shows holds)
    (hinner : ∀ r maxLimit w, passes w.state ((L.inner.query r maxLimit).runOn w).2.state)
    {start : S} (hstart : holds [] start) {errands : List (Errand S)}
    (hquiet : ∀ e ∈ errands, Quiet passes e) (log : List LogEntry) {e : Errand S} {q : Question}
    (hq : e.question? L.keyOf = some q) :
    let w := L.run ⟨⟨start, []⟩, log⟩ errands
    L.Fresh late shows q w.state ((L.perform e).runOn w).1 := by
  intro w
  have hholds : holds w.state.deposits w.state.state := holds_run h hinner hquiet hstart
  obtain ⟨seconds, hperform⟩ := perform_question L hq w
  rw [hperform]
  exact (answer_fresh h hinner q seconds hholds).2

end Vault

end ListQuery
