import ListQuery.Builder.Cached
import ListQuery.Proofs.Cache.Memory
import ListQuery.Proofs.Layers.Part

/-!
# Responses from a memory

A layer that keeps responses in a memory answers from it exactly the queries whose response was
stored under their key, is still in its lifetime and was not given up; every other query is put to
the builder inside, once.

* `Keeper`, `Site`              the layer, and the state that it works on;
* `Keeper.run`, `history`       a run of calls, and what was stored and given up on the way;
* `Current`, `Keeper.Alive`     the response that a history leaves under a key;
* `Tracks`                      the invariant: the memory holds what the history says;
* `Keeper.query_unkeyed`, `query_alive`, `query_missed`, `query_cases`
                                one query;
* `Keeper.read_through`         any query after any run.
-/

namespace ListQuery

/-! ## the layer -/

/-- the state of the builder inside, how many queries were put to it, and the memory -/
structure Site (T : Type) where
  inner : T
  asked : Nat := 0
  memory : Memory

namespace Site

variable {T : Type}

def ofInner {α : Type} (a : Action T α) : Action (Site T) α :=
  Action.within (·.inner) (fun inner s => { s with inner }) a

def store (clock : T → Binary64) : ResponseStore (Site T) :=
  .ofMemory (fun s => clock s.inner) (·.memory) (fun memory s => { s with memory })

end Site

def Prepared.onSite {T : Type} : Prepared T → Prepared (Site T)
  | .answered r => .answered r
  | .fetching fetch => .fetching do return Site.ofInner (← Site.ofInner fetch)

def Site.inside {T : Type} : Port T (Site T) :=
  .part (·.inner) (fun inner s => { s with inner }) (fun _ _ => rfl) (fun _ _ _ => rfl) fun _ => rfl

theorem Prepared.onSite_eq {T : Type} (p : Prepared T) : p.onSite = p.through Site.inside := by
  cases p <;> rfl

def Builder.counted {T : Type} (b : Builder T) : Builder (Site T) where
  prepare r maxLimit := do
    Action.update fun s => { s with asked := s.asked + 1 }
    return (← Site.ofInner (b.prepare r maxLimit)).onSite
  cursorQuery r := Site.ofInner (b.cursorQuery r)
  count r := Site.ofInner (b.count r)
  aggregate r aggregations := Site.ofInner (b.aggregate r aggregations)

/-- the builder inside, the clock, and how many seconds a response is kept unless told otherwise -/
structure Keeper (T : Type) where
  inner : Builder T
  clock : T → Binary64
  lifetime : Int

structure KeyedQuery where
  request : Request
  key : Option String
  ttl : Option Int
  enabled : Bool
  maxLimit : Value

inductive Call (T : Type) where
  | query (q : KeyedQuery)
  | invalidate (key : String)
  | meanwhile (change : T → T)

namespace KeyedQuery

def Under (q : KeyedQuery) (key : String) : Prop :=
  q.enabled = true ∧ q.key = some key ∧ key ≠ ""

def usable (q : KeyedQuery) : Option String := Builder.keyFor q.enabled q.key

theorem usable_eq_some {q : KeyedQuery} {key : String} : q.usable = some key ↔ q.Under key := by
  obtain ⟨request, given, ttl, enabled, maxLimit⟩ := q
  show (if enabled then given.bind Builder.usableKey else none) = some key ↔
    enabled = true ∧ given = some key ∧ key ≠ ""
  cases enabled with
  | false => simp
  | true =>
    cases given with
    | none => simp
    | some name =>
      show (if name = "" then none else some name) = some key ↔ _
      rw [Option.ite_none_left_eq_some, Option.some_inj]
      constructor
      · rintro ⟨hname, rfl⟩; exact ⟨rfl, rfl, hname⟩
      · rintro ⟨_, rfl, hname⟩; exact ⟨hname, rfl⟩

theorem Under.unique {q : KeyedQuery} {key other : String} (h : q.Under key) (hother : q.Under other) :
    key = other :=
  Option.some_inj.mp (h.2.1.symm.trans hother.2.1)

def announced (q : KeyedQuery) (log : List LogEntry) : List LogEntry :=
  log ++ (q.usable.map fun key =>
    (⟨ResponseStore.source, .debug, "Cache miss for key " ++ key⟩ : LogEntry)).toList

end KeyedQuery

/-! ## what was stored -/

structure Kept where
  response : PagedResponse
  since : Binary64
  seconds : Int

inductive Event where
  | stored (key : String) (kept : Kept)
  | invalidated (key : String)

def Event.key : Event → String
  | stored key _ => key
  | invalidated key => key

/-- the last response stored under a key, if the key was not invalidated since -/
def Current (events : List Event) (key : String) (kept : Kept) : Prop :=
  ∃ earlier later, events = earlier ++ .stored key kept :: later ∧ ∀ e ∈ later, e.key ≠ key

theorem current_concat {events : List Event} {e : Event} {key : String} {kept : Kept} :
    Current (events ++ [e]) key kept ↔
      e = .stored key kept ∨ (Current events key kept ∧ e.key ≠ key) :=
  exists_eq_since_concat

theorem Current.unique {events : List Event} {key : String} {kept other : Kept}
    (h : Current events key kept) (hother : Current events key other) : kept = other := by
  induction events using List.reverseRecOn with
  | nil => obtain ⟨earlier, later, h, _⟩ := h; simp at h
  | append_singleton events e ih =>
    rcases current_concat.mp h with rfl | ⟨h, hkey⟩
    · rcases current_concat.mp hother with heq | ⟨_, hkey⟩
      · cases heq; rfl
      · exact absurd rfl hkey
    · rcases current_concat.mp hother with rfl | ⟨hother, _⟩
      · exact absurd rfl hkey
      · exact ih h hother

/-! ## the invariant -/

/-- a memory holds, at a time, what a history left: nothing else, and without a limit all of it that
is still in its lifetime -/
structure Tracks (limit : Option Nat) (lifetime : Int) (now : Binary64) (m : Memory)
    (events : List Event) : Prop where
  configured : m.Configured limit lifetime
  nodup : m.keys.Nodup
  since {key : String} {kept : Kept} (h : Current events key kept) : kept.since ≤ now
  sound {key : String} {entry : MemoryEntry} (h : Memory.lookup key m.entries = some entry) :
    ∃ kept, Current events key kept ∧ entry.content = .page kept.response ∧
      Memory.after kept.since (.int kept.seconds) = .ok entry.expiry
  complete (hlimit : limit = none) {key : String} {kept : Kept} {expiry : Binary64}
    (h : Current events key kept)
    (hexpiry : Memory.after kept.since (.int kept.seconds) = .ok expiry) (hnow : now ≤ expiry) :
    Memory.lookup key m.entries = some ⟨.page kept.response, expiry⟩

namespace Tracks

variable {limit : Option Nat} {lifetime : Int} {now now' : Binary64} {m : Memory}
  {events : List Event} {key : String}

/-- what may be read is the last response stored under the key, in its lifetime -/
theorem of_alive (h : Tracks limit lifetime now m events) {entry : MemoryEntry}
    (halive : m.alive? now key = some entry) :
    ∃ kept, Current events key kept ∧ entry.content = .page kept.response ∧
      Memory.after kept.since (.int kept.seconds) = .ok entry.expiry ∧ now ≤ entry.expiry := by
  obtain ⟨hfound, hexceeds⟩ := Memory.alive?_eq_some.mp halive
  obtain ⟨kept, hcurrent, hcontent, hexpiry⟩ := h.sound hfound
  obtain ⟨hsince, hnow, _⟩ := Binary64.le_iff.mp (h.since hcurrent)
  have hnumber := Memory.isNaN_after hexpiry hsince
  exact ⟨kept, hcurrent, hcontent, hexpiry, (Binary64.exceeds_eq_false_iff hnow hnumber).mp hexceeds⟩

/-- without a limit, the last response stored under a key may be read in its lifetime -/
theorem alive (h : Tracks limit lifetime now m events) (hlimit : limit = none) {kept : Kept}
    {expiry : Binary64} (hcurrent : Current events key kept)
    (hexpiry : Memory.after kept.since (.int kept.seconds) = .ok expiry) (hnow : now ≤ expiry) :
    m.alive? now key = some ⟨.page kept.response, expiry⟩ := by
  obtain ⟨hnumber, hnumber', _⟩ := Binary64.le_iff.mp hnow
  exact Memory.alive?_eq_some.mpr ⟨h.complete hlimit hcurrent hexpiry hnow,
    (Binary64.exceeds_eq_false_iff hnumber hnumber').mpr hnow⟩

theorem empty (limit : Option Nat) (lifetime : Int) (now : Binary64) :
    Tracks limit lifetime now (Memory.empty limit lifetime) [] where
  configured := Memory.configured_empty limit lifetime
  nodup := List.nodup_nil
  since h := by obtain ⟨earlier, later, h, _⟩ := h; simp at h
  sound h := by cases h
  complete _ _ _ _ h := by obtain ⟨earlier, later, h, _⟩ := h; simp at h

theorem elapse (h : Tracks limit lifetime now m events) (hnow : now ≤ now') :
    Tracks limit lifetime now' m events where
  configured := h.configured
  nodup := h.nodup
  since hcurrent := Binary64.le_trans (h.since hcurrent) hnow
  sound := h.sound
  complete hlimit _ _ _ hcurrent hexpiry hlater :=
    h.complete hlimit hcurrent hexpiry (Binary64.le_trans hnow hlater)

theorem expire (h : Tracks limit lifetime now m events) (key : String) :
    Tracks limit lifetime now (m.expiring now key) events where
  configured := h.configured.expiring now key
  nodup := Memory.nodup_expiring now key h.nodup
  since := h.since
  sound hfound := h.sound (Memory.lookup_of_expiring hfound)
  complete hlimit other kept expiry hcurrent hexpiry hnow := by
    rw [Memory.lookup_expiring]
    split
    · rename_i hother
      subst hother
      exact h.alive hlimit hcurrent hexpiry hnow
    · exact h.complete hlimit hcurrent hexpiry hnow

theorem store (h : Tracks limit lifetime now m events) (hnow : now.isNaN = false) (key : String)
    (response : PagedResponse) (seconds : Int) :
    Tracks limit lifetime now (m.writing limit key (Memory.fresh? now (.page response) seconds))
      (events ++ [.stored key ⟨response, now, seconds⟩]) where
  configured := h.configured.writing key _
  nodup := Memory.nodup_writing _ key h.nodup
  since hcurrent := by
    rcases current_concat.mp hcurrent with heq | ⟨hcurrent, _⟩
    · cases heq; exact Binary64.le_refl hnow
    · exact h.since hcurrent
  sound {other entry} hfound := by
    by_cases hother : other = key
    · subst hother
      rw [Memory.lookup_writing_self, Memory.fresh?] at hfound
      refine ⟨_, current_concat.mpr (.inl rfl), ?_⟩
      cases hexpiry : Memory.after now (.int seconds) with
      | error e => rw [hexpiry] at hfound; cases hfound
      | ok expiry => rw [hexpiry] at hfound; cases hfound; exact ⟨rfl, rfl⟩
    · rw [Memory.lookup_writing_of_ne hother] at hfound
      obtain ⟨kept, hcurrent, hrest⟩ := h.sound (Memory.lookup_room h.nodup hfound)
      exact ⟨kept, current_concat.mpr (.inr ⟨hcurrent, Ne.symm hother⟩), hrest⟩
  complete hlimit other kept expiry hcurrent hexpiry hlater := by
    rcases current_concat.mp hcurrent with heq | ⟨hcurrent, hother⟩
    · cases heq
      rw [Memory.lookup_writing_self, Memory.fresh?, hexpiry]
      rfl
    · subst hlimit
      have hne : other ≠ key := Ne.symm hother
      rw [Memory.lookup_writing_of_ne hne, Memory.room_unlimited]
      exact h.complete rfl hcurrent hexpiry hlater

theorem invalidate (h : Tracks limit lifetime now m events) (key : String) :
    Tracks limit lifetime now (m.dropping key) (events ++ [.invalidated key]) where
  configured := h.configured.dropping key
  nodup := Memory.nodup_dropping key h.nodup
  since hcurrent := by
    rcases current_concat.mp hcurrent with heq | ⟨hcurrent, _⟩
    · cases heq
    · exact h.since hcurrent
  sound {other entry} hfound := by
    by_cases hother : other = key
    · subst hother
      exact absurd ((Memory.lookup_without_self other m.entries).symm.trans hfound) (by simp)
    · have hbefore := (Memory.lookup_without_of_ne hother m.entries).symm.trans hfound
      obtain ⟨kept, hcurrent, hrest⟩ := h.sound hbefore
      exact ⟨kept, current_concat.mpr (.inr ⟨hcurrent, Ne.symm hother⟩), hrest⟩
  complete hlimit other kept expiry hcurrent hexpiry hlater := by
    rcases current_concat.mp hcurrent with heq | ⟨hcurrent, hother⟩
    · cases heq
    · exact (Memory.lookup_without_of_ne (Ne.symm hother) m.entries).trans
        (h.complete hlimit hcurrent hexpiry hlater)

end Tracks

/-! ## a query -/

namespace Keeper

variable {T : Type}

def query (k : Keeper T) (q : KeyedQuery) : Action (Site T) PagedResponse :=
  k.inner.counted.cachedQuery (Site.store k.clock) (.int k.lifetime) q.request q.key (.ofInt? q.ttl)
    q.enabled q.maxLimit

def ask (k : Keeper T) (q : KeyedQuery) (s : Site T) (log : List LogEntry) :
    Outcome PagedResponse × Logged T :=
  (k.inner.query q.request q.maxLimit).runOn ⟨s.inner, log⟩

def asked (k : Keeper T) (q : KeyedQuery) (s : Site T) (log : List LogEntry) : Site T :=
  { s with inner := (k.ask q s log).2.state, asked := s.asked + 1 }

end Keeper

namespace Builder

variable {S T : Type}

theorem complete_andThen (p : Prepared S) (next : PagedResponse → Action S PagedResponse)
    (w : Logged S) :
    (p.andThen next >>= Prepared.complete).runOn w = (p.complete >>= next).runOn w := by
  cases p with
  | answered r =>
    simp only [Prepared.andThen, Prepared.complete, map_eq_pure_bind, bind_assoc, pure_bind, bind_pure]
  | fetching fetch =>
    show ((fetch >>= fun conclude => pure (conclude >>= next)) >>= fun conclude => conclude).runOn w
      = ((fetch >>= fun conclude => conclude) >>= next).runOn w
    simp only [bind_assoc, pure_bind]

theorem prepare_andThen (b : Builder S) (r : Request) (maxLimit : Value)
    (next : PagedResponse → Action S PagedResponse) (w : Logged S) :
    ((b.prepare r maxLimit >>= Prepared.andThen next) >>= Prepared.complete).runOn w
      = (b.query r maxLimit >>= next).runOn w := by
  unfold query
  rw [bind_assoc, bind_assoc, Action.runOn_bind, Action.runOn_bind]
  split
  · exact complete_andThen _ next _
  · rfl

theorem query_counted (b : Builder T) (r : Request) (maxLimit : Value) (s : Site T)
    (log : List LogEntry) :
    (b.counted.query r maxLimit).runOn ⟨s, log⟩ =
      (Site.ofInner (b.query r maxLimit)).runOn ⟨{ s with asked := s.asked + 1 }, log⟩ := by
  show ((Site.ofInner (b.prepare r maxLimit) >>= fun p => pure p.onSite) >>=
    Prepared.complete).runOn ⟨{ s with asked := s.asked + 1 }, log⟩ = _
  simp only [Prepared.onSite_eq]
  show ((b.through Site.inside).query r maxLimit).runOn ⟨{ s with asked := s.asked + 1 }, log⟩ = _
  rw [query_through]
  rfl

end Builder

namespace Keeper

variable {T : Type} (k : Keeper T)

/-- the builder inside is asked once, and the memory stays as it is -/
theorem counted_eq (q : KeyedQuery) (s : Site T) (m : Memory) (log : List LogEntry) :
    (k.inner.counted.query q.request q.maxLimit).runOn ⟨{ s with memory := m }, log⟩
      = ((k.ask q s log).1, ⟨{ k.asked q s log with memory := m }, (k.ask q s log).2.log⟩) := by
  rw [Builder.query_counted]
  rfl

theorem query_unkeyed {q : KeyedQuery} (h : q.usable = none) (s : Site T) (log : List LogEntry) :
    (k.query q).runOn ⟨s, log⟩ = ((k.ask q s log).1, ⟨k.asked q s log, (k.ask q s log).2.log⟩) := by
  have hrun : (k.query q).runOn ⟨s, log⟩ = (k.inner.counted.query q.request q.maxLimit).runOn ⟨s, log⟩ := by
    unfold query Builder.cachedQuery
    rw [show Builder.keyFor q.enabled q.key = none from h]
    rfl
  exact hrun.trans (k.counted_eq q s s.memory log)

theorem getPage_alive {now : Binary64} {key : String} {m : Memory} {r : PagedResponse}
    {expiry : Binary64} (h : m.alive? now key = some ⟨.page r, expiry⟩) (log : List LogEntry) :
    (Memory.getPage now key).runOn ⟨m, log⟩ = (.ok (some (.page r)), ⟨m, log⟩) := by
  unfold Memory.getPage
  rw [Action.runOn_bind, Memory.get_eq, Memory.expiring, h]
  rfl

theorem getPage_missed {now : Binary64} {key : String} {m : Memory}
    (h : m.alive? now key = none) (log : List LogEntry) :
    (Memory.getPage now key).runOn ⟨m, log⟩ = (.ok none, ⟨m.expiring now key, log⟩) := by
  unfold Memory.getPage
  rw [Action.runOn_bind, Memory.get_eq, h]
  rfl

theorem lookup_of_getPage {clock : T → Binary64} {key : String} {s : Site T} {log : List LogEntry}
    {found : Option Stored} {m : Memory}
    (h : (Memory.getPage (clock s.inner) key).runOn ⟨s.memory, log⟩ = (.ok found, ⟨m, log⟩)) :
    ((Site.store clock).lookup key).runOn ⟨s, log⟩ =
      (.ok (ResponseStore.responseOf found), ⟨{ s with memory := m },
        if (ResponseStore.responseOf found).isSome then
          log ++ [⟨ResponseStore.source, .debug, "Cache hit for key " ++ key⟩] else log⟩) := by
  have hget : ((Site.store clock).get key).runOn ⟨s, log⟩
      = (.ok (ResponseStore.responseOf found), ⟨{ s with memory := m }, log⟩) := by
    show (Action.within (·.memory) (fun memory s => { s with memory })
      (Memory.getPage (clock s.inner) key) >>= fun found =>
        pure (ResponseStore.responseOf found) : Action (Site T) (Option PagedResponse)).runOn ⟨s, log⟩ = _
    rw [Action.runOn_bind, Action.runOn_within, h]
    rfl
  unfold ResponseStore.lookup
  rw [Action.runOn_bind, Action.runOn_attempt, hget]
  cases ResponseStore.responseOf found <;> rfl

/-- a query whose response may be read -/
theorem query_alive {q : KeyedQuery} {key : String} (hkey : q.usable = some key) {s : Site T}
    {r : PagedResponse} {expiry : Binary64}
    (h : s.memory.alive? (k.clock s.inner) key = some ⟨.page r, expiry⟩) (log : List LogEntry) :
    (k.query q).runOn ⟨s, log⟩
      = (.ok r, ⟨s, log ++ [⟨ResponseStore.source, .debug, "Cache hit for key " ++ key⟩]⟩) := by
  unfold query Builder.cachedQuery
  rw [show Builder.keyFor q.enabled q.key = some key from hkey]
  unfold Builder.prepareCached
  simp only [bind_assoc]
  rw [Action.runOn_bind, lookup_of_getPage (getPage_alive h log)]
  rfl

theorem keep_eq {limit : Option Nat} {default : Int} {clock : T → Binary64} {s : Site T}
    (h : s.memory.Configured limit default) (hlimit : ∀ n ∈ limit, 1 ≤ n) (key : String)
    (r : PagedResponse) (seconds : Int) (log : List LogEntry) :
    let written := s.memory.writing limit key (Memory.fresh? (clock s.inner) (.page r) seconds)
    ∃ log', ((Site.store clock).keep key (.int seconds) r).runOn ⟨s, log⟩
      = (.ok r, ⟨{ s with memory := written }, log'⟩) := by
  intro written
  obtain ⟨log', hset⟩ := Memory.set_eq h hlimit (clock s.inner) key (.page r) (some seconds) log
  replace hset : (Memory.set (clock s.inner) key (.page r) (.int seconds)).runOn ⟨s.memory, log⟩
      = ((Memory.after (clock s.inner) (.int seconds)).map fun _ => (), ⟨written, log'⟩) := hset
  have hstore : ((Site.store clock).set key r (.int seconds)).runOn ⟨s, log⟩
      = ((Memory.after (clock s.inner) (.int seconds)).map fun _ => (),
        ⟨{ s with memory := written }, log'⟩) := by
    show (Action.within (·.memory) (fun memory s => { s with memory })
      (Memory.set (clock s.inner) key (.page r) (.int seconds)) : Action (Site T) Unit).runOn ⟨s, log⟩ = _
    rw [Action.runOn_within, hset]
  unfold ResponseStore.keep
  rw [Action.runOn_bind, Action.runOn_attempt, hstore]
  cases Memory.after (clock s.inner) (.int seconds) <;> exact ⟨_, rfl⟩

/-- the memory after a query that it had no response for: the answer is stored if there is one -/
def memoryAfter (k : Keeper T) (limit : Option Nat) (q : KeyedQuery) (key : String) (s : Site T)
    (answer : Outcome PagedResponse × Logged T) : Memory :=
  match answer.1 with
  | .error _ => s.memory.expiring (k.clock s.inner) key
  | .ok r => (s.memory.expiring (k.clock s.inner) key).writing limit key
      (Memory.fresh? (k.clock answer.2.state) (.page r) (q.ttl.getD k.lifetime))

/-- what is found after such a query was there before, or is its answer -/
theorem lookup_memoryAfter {k : Keeper T} {limit : Option Nat} {q : KeyedQuery} {key other : String}
    {s : Site T} {answer : Outcome PagedResponse × Logged T} {entry : MemoryEntry}
    (hnodup : s.memory.keys.Nodup)
    (h : Memory.lookup other (k.memoryAfter limit q key s answer).entries = some entry) :
    Memory.lookup other s.memory.entries = some entry ∨
      (other = key ∧ ∃ response, answer.1 = .ok response ∧ entry.content = .page response) := by
  unfold memoryAfter at h
  split at h
  · exact .inl (Memory.lookup_of_expiring h)
  · rename_i response hresponse
    by_cases hother : other = key
    · subst hother
      rw [Memory.lookup_writing_self, Memory.fresh?, Option.map_eq_some_iff] at h
      obtain ⟨expiry, _, rfl⟩ := h
      exact .inr ⟨rfl, response, hresponse, rfl⟩
    · rw [Memory.lookup_writing_of_ne hother] at h
      have hexpired := Memory.nodup_expiring (k.clock s.inner) key hnodup
      exact .inl (Memory.lookup_of_expiring (Memory.lookup_room hexpired h))

/-- a query whose response is not there, or may not be read any more -/
theorem query_missed {limit : Option Nat} {default : Int} {q : KeyedQuery} {key : String}
    (hkey : q.usable = some key) {s : Site T} (hmemory : s.memory.Configured limit default)
    (hlimit : ∀ n ∈ limit, 1 ≤ n) (h : s.memory.alive? (k.clock s.inner) key = none)
    (log : List LogEntry) :
    ∃ log', (k.query q).runOn ⟨s, log⟩ = ((k.ask q s (q.announced log)).1,
      ⟨{ k.asked q s (q.announced log) with
          memory := k.memoryAfter limit q key s (k.ask q s (q.announced log)) }, log'⟩) := by
  have hseconds : (if (Value.ofInt? q.ttl).isNull then .int k.lifetime else .ofInt? q.ttl)
      = Value.int (q.ttl.getD k.lifetime) := by
    cases q.ttl <;> rfl
  have hannounced : q.announced log
      = log ++ [⟨ResponseStore.source, .debug, "Cache miss for key " ++ key⟩] := by
    rw [KeyedQuery.announced, hkey]
    rfl
  have hrun : (k.query q).runOn ⟨s, log⟩ = (k.inner.counted.query q.request q.maxLimit >>=
      (Site.store k.clock).keep key (.int (q.ttl.getD k.lifetime))).runOn
        ⟨{ s with memory := s.memory.expiring (k.clock s.inner) key }, q.announced log⟩ := by
    unfold query Builder.cachedQuery
    rw [show Builder.keyFor q.enabled q.key = some key from hkey]
    unfold Builder.prepareCached
    rw [hseconds]
    simp only [bind_assoc]
    rw [Action.runOn_bind, lookup_of_getPage (getPage_missed h log), hannounced]
    exact Builder.prepare_andThen k.inner.counted q.request q.maxLimit
      ((Site.store k.clock).keep key (.int (q.ttl.getD k.lifetime))) _
  rw [hrun, Action.runOn_bind, counted_eq]
  unfold memoryAfter
  rcases hanswer : k.ask q s (q.announced log) with ⟨answer, after⟩
  cases answer with
  | error e => exact ⟨_, rfl⟩
  | ok r =>
    have hinner : (k.asked q s (q.announced log)).inner = after.state := by
      rw [asked, hanswer]
    rw [← hinner]
    exact keep_eq (hmemory.expiring (k.clock s.inner) key) hlimit key r _ after.log

/-! ## a run -/

def perform (k : Keeper T) : Call T → Action (Site T) Unit
  | .query q => do let _ ← k.query q
  | .invalidate key => (Site.store k.clock).invalidate key
  | .meanwhile change => Action.update fun s => { s with inner := change s.inner }

def after (k : Keeper T) (s : Site T) (c : Call T) : Site T := ((k.perform c).runOn ⟨s, []⟩).2.state

/-- the response that an answer stores under a key: one that the builder inside was asked for -/
def stored? (k : Keeper T) (q : KeyedQuery) (s : Site T)
    (answer : Outcome PagedResponse × Logged (Site T)) (key : String) : Option Event :=
  match answer with
  | (.ok response, after) =>
    if after.state.asked = s.asked then none
    else some (.stored key ⟨response, k.clock after.state.inner, q.ttl.getD k.lifetime⟩)
  | (.error _, _) => none

def event? (k : Keeper T) (s : Site T) : Call T → Option Event
  | .query q => q.usable.bind (k.stored? q s ((k.query q).runOn ⟨s, []⟩))
  | .invalidate key => some (.invalidated key)
  | .meanwhile _ => none

def run (k : Keeper T) (s : Site T) (calls : List (Call T)) : Site T := calls.foldl k.after s

/-- what the calls of a run stored and invalidated, in order -/
def history (k : Keeper T) : Site T → List (Call T) → List Event
  | _, [] => []
  | s, c :: calls => (k.event? s c).toList ++ k.history (k.after s c) calls

/-- the clock does not go back during a run -/
def Steady (k : Keeper T) : Site T → List (Call T) → Prop
  | _, [] => True
  | s, c :: calls => k.clock s.inner ≤ k.clock (k.after s c).inner ∧ k.Steady (k.after s c) calls

/-- a response was the last one stored under a key, was not invalidated, and its lifetime, from the
time when it was stored, has not ended -/
def Alive (k : Keeper T) (s : Site T) (events : List Event) (key : String)
    (response : PagedResponse) : Prop :=
  ∃ since seconds expiry, Current events key ⟨response, since, seconds⟩ ∧
    Memory.after since (.int seconds) = .ok expiry ∧ k.clock s.inner ≤ expiry

variable {k} {limit : Option Nat} {default : Int}

theorem Alive.unique {s : Site T} {events : List Event} {key : String} {response other : PagedResponse}
    (h : k.Alive s events key response) (hother : k.Alive s events key other) : response = other := by
  obtain ⟨since, seconds, expiry, hcurrent, _⟩ := h
  obtain ⟨since', seconds', expiry', hcurrent', _⟩ := hother
  exact congrArg Kept.response (hcurrent.unique hcurrent')

theorem after_query (q : KeyedQuery) (s : Site T) :
    k.after s (.query q) = ((k.query q).runOn ⟨s, []⟩).2.state := by
  show ((k.query q >>= fun _ => pure ()).runOn ⟨s, []⟩).2.state = _
  rw [Action.runOn_bind]
  rcases (k.query q).runOn ⟨s, []⟩ with ⟨answer | answer, after⟩ <;> rfl

theorem tracks_query {s : Site T} {events : List Event} (hlimit : ∀ n ∈ limit, 1 ≤ n)
    (h : Tracks limit default (k.clock s.inner) s.memory events) (q : KeyedQuery)
    (hnow : k.clock s.inner ≤ k.clock (k.after s (.query q)).inner) :
    Tracks limit default (k.clock (k.after s (.query q)).inner) (k.after s (.query q)).memory
      (events ++ (k.event? s (.query q)).toList) := by
  rw [after_query] at hnow ⊢
  show Tracks _ _ _ _ (events ++ (q.usable.bind (k.stored? q s ((k.query q).runOn ⟨s, []⟩))).toList)
  cases hkey : q.usable with
  | none =>
    rw [query_unkeyed k hkey] at hnow ⊢
    rw [Option.bind_none, Option.toList_none, List.append_nil]
    exact h.elapse hnow
  | some key =>
    rw [Option.bind_some]
    cases halive : s.memory.alive? (k.clock s.inner) key with
    | some entry =>
      obtain ⟨kept, _, hcontent, _⟩ := h.of_alive halive
      obtain ⟨content, expiry⟩ := entry
      cases hcontent
      rw [query_alive k hkey halive, stored?, if_pos rfl, Option.toList_none, List.append_nil]
      exact h
    | none =>
      obtain ⟨log', hmissed⟩ := query_missed k hkey h.configured hlimit halive []
      rw [hmissed] at hnow ⊢
      have hexpired := (h.expire key).elapse hnow
      unfold memoryAfter
      rcases hanswer : k.ask q s (q.announced []) with ⟨answer, after⟩
      cases answer with
      | error e =>
        rw [stored?, Option.toList_none, List.append_nil]
        exact hexpired
      | ok response =>
        have hinner : (k.asked q s (q.announced [])).inner = after.state := by
          rw [asked, hanswer]
        obtain ⟨_, hnumber, _⟩ := Binary64.le_iff.mp hnow
        rw [stored?, if_neg (by simp [asked])]
        have hstored := hexpired.store hnumber key response (q.ttl.getD k.lifetime)
        rw [hinner] at hstored ⊢
        exact hstored

theorem tracks_call {s : Site T} {events : List Event} (hlimit : ∀ n ∈ limit, 1 ≤ n)
    (h : Tracks limit default (k.clock s.inner) s.memory events) (c : Call T)
    (hnow : k.clock s.inner ≤ k.clock (k.after s c).inner) :
    Tracks limit default (k.clock (k.after s c).inner) (k.after s c).memory
      (events ++ (k.event? s c).toList) := by
  cases c with
  | query q => exact tracks_query hlimit h q hnow
  | invalidate key => exact h.invalidate key
  | meanwhile change =>
    show Tracks _ _ _ _ (events ++ [])
    rw [List.append_nil]
    exact h.elapse hnow

theorem tracks_run {calls : List (Call T)} {s : Site T} {events : List Event}
    (hlimit : ∀ n ∈ limit, 1 ≤ n) (h : Tracks limit default (k.clock s.inner) s.memory events)
    (hsteady : k.Steady s calls) :
    Tracks limit default (k.clock (k.run s calls).inner) (k.run s calls).memory
      (events ++ k.history s calls) := by
  induction calls generalizing s events with
  | nil =>
    show Tracks _ _ _ _ (events ++ [])
    rw [List.append_nil]
    exact h
  | cons c calls ih =>
    have hrest := ih (tracks_call hlimit h c hsteady.1) hsteady.2
    rw [List.append_assoc] at hrest
    exact hrest

/-- A query where the memory holds what a history left.  Either there is a response for it and it is
the answer, or the builder inside is asked once; the latter only where no response is left, or some
may have been given up. -/
theorem query_cases {s : Site T} {events : List Event} (hlimit : ∀ n ∈ limit, 1 ≤ n)
    (htracks : Tracks limit default (k.clock s.inner) s.memory events) (q : KeyedQuery)
    (log : List LogEntry) :
    let answer := (k.query q).runOn ⟨s, log⟩
    (∃ key response, q.Under key ∧ k.Alive s events key response ∧
      answer.1 = .ok response ∧ answer.2.state = s) ∨
    ((limit = none → ∀ key response, q.Under key → ¬ k.Alive s events key response) ∧
      let asked := k.ask q s (q.announced log)
      answer.2.state.asked = s.asked + 1 ∧ answer.1 = asked.1 ∧
        answer.2.state.inner = asked.2.state ∧
        ∀ key entry, Memory.lookup key answer.2.state.memory.entries = some entry →
          Memory.lookup key s.memory.entries = some entry ∨
            (q.Under key ∧ ∃ response, answer.1 = .ok response ∧
              entry.content = .page response)) := by
  intro answer
  cases hkey : q.usable with
  | none =>
    have hanswer : answer = ((k.ask q s log).1, ⟨k.asked q s log, (k.ask q s log).2.log⟩) :=
      query_unkeyed k hkey s log
    have hannounced : q.announced log = log := by
      rw [KeyedQuery.announced, hkey]
      exact List.append_nil log
    rw [hanswer, hannounced]
    refine .inr ⟨?_, rfl, rfl, rfl, fun key entry hfound => .inl hfound⟩
    intro _ key response hunder _
    rw [KeyedQuery.usable_eq_some.mpr hunder] at hkey
    cases hkey
  | some key =>
    have hunder := KeyedQuery.usable_eq_some.mp hkey
    cases halive : s.memory.alive? (k.clock s.inner) key with
    | some entry =>
      obtain ⟨⟨response, since, seconds⟩, hcurrent, hcontent, hexpiry, hnow⟩ := htracks.of_alive halive
      obtain ⟨content, expiry⟩ := entry
      cases hcontent
      rw [show answer = _ from query_alive k hkey halive log]
      exact .inl ⟨key, response, hunder, ⟨since, seconds, expiry, hcurrent, hexpiry, hnow⟩, rfl, rfl⟩
    | none =>
      obtain ⟨log', hmissed⟩ := query_missed k hkey htracks.configured hlimit halive log
      rw [show answer = _ from hmissed]
      refine .inr ⟨?_, rfl, rfl, rfl, ?_⟩
      · rintro rfl other response hother ⟨since, seconds, expiry, hcurrent, hexpiry, hnow⟩
        cases hunder.unique hother
        rw [htracks.alive rfl hcurrent hexpiry hnow] at halive
        cases halive
      · intro other entry hfound
        rcases lookup_memoryAfter htracks.nodup hfound with hbefore | ⟨rfl, hstored⟩
        · exact .inl hbefore
        · exact .inr ⟨hunder, hstored⟩

/-- Take any query after any run on an empty memory with room for any number of responses, or for a
number that is not zero.  If the builder inside is not asked, the answer is the last response stored
under the key of the query, which was not invalidated and is in its lifetime; without a limit, such a
response is always the answer.  If the builder inside is asked, it is asked once, the answer is its
answer, and nothing is stored but a response under the key of the query. -/
theorem read_through (k : Keeper T) (start : T) (limit : Option Nat) (default : Int)
    (hlimit : ∀ n ∈ limit, 1 ≤ n) (past : List (Call T))
    (hsteady : k.Steady ⟨start, 0, .empty limit default⟩ past) (q : KeyedQuery)
    (log : List LogEntry) :
    let s := k.run ⟨start, 0, .empty limit default⟩ past
    let events := k.history ⟨start, 0, .empty limit default⟩ past
    let answer := (k.query q).runOn ⟨s, log⟩
    (answer.2.state.asked = s.asked → ∃ key response, q.Under key ∧
      k.Alive s events key response ∧ answer.1 = .ok response ∧ answer.2.state = s) ∧
    (limit = none → ∀ key response, q.Under key → k.Alive s events key response →
      answer.1 = .ok response ∧ answer.2.state = s) ∧
    (answer.2.state.asked ≠ s.asked →
      let asked := (k.inner.query q.request q.maxLimit).runOn ⟨s.inner, q.announced log⟩
      answer.2.state.asked = s.asked + 1 ∧ answer.1 = asked.1 ∧
        answer.2.state.inner = asked.2.state ∧
        ∀ key entry, Memory.lookup key answer.2.state.memory.entries = some entry →
          Memory.lookup key s.memory.entries = some entry ∨
            (q.Under key ∧ ∃ response, answer.1 = .ok response ∧
              entry.content = .page response)) := by
  intro s events answer
  have htracks : Tracks limit default (k.clock s.inner) s.memory events :=
    tracks_run hlimit (Tracks.empty limit default (k.clock start)) hsteady
  rcases query_cases hlimit htracks q log with
    ⟨key, response, hunder, halive, hanswer, hstate⟩ | ⟨hnone, hasked⟩
  · refine ⟨?_, ?_, ?_⟩
    · intro _
      exact ⟨key, response, hunder, halive, hanswer, hstate⟩
    · intro _ other found hother hfound
      cases hunder.unique hother
      cases halive.unique hfound
      exact ⟨hanswer, hstate⟩
    · intro h
      exact absurd (congrArg Site.asked hstate) h
  · refine ⟨?_, ?_, fun _ => hasked⟩
    · intro h
      exact absurd (hasked.1.symm.trans h) (Nat.succ_ne_self s.asked)
    · intro hunlimited key response hunder halive
      exact absurd halive (hnone hunlimited key response hunder)

def timekeeper : Keeper Nat where
  inner :=
    { prepare := fun _ _ => do
        return .answered { data := [.int (← Action.read)], counts := ⟨1, 1, 1, 1⟩ }
      cursorQuery := fun _ => throw .notImplemented
      count := fun _ => return 1
      aggregate := fun _ _ => throw .notImplemented }
  clock seconds := .exactly seconds
  lifetime := 60

/-- a minute after it was stored, a response is still the answer -/
theorem read_through_minute :
    let q : KeyedQuery := ⟨{}, some "time", none, true, .null⟩
    let start : Site Nat := ⟨0, 0, .empty none 300⟩
    let past : List (Call Nat) := [.query q, .meanwhile (· + 60)]
    (∀ n ∈ (none : Option Nat), 1 ≤ n) ∧ timekeeper.Steady start past ∧
      (timekeeper.run start past).asked = 1 ∧
      ((timekeeper.query q).runOn ⟨timekeeper.run start past, []⟩).1
        = .ok { data := [.int 0], counts := ⟨1, 1, 1, 1⟩ } := by
  intro q start past
  have hlimit : ∀ n ∈ (none : Option Nat), 1 ≤ n := by simp
  have hsteady : timekeeper.Steady start past := ⟨by decide +kernel, by decide +kernel, trivial⟩
  refine ⟨hlimit, hsteady, by decide +kernel, ?_⟩
  have hread := read_through timekeeper 0 none 300 hlimit past hsteady q []
  refine (hread.2.1 rfl "time" _ ⟨rfl, rfl, by decide⟩ ⟨.exactly 0, 60, _, ⟨[], [], rfl, by simp⟩,
    rfl, by decide +kernel⟩).1

end Keeper

end ListQuery
