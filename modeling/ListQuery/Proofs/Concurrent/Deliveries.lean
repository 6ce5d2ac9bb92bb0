import Mathlib.Data.List.Perm.Basic
import ListQuery.Builder.Notifying
import ListQuery.Builder.Stored
import ListQuery.Proofs.Concurrent.Tasks
import ListQuery.Proofs.Layers.Part
import ListQuery.Proofs.Request.Written
import ListQuery.Webhook.Courier

/-!
# Deliveries in the background

What is told of the answers to queries is delivered while other queries are made, in any order, and
some of it never arrives.  The queries do not notice.  What was scheduled is waiting or has ended, and
what has ended was posted or is reported as an error.

* `Desk`, `Ending`                   the builder inside and the courier, and a delivery that has ended;
* `Telling`, `ToldQuery`             a query, and what is told of its answer;
* `Happening`                        what may happen between the steps of queries;
* `Courier.deliverQuietly_cases`     one delivery;
* `Task.Mirrors`                     a query goes with the same query that nothing is told of;
* `Mirror`                           the invariant of a run;
* `Drained`                          waiting until nothing is left to deliver;
* `Desk.never_lost`                  queries and deliveries after any moves.
-/

namespace ListQuery

variable {T : Type}

/-! ## the desk -/

/-- what has become of a delivery: how the receivers answered at the time, what was raised, posted and
reported -/
structure Ending where
  delivery : Delivery
  reply : Reply
  raised : Outcome Unit
  posts : List Post
  reported : List LogEntry

/-- the builder inside and the courier, each with its own log, what was ever scheduled, and what has
become of the deliveries that have ended -/
structure Desk (T : Type) where
  inner : Logged T
  courier : Logged Courier
  scheduled : List Delivery := []
  ended : List Ending := []

inductive Happening (T : Type) where
  | deliver (i : Nat)
  | transport (reply : Reply) (closed : Bool)
  | meanwhile (change : T → T)

structure Telling where
  url : String
  headers : List (String × Value)
  ownClient : Bool
  withRequest : Bool
  now : Instant

structure ToldQuery where
  request : Request
  maxLimit : Value
  telling : Telling

def ToldQuery.delivery (q : ToldQuery) (response : PagedResponse) : Delivery where
  url := q.telling.url
  payload :=
    { data := response.data
      counts := Value.ofPageMeta response.counts
      timestamp := q.telling.now
      request := if q.telling.withRequest then q.request.toRecord.toOption else none }
  headers := q.telling.headers
  ownClient := q.telling.ownClient

namespace Desk

/-- deliveries that have not ended -/
def waiting (s : Desk T) : List Delivery := s.courier.state.scheduled

def ofInner : Port T (Desk T) :=
  .apart (·.inner) (fun inner s => { s with inner }) (fun _ _ => rfl) (fun _ _ _ => rfl) fun _ => rfl

def ofCourier : Port Courier (Desk T) :=
  .apart (·.courier) (fun courier s => { s with courier }) (fun _ _ => rfl) (fun _ _ _ => rfl)
    fun _ => rfl

def schedule (t : Telling) (payload : Payload) : Action (Desk T) Unit := do
  let d : Delivery := ⟨t.url, payload, t.headers, t.ownClient⟩
  Action.update fun s => { s with scheduled := s.scheduled ++ [d] }
  ofCourier.lift (Courier.schedule d)

/-- One of the waiting deliveries is made, and waits no longer as soon as it is.  On an event loop its
task is taken from the pending ones by a callback, which runs one round after the task has ended; in
between the delivery is made and still among them. -/
def deliver (i : Nat) : Action (Desk T) Unit := Action.update fun s =>
  match s.waiting[i]? with
  | none => s
  | some d =>
    let courier : Courier := { s.courier.state with scheduled := s.waiting.eraseIdx i }
    let (raised, after) := (Courier.deliverQuietly d).runOn ⟨courier, s.courier.log⟩
    { s with
      courier := after
      ended := s.ended ++ [⟨d, courier.reply, raised, after.state.posts.drop courier.posts.length,
        after.log.drop s.courier.log.length⟩] }

def perform : Happening T → Action (Desk T) Unit
  | .deliver i => deliver i
  | .transport reply closed => ofCourier.lift (Action.update fun c => { c with reply, closed })
  | .meanwhile change => ofInner.lift (Action.update change)

end Desk

def Happening.untold : Happening T → Action T Unit
  | .deliver _ => return
  | .transport _ _ => return
  | .meanwhile change => Action.update change

def Telling.builder (t : Telling) (b : Builder T) : Builder (Desk T) :=
  (b.through Desk.ofInner).notifying t.now (Desk.schedule t) t.withRequest

/-! ## one delivery -/

theorem Courier.post_cases (d : Delivery) (body : String) (c : Courier) (log : List LogEntry) :
    (c.reply.failure? = none ∧ (post d body).runOn ⟨c, log⟩
      = (.ok none, ⟨{ c with posts := c.posts ++ [⟨d.url, d.merged, body⟩] }, log⟩)) ∨
    ∃ reason posts, (posts = [] ∨ c.reply.failure? ≠ none) ∧ (post d body).runOn ⟨c, log⟩
      = (.ok (some reason), ⟨{ c with posts := c.posts ++ posts }, log⟩) := by
  unfold post
  rw [Action.runOn_bind, Action.runOn_read]
  dsimp only
  by_cases hclosed : c.closed ∧ ¬ d.ownClient
  · rw [if_pos hclosed]
    exact .inr ⟨_, [], .inl rfl, by rw [List.append_nil]; rfl⟩
  · rw [if_neg hclosed]
    cases hfailure : c.reply.failure? with
    | none => exact .inl ⟨rfl, rfl⟩
    | some reason => exact .inr ⟨reason, [⟨d.url, d.merged, body⟩], .inr (by simp), rfl⟩

/-- a delivery is posted, and it is taken, or one error is reported -/
theorem Courier.deliverQuietly_cases (d : Delivery) (c : Courier) (log : List LogEntry) :
    (∃ body, d.payload.body = .ok body ∧ c.reply.failure? = none ∧
      (deliverQuietly d).runOn ⟨c, log⟩ = (.ok (),
        ⟨{ c with posts := c.posts ++ [⟨d.url, d.merged, body⟩] },
          log ++ [⟨source, .debug, "Webhook delivered to " ++ d.url⟩]⟩)) ∨
    ∃ posts message, (posts = [] ∨ c.reply.failure? ≠ none) ∧
      (deliverQuietly d).runOn ⟨c, log⟩ = (.ok (),
        ⟨{ c with posts := c.posts ++ posts }, log ++ [⟨source, .error, message⟩]⟩) := by
  unfold deliverQuietly deliver
  cases hbody : d.payload.body with
  | error f => exact .inr ⟨[], _, .inl rfl, by rw [List.append_nil]; rfl⟩
  | ok body =>
    dsimp only
    rw [Action.runOn_bind, Action.runOn_attempt, Action.runOn_bind]
    rcases post_cases d body c log with ⟨hfailure, hpost⟩ | ⟨reason, posts, hwhy, hpost⟩
    · rw [hpost]
      exact .inl ⟨body, rfl, hfailure, rfl⟩
    · rw [hpost]
      exact .inr ⟨posts, "Webhook error: " ++ (failure d reason).message, hwhy, rfl⟩

theorem Courier.deliverQuietly_ok (d : Delivery) (w : Logged Courier) :
    ((deliverQuietly d).runOn w).1 = .ok () := by
  rcases deliverQuietly_cases d w.state w.log with ⟨_, -, -, h⟩ | ⟨_, _, -, h⟩
  · rw [h]
  · rw [h]

/-- nothing was raised, and there was one post, which was taken, and no error, or there was one error
and no post that was taken -/
def Ending.Clean (e : Ending) : Prop :=
  let errors := e.reported.filter fun entry => entry.severity = .error
  e.raised = .ok () ∧
    ((∃ body, e.delivery.payload.body = .ok body ∧
        e.posts = [⟨e.delivery.url, e.delivery.merged, body⟩] ∧ e.reply.failure? = none ∧ errors = []) ∨
      (∃ message, errors = [⟨Courier.source, .error, message⟩]) ∧
        (e.posts = [] ∨ e.reply.failure? ≠ none))

namespace Desk

/-- making a waiting delivery ends it, and touches nothing else -/
theorem deliver_eq {i : Nat} {d : Delivery} {w : Logged (Desk T)} (h : w.state.waiting[i]? = some d) :
    let made := (Courier.deliverQuietly d).runOn
      ⟨{ w.state.courier.state with scheduled := w.state.waiting.eraseIdx i }, w.state.courier.log⟩
    made.2.state.scheduled = w.state.waiting.eraseIdx i ∧
      ∃ e : Ending, e.delivery = d ∧ e.Clean ∧ ((deliver i).runOn w).2.state
        = { w.state with courier := made.2, ended := w.state.ended ++ [e] } := by
  intro made
  let courier : Courier := { w.state.courier.state with scheduled := w.state.waiting.eraseIdx i }
  let e : Ending := ⟨d, courier.reply, made.1, made.2.state.posts.drop courier.posts.length,
    made.2.log.drop w.state.courier.log.length⟩
  have hrun : ((deliver i).runOn w).2.state
      = { w.state with courier := made.2, ended := w.state.ended ++ [e] } := by
    unfold deliver
    rw [Action.runOn_update]
    dsimp only
    rw [h]
  rcases Courier.deliverQuietly_cases d courier w.state.courier.log with
    ⟨body, hbody, hreply, hmade⟩ | ⟨posts, message, hwhy, hmade⟩
  · have he : e = ⟨d, courier.reply, .ok (), [⟨d.url, d.merged, body⟩],
        [⟨Courier.source, .debug, "Webhook delivered to " ++ d.url⟩]⟩ := by
      show Ending.mk d courier.reply made.1 _ _ = _
      rw [show made = _ from hmade, List.drop_left, List.drop_left]
    refine ⟨by rw [show made = _ from hmade], e, rfl, ?_, hrun⟩
    rw [he]
    exact ⟨rfl, .inl ⟨body, hbody, rfl, hreply, rfl⟩⟩
  · have he : e = ⟨d, courier.reply, .ok (), posts, [⟨Courier.source, .error, message⟩]⟩ := by
      show Ending.mk d courier.reply made.1 _ _ = _
      rw [show made = _ from hmade, List.drop_left, List.drop_left]
    refine ⟨by rw [show made = _ from hmade], e, rfl, ?_, hrun⟩
    rw [he]
    exact ⟨rfl, .inr ⟨⟨message, rfl⟩, hwhy⟩⟩

theorem deliver_none {i : Nat} {w : Logged (Desk T)} (h : w.state.waiting[i]? = none) :
    ((deliver i).runOn w).2.state = w.state := by
  unfold deliver
  rw [Action.runOn_update]
  dsimp only
  rw [h]

theorem deliver_keeps (i : Nat) (w : Logged (Desk T)) :
    ((deliver i).runOn w).2.state.inner = w.state.inner ∧
      ((deliver i).runOn w).2.state.scheduled = w.state.scheduled := by
  cases h : w.state.waiting[i]? with
  | none =>
    rw [deliver_none h]
    exact ⟨rfl, rfl⟩
  | some d =>
    obtain ⟨-, e, -, -, hrun⟩ := deliver_eq h
    rw [hrun]
    exact ⟨rfl, rfl⟩

def told (d : Option Delivery) (s : Desk T) : Desk T :=
  match d with
  | none => s
  | some d =>
    { s with
      scheduled := s.scheduled ++ [d]
      courier := { s.courier with
        state := { s.courier.state with scheduled := s.courier.state.scheduled ++ [d] } } }

theorem runOn_lift {α : Type} (a : Action T α) (w : Logged (Desk T)) :
    (ofInner.lift a).runOn w = ((a.runOn w.state.inner).1,
      { w with state := { w.state with inner := (a.runOn w.state.inner).2 } }) := rfl

end Desk

/-! ## a query and the same untold -/

/-- At every step the one task does to the desk's builder what the other does, with the same result in
the end; what its answer is told by is scheduled when the other ends with an answer, and nothing else
happens at the desk. -/
def Task.Mirrors (tell : PagedResponse → Delivery) :
    Task (Desk T) PagedResponse → Task T PagedResponse → Prop
  | .finished result, t => t = .finished result
  | .waiting next' world', t => ∃ next world, t = .waiting next world ∧ ∀ w : Logged (Desk T),
      (world' w).state = Desk.told ((next w.state.inner).response?.map tell)
        { w.state with inner := world w.state.inner } ∧
      (next' w).Mirrors tell (next w.state.inner)

def Action.Mirrors (tell : PagedResponse → Delivery) (a' : Action (Desk T) PagedResponse)
    (a : Action T PagedResponse) : Prop :=
  ∀ w : Logged (Desk T), (a'.runOn w).1 = (a.runOn w.state.inner).1 ∧
    (a'.runOn w).2.state = Desk.told ((a.runOn w.state.inner).1.toOption.map tell)
      { w.state with inner := (a.runOn w.state.inner).2 }

namespace Task.Mirrors

variable {tell : PagedResponse → Delivery}

theorem step {a' : Action (Desk T) PagedResponse} {a : Action T PagedResponse}
    (h : a'.Mirrors tell a) : (Task.step a').Mirrors tell (Task.step a) := by
  refine ⟨_, _, rfl, fun w => ⟨(h w).2, ?_⟩⟩
  show Task.finished (a.runOn w.state.inner).1 = Task.finished (a'.runOn w).1
  rw [(h w).1]

/-- a step, and what is left then: what comes after the step at the desk schedules what the answer is
told by, if there is an answer by then -/
theorem step_bind {α β : Type} {a : Action T α} {after : α → Action (Desk T) β}
    {rest : α → Task T PagedResponse} {rest' : β → Task (Desk T) PagedResponse}
    (h : ∀ x w, ∃ y, (after x).runOn w
        = (.ok y, { w with state := Desk.told ((rest x).response?.map tell) w.state }) ∧
      (rest' y).Mirrors tell (rest x)) :
    (Task.step (Desk.ofInner.lift a >>= after) >>= rest').Mirrors tell (Task.step a >>= rest) := by
  refine ⟨_, _, rfl, fun w => ?_⟩
  let a' := Desk.ofInner.lift a >>= after
  show (a'.runOn w).2.state
      = Desk.told (((Task.finished (a.runOn w.state.inner).1).bind rest).response?.map tell)
        { w.state with inner := (a.runOn w.state.inner).2 } ∧
    ((Task.finished (a'.runOn w).1).bind rest').Mirrors tell
      ((Task.finished (a.runOn w.state.inner).1).bind rest)
  rw [Action.runOn_bind, Desk.runOn_lift]
  rcases a.runOn w.state.inner with ⟨f | x, inner⟩
  · exact ⟨rfl, rfl⟩
  · obtain ⟨y, hy, hrest⟩ := h x { w with state := { w.state with inner } }
    dsimp only
    rw [hy]
    exact ⟨rfl, hrest⟩

end Task.Mirrors

namespace ToldQuery

variable {q : ToldQuery} {b : Builder T}

def tell (q : ToldQuery) (response : PagedResponse) : Action (Desk T) PagedResponse := do
  let request ← if q.telling.withRequest then some <$> q.request.toRecord else pure none
  Desk.schedule q.telling ⟨response.data, Value.ofPageMeta response.counts, q.telling.now, request⟩
  return response

theorem tell_eq (h : q.request.Resolved) (response : PagedResponse) (w : Logged (Desk T)) :
    (q.tell response).runOn w
      = (.ok response, { w with state := Desk.told (some (q.delivery response)) w.state }) := by
  obtain ⟨fields, hfields⟩ := Request.toRecord_ok h
  unfold tell delivery
  rw [hfields]
  cases q.telling.withRequest <;> rfl

theorem tell_mirrors (h : q.request.Resolved) (conclude : Action T PagedResponse) :
    (Desk.ofInner.lift conclude >>= q.tell).Mirrors q.delivery conclude := by
  intro w
  rw [Action.runOn_bind, Desk.runOn_lift]
  rcases conclude.runOn w.state.inner with ⟨f | response, after⟩
  · exact ⟨rfl, rfl⟩
  · dsimp only
    rw [tell_eq h]
    exact ⟨rfl, rfl⟩

theorem prepared_mirrors (h : q.request.Resolved) (p : Prepared T) (w : Logged (Desk T)) :
    ∃ p', ((p.through Desk.ofInner).andThen q.tell).runOn w
        = (.ok p', { w with state := Desk.told (p.task.response?.map q.delivery) w.state }) ∧
      p'.task.Mirrors q.delivery p.task := by
  cases p with
  | answered response =>
    refine ⟨.answered response, ?_, rfl⟩
    show (.answered <$> q.tell response : Action (Desk T) (Prepared (Desk T))).runOn w = _
    rw [map_eq_pure_bind, Action.runOn_bind, tell_eq h]
    rfl
  | fetching fetch =>
    refine ⟨_, rfl, ?_⟩
    show (Task.step ((Desk.ofInner.lift fetch >>= fun conclude => pure (Desk.ofInner.lift conclude))
      >>= fun conclude => pure (conclude >>= q.tell)) >>= Task.step).Mirrors _ _
    rw [bind_assoc]
    exact .step_bind fun conclude w => ⟨_, rfl, .step (tell_mirrors h conclude)⟩

/-- the steps of a query and those of the same query untold -/
theorem task_mirrors (h : q.request.Resolved) (b : Builder T) :
    ((q.telling.builder b).task q.request q.maxLimit).Mirrors q.delivery
      (b.task q.request q.maxLimit) := by
  show (Task.step ((Desk.ofInner.lift (b.prepare q.request q.maxLimit) >>= fun p =>
    pure (p.through Desk.ofInner)) >>= fun p => p.andThen q.tell) >>= Prepared.task).Mirrors _ _
  rw [bind_assoc]
  exact .step_bind fun p w => prepared_mirrors h p w

end ToldQuery

/-! ## any number of queries -/

/-- what is told of the queries that have ended with an answer -/
def deliveries : List ToldQuery → List (Task T PagedResponse) → List Delivery
  | q :: queries, t :: tasks => (t.response?.map q.delivery).toList ++ deliveries queries tasks
  | _, _ => []

theorem deliveries_eq (queries : List ToldQuery) (tasks : List (Task T PagedResponse)) :
    deliveries queries tasks = (answered queries tasks).map fun a => a.1.delivery a.2 := by
  induction queries generalizing tasks with
  | nil => rfl
  | cons q queries ih =>
    cases tasks with
    | nil => rfl
    | cons t tasks =>
      rw [deliveries, answered, List.map_append, ← ih]
      cases t.response? <;> rfl

theorem deliveries_untouched (b : Builder T) (queries : List ToldQuery) :
    deliveries queries (queries.map fun q => b.task q.request q.maxLimit) = [] := by
  rw [deliveries_eq, answered_untouched fun _ => rfl]
  rfl

theorem deliveries_set {queries : List ToldQuery} {tasks : List (Task T PagedResponse)} {i : Nat}
    {q : ToldQuery} {t : Task T PagedResponse} (hq : queries[i]? = some q) (ht : tasks[i]? = some t)
    (hnone : t.response? = none) (t' : Task T PagedResponse) :
    (deliveries queries (tasks.set i t')).Perm
      (deliveries queries tasks ++ (t'.response?.map q.delivery).toList) := by
  have hlast : ((t'.response?.map (q, ·)).toList.map fun a => a.1.delivery a.2)
      = (t'.response?.map q.delivery).toList := by
    cases t'.response? <;> rfl
  rw [deliveries_eq, deliveries_eq, ← hlast, ← List.map_append]
  exact (answered_set hq ht hnone t').map _

namespace Desk

@[simp] theorem told_inner (d : Option Delivery) (s : Desk T) : (told d s).inner = s.inner := by
  cases d <;> rfl

@[simp] theorem told_ended (d : Option Delivery) (s : Desk T) : (told d s).ended = s.ended := by
  cases d <;> rfl

@[simp] theorem told_scheduled (d : Option Delivery) (s : Desk T) :
    (told d s).scheduled = s.scheduled ++ d.toList := by
  cases d with
  | none => exact (List.append_nil _).symm
  | some d => rfl

@[simp] theorem told_waiting (d : Option Delivery) (s : Desk T) :
    (told d s).waiting = s.waiting ++ d.toList := by
  cases d with
  | none => exact (List.append_nil _).symm
  | some d => rfl

/-- what was scheduled is waiting or has ended, and well -/
structure Accounts (s : Desk T) : Prop where
  pending : s.scheduled.Perm (s.ended.map (·.delivery) ++ s.waiting)
  clean : ∀ e ∈ s.ended, e.Clean

theorem Accounts.told {s : Desk T} (h : s.Accounts) (d : Option Delivery) : (told d s).Accounts where
  pending := by
    rw [told_scheduled, told_ended, told_waiting, ← List.append_assoc]
    exact h.pending.append_right _
  clean := by
    rw [told_ended]
    exact h.clean

theorem Accounts.deliver {w : Logged (Desk T)} (h : w.state.Accounts) (i : Nat) :
    ((Desk.deliver i).runOn w).2.state.Accounts := by
  cases hi : w.state.waiting[i]? with
  | none =>
    rw [deliver_none hi]
    exact h
  | some d =>
    obtain ⟨hscheduled, e, rfl, hclean, hrun⟩ := deliver_eq hi
    obtain ⟨hlt, hget⟩ := List.getElem?_eq_some_iff.mp hi
    rw [hrun]
    constructor
    · show w.state.scheduled.Perm
        ((w.state.ended ++ [e]).map (·.delivery) ++ Courier.scheduled _)
      rw [hscheduled, List.map_append, List.append_assoc, List.map_singleton, List.singleton_append,
        ← hget]
      exact h.pending.trans ((List.getElem_cons_eraseIdx_perm hlt).symm.append_left _)
    · intro e' he'
      rcases List.mem_append.mp he' with he' | he'
      · exact h.clean e' he'
      · rw [List.mem_singleton.mp he']
        exact hclean

end Desk

/-- Queries, and the same queries untold, after the same moves: what is told is what the untold ones
answer, and the deliveries are accounted for. -/
structure Mirror (queries : List ToldQuery) (already : List Delivery) (u : Underway (Desk T))
    (v : Underway T) : Prop where
  world : u.world.state.inner = v.world
  length : u.tasks.length = queries.length
  length' : v.tasks.length = queries.length
  task {i : Nat} {q : ToldQuery} {t' : Task (Desk T) PagedResponse} {t : Task T PagedResponse}
    (hq : queries[i]? = some q) (ht' : u.tasks[i]? = some t') (ht : v.tasks[i]? = some t) :
    t'.Mirrors q.delivery t
  scheduled : u.world.state.scheduled.Perm (already ++ deliveries queries v.tasks)
  accounts : u.world.state.Accounts

namespace Mirror

variable {queries : List ToldQuery} {already : List Delivery} {u : Underway (Desk T)} {v : Underway T}

theorem step (h : Mirror queries already u v) (i : Nat) :
    Mirror queries already (u.step i) (v.step i) := by
  unfold Underway.step
  by_cases hi : i < queries.length
  · obtain ⟨q, hq⟩ : ∃ q, queries[i]? = some q := ⟨_, List.getElem?_eq_getElem hi⟩
    obtain ⟨t', ht'⟩ : ∃ t', u.tasks[i]? = some t' :=
      ⟨_, List.getElem?_eq_getElem (h.length.symm ▸ hi)⟩
    obtain ⟨t, ht⟩ : ∃ t, v.tasks[i]? = some t := ⟨_, List.getElem?_eq_getElem (h.length'.symm ▸ hi)⟩
    have hmirrors := h.task hq ht' ht
    rw [ht', ht]
    dsimp only
    cases t' with
    | finished result =>
      -- a step of a task that has ended changes nothing
      cases hmirrors
      show Mirror queries already ⟨u.tasks.set i (.finished result), u.world⟩
        ⟨v.tasks.set i (.finished result), v.world⟩
      rw [set_same ht', set_same ht]
      exact h
    | waiting next' world' =>
      obtain ⟨next, world, rfl, hnext⟩ := hmirrors
      obtain ⟨hstate, hrest⟩ := hnext u.world
      rw [h.world] at hstate hrest
      show Mirror queries already ⟨u.tasks.set i (next' u.world), world' u.world⟩
        ⟨v.tasks.set i (next v.world), world v.world⟩
      have hscheduled := h.scheduled.append_right ((next v.world).response?.map q.delivery).toList
      rw [List.append_assoc] at hscheduled
      constructor
      · rw [hstate, Desk.told_inner]
      · exact List.length_set.trans h.length
      · exact List.length_set.trans h.length'
      · intro j q' t'' t₀ hq' ht'' ht₀
        by_cases hji : i = j
        · subst hji
          rw [List.getElem?_set_self (h.length.symm ▸ hi), Option.some_inj] at ht''
          rw [List.getElem?_set_self (h.length'.symm ▸ hi), Option.some_inj] at ht₀
          rw [← ht'', ← ht₀, ← Option.some_inj.mp (hq.symm.trans hq')]
          exact hrest
        · rw [List.getElem?_set_ne hji] at ht'' ht₀
          exact h.task hq' ht'' ht₀
      · rw [hstate, Desk.told_scheduled]
        exact hscheduled.trans ((deliveries_set hq ht rfl _).symm.append_left _)
      · rw [hstate]
        have haccounts : ({ u.world.state with inner := world v.world } : Desk T).Accounts :=
          ⟨h.accounts.pending, h.accounts.clean⟩
        exact haccounts.told _
  · have ht' : u.tasks[i]? = none := List.getElem?_eq_none (h.length ▸ Nat.le_of_not_lt hi)
    have ht : v.tasks[i]? = none := List.getElem?_eq_none (h.length' ▸ Nat.le_of_not_lt hi)
    rw [ht', ht]
    exact h

theorem outside (h : Mirror queries already u v) (event : Happening T) :
    Mirror queries already (u.move Desk.perform (.outside event))
      (v.move Happening.untold (.outside event)) := by
  cases event with
  | deliver i =>
    obtain ⟨hinner, hscheduled⟩ := Desk.deliver_keeps i u.world
    exact ⟨hinner.trans h.world, h.length, h.length', h.task, hscheduled ▸ h.scheduled,
      h.accounts.deliver i⟩
  | transport reply closed =>
    exact ⟨h.world, h.length, h.length', h.task, h.scheduled, h.accounts.pending, h.accounts.clean⟩
  | meanwhile change =>
    refine ⟨?_, h.length, h.length', h.task, h.scheduled, h.accounts.pending, h.accounts.clean⟩
    exact congrArg (fun inner : Logged T => { inner with state := change inner.state }) h.world

theorem run (h : Mirror queries already u v) (moves : List (Move (Happening T))) :
    Mirror queries already (u.run Desk.perform moves) (v.run Happening.untold moves) := by
  induction moves generalizing u v with
  | nil => exact h
  | cons m moves ih =>
    cases m with
    | step i => exact ih (h.step i)
    | outside event => exact ih (h.outside event)

/-- of a query and the same query untold, both have ended with a result or neither has -/
theorem results (h : Mirror queries already u v) (i : Nat) (result : Outcome PagedResponse) :
    u.tasks[i]? = some (.finished result) ↔ v.tasks[i]? = some (.finished result) := by
  by_cases hi : i < queries.length
  · obtain ⟨q, hq⟩ : ∃ q, queries[i]? = some q := ⟨_, List.getElem?_eq_getElem hi⟩
    obtain ⟨t', ht'⟩ : ∃ t', u.tasks[i]? = some t' :=
      ⟨_, List.getElem?_eq_getElem (h.length.symm ▸ hi)⟩
    obtain ⟨t, ht⟩ : ∃ t, v.tasks[i]? = some t := ⟨_, List.getElem?_eq_getElem (h.length'.symm ▸ hi)⟩
    have hmirrors := h.task hq ht' ht
    rw [ht', ht, Option.some_inj, Option.some_inj]
    cases t' with
    | finished result' =>
      cases hmirrors
      constructor
      · rintro ⟨⟩; rfl
      · rintro ⟨⟩; rfl
    | waiting next' world' =>
      obtain ⟨next, world, rfl, -⟩ := hmirrors
      constructor
      · rintro ⟨⟩
      · rintro ⟨⟩
  · rw [List.getElem?_eq_none (h.length ▸ Nat.le_of_not_lt hi),
      List.getElem?_eq_none (h.length' ▸ Nat.le_of_not_lt hi)]
    simp

theorem start (b : Builder T) (hresolved : ∀ q ∈ queries, q.request.Resolved) (inner : Logged T)
    (courier : Logged Courier) (log : List LogEntry) :
    Mirror queries courier.state.scheduled
      ⟨queries.map fun q => (q.telling.builder b).task q.request q.maxLimit,
        ⟨⟨inner, courier, courier.state.scheduled, []⟩, log⟩⟩
      ⟨queries.map fun q => b.task q.request q.maxLimit, inner⟩ where
  world := rfl
  length := List.length_map _
  length' := List.length_map _
  task {i q t' t} hq ht' ht := by
    rw [List.getElem?_map, hq] at ht' ht
    cases ht'
    cases ht
    exact ToldQuery.task_mirrors (hresolved q (List.mem_of_getElem? hq)) b
  scheduled := by
    rw [deliveries_untouched, List.append_nil]
  accounts := ⟨List.Perm.refl _, fun e he => by cases he⟩

end Mirror

/-! ## draining -/

/-- Waiting until nothing is left to deliver, while anything may happen: as long as something is
waiting, for as many of its like to end as there are. -/
inductive Drained : Underway (Desk T) → List (Move (Happening T)) → Prop
  | done {u : Underway (Desk T)} (h : u.world.state.waiting = []) : Drained u []
  | round {u : Underway (Desk T)} {moves rest : List (Move (Happening T))} {new : List Ending}
    (hwaiting : u.world.state.waiting ≠ [])
    (hended : (u.run Desk.perform moves).world.state.ended = u.world.state.ended ++ new)
    (hall : u.world.state.waiting.Subperm (new.map (·.delivery)))
    (hrest : Drained (u.run Desk.perform moves) rest) : Drained u (moves ++ rest)

theorem Drained.waiting {u : Underway (Desk T)} {moves : List (Move (Happening T))}
    (h : Drained u moves) : (u.run Desk.perform moves).world.state.waiting = [] := by
  induction h with
  | done h => exact h
  | @round u moves rest new _ _ _ _ ih =>
    unfold Underway.run at ih ⊢
    rw [List.foldl_append]
    exact ih

namespace Courier

def scheduling (ds : List Delivery) (w : Logged Courier) : Logged Courier :=
  { w with state := { w.state with scheduled := ds } }

/-- what is done, and what it comes to, does not depend on what is scheduled -/
def Apart {α : Type} (a : Action Courier α) : Prop :=
  ∀ ds w, a.runOn (scheduling ds w) = ((a.runOn w).1, scheduling ds (a.runOn w).2)

namespace Apart

variable {α β : Type} {a : Action Courier α}

theorem bind {f : α → Action Courier β} (ha : Apart a) (hf : ∀ x, Apart (f x)) : Apart (a >>= f) := by
  intro ds w
  rw [Action.runOn_bind, Action.runOn_bind, ha ds w]
  rcases a.runOn w with ⟨e | x, after⟩
  · rfl
  · exact hf x ds after

theorem attempt (ha : Apart a) : Apart (Action.attempt a) := by
  intro ds w
  rw [Action.runOn_attempt, Action.runOn_attempt, ha ds w]

end Apart

theorem post_apart (d : Delivery) (body : String) : Apart (post d body) := by
  intro ds w
  unfold post
  rw [Action.runOn_bind, Action.runOn_bind, Action.runOn_read, Action.runOn_read]
  have hclosed : (scheduling ds w).state.closed = w.state.closed := rfl
  dsimp only
  rw [hclosed]
  split <;> rfl

/-- a delivery does not depend on what else is scheduled -/
theorem deliverQuietly_apart (d : Delivery) : Apart (deliverQuietly d) := by
  have hdeliver : Apart (deliver d) := by
    unfold deliver
    cases d.payload.body with
    | error f => exact fun _ _ => rfl
    | ok body =>
      refine (post_apart d body).bind fun reason? => ?_
      cases reason? <;> exact fun _ _ => rfl
  refine hdeliver.attempt.bind fun result => ?_
  cases result <;> exact fun _ _ => rfl

end Courier

namespace Desk

theorem run_replicate {ds : List Delivery} {u : Underway (Desk T)} (h : u.world.state.waiting = ds) :
    let after := u.run perform (List.replicate ds.length (.outside (.deliver 0)))
    (ds.forM Courier.deliverQuietly).runOn
        ⟨{ u.world.state.courier.state with scheduled := [] }, u.world.state.courier.log⟩
      = (.ok (), after.world.state.courier) ∧
    after.world.state.waiting = [] ∧
    ∃ new : List Ending, after.world.state.ended = u.world.state.ended ++ new ∧
      new.map (·.delivery) = ds := by
  induction ds generalizing u with
  | nil =>
    refine ⟨?_, h, [], (List.append_nil _).symm, rfl⟩
    obtain ⟨tasks, ⟨⟨inner, ⟨⟨reply, closed, scheduled, posts⟩, clog⟩, ever, ended⟩, log⟩⟩ := u
    cases h
    rfl
  | cons d ds ih =>
    -- while `d` is made the others are scheduled here, and nothing is in a drain, so `Apart` is needed
    let first := u.move perform (.outside (.deliver 0))
    let courier : Courier := { u.world.state.courier.state with scheduled := ds }
    let made := (Courier.deliverQuietly d).runOn ⟨courier, u.world.state.courier.log⟩
    have hfirst : u.world.state.waiting[0]? = some d := h ▸ rfl
    obtain ⟨hscheduled, e, he, -, hrun⟩ := deliver_eq hfirst
    rw [h] at hscheduled hrun
    replace hrun : first.world.state
        = { u.world.state with courier := made.2, ended := u.world.state.ended ++ [e] } := hrun
    have hwaiting : first.world.state.waiting = ds := by
      rw [hrun]
      exact hscheduled
    obtain ⟨hrest, hnone, new, hended, hnew⟩ := ih hwaiting
    have hmade : (Courier.deliverQuietly d).runOn
          ⟨{ u.world.state.courier.state with scheduled := [] }, u.world.state.courier.log⟩
        = (.ok (), ⟨{ made.2.state with scheduled := [] }, made.2.log⟩) :=
      (Courier.deliverQuietly_apart d [] ⟨courier, u.world.state.courier.log⟩).trans
        (congrArg (fun raised => (raised, _)) (Courier.deliverQuietly_ok d _))
    refine ⟨?_, hnone, e :: new, ?_, ?_⟩
    · show (Courier.deliverQuietly d >>= fun _ => ds.forM Courier.deliverQuietly).runOn _ = _
      rw [Action.runOn_bind, hmade]
      rw [hrun] at hrest
      exact hrest
    · rw [hrun] at hended
      exact hended.trans (List.append_assoc ..)
    · rw [List.map_cons, he, hnew]

/-- making what is waiting in turn leaves nothing to wait for, and is what draining comes to -/
theorem drained_replicate (u : Underway (Desk T)) :
    let moves := List.replicate u.world.state.waiting.length (.outside (.deliver 0))
    Drained u moves ∧ Courier.drain.runOn u.world.state.courier
      = (.ok (), (u.run perform moves).world.state.courier) := by
  intro moves
  obtain ⟨hdrain, hnone, new, hended, hnew⟩ := run_replicate (u := u) rfl
  refine ⟨?_, hdrain⟩
  by_cases hwaiting : u.world.state.waiting = []
  · have hmoves : moves = [] := by
      show List.replicate u.world.state.waiting.length _ = []
      rw [hwaiting]
      rfl
    rw [hmoves]
    exact .done hwaiting
  · rw [← List.append_nil moves]
    exact .round hwaiting hended (hnew.symm ▸ List.Subperm.refl _) (.done hnone)

/-- Take queries whose answers are told, each in steps.  After any steps of the queries, with the
waiting deliveries made in any order in between, whatever the receivers answer and whether or not the
client has been closed, the builder inside is as it would be if nothing were told, and every query has
the same result.  For each query that has ended with an answer one delivery was scheduled, and for the
others none.  Every delivery is waiting or has ended: with one post that was taken and no error, or
with one error.  Waiting until nothing is left to deliver, with anything happening meanwhile, ends with
nothing waiting and all that was ever scheduled ended; and making what is waiting in turn, which is
what draining comes to, is such a wait. -/
theorem never_lost (b : Builder T) {queries : List ToldQuery}
    (hresolved : ∀ q ∈ queries, q.request.Resolved) (start : Logged T) (courier : Logged Courier)
    (log : List LogEntry) (moves : List (Move (Happening T))) :
    let told := queries.map fun q => (q.telling.builder b).task q.request q.maxLimit
    let untold := queries.map fun q => b.task q.request q.maxLimit
    let desk : Desk T := ⟨start, courier, courier.state.scheduled, []⟩
    let after := Underway.run perform ⟨told, ⟨desk, log⟩⟩ moves
    let plain := Underway.run Happening.untold ⟨untold, start⟩ moves
    let s := after.world.state
    (s.inner = plain.world ∧ ∀ (i : Nat) (result : Outcome PagedResponse),
      after.tasks[i]? = some (.finished result) ↔ plain.tasks[i]? = some (.finished result)) ∧
    s.scheduled.Perm (courier.state.scheduled ++ deliveries queries plain.tasks) ∧
    s.scheduled.Perm (s.ended.map (·.delivery) ++ s.waiting) ∧
    s.waiting.length = s.scheduled.length - s.ended.length ∧
    (∀ e ∈ s.ended, e.Clean) ∧
    (∀ more, Drained after more →
      let drained := (after.run perform more).world.state
      drained.waiting = [] ∧ drained.scheduled.Perm (drained.ended.map (·.delivery))) ∧
    let inTurn := List.replicate s.waiting.length (.outside (.deliver 0))
    Drained after inTurn ∧
      Courier.drain.runOn s.courier = (.ok (), (after.run perform inTurn).world.state.courier) := by
  intro told untold desk after plain s
  have hafter := (Mirror.start b hresolved start courier log).run moves
  refine ⟨⟨hafter.world, hafter.results⟩, hafter.scheduled, hafter.accounts.pending, ?_,
    hafter.accounts.clean, ?_, drained_replicate after⟩
  · have hlength : s.scheduled.length = s.ended.length + s.waiting.length := by
      simpa using hafter.accounts.pending.length_eq
    omega
  · intro more hdrained
    have hpending := (hafter.run more).accounts.pending
    have hwaiting := hdrained.waiting
    rw [hwaiting, List.append_nil] at hpending
    exact ⟨hwaiting, hpending⟩

/-- Four queries: the second has no model, and the answer to the third holds a value without a JSON
form.  Its delivery is made first, and that of the last one fails. -/
theorem never_lost_four :
    let b : Builder Store := .base {} (.ofStore id)
    let rows : List Value := [.record [("n", .int 1)], .record [("n", .int 2)]]
    let telling : Telling := ⟨"https://a", [("X-Key", .str "k")], false, true, default⟩
    let queries : List ToldQuery := [⟨{ model := some "m" }, .null, telling⟩, ⟨{}, .null, telling⟩,
      ⟨{ model := some "odd" }, .null, { telling with ownClient := true }⟩,
      ⟨{ model := some "m", page := some 2, limit := some 1 }, .null, telling⟩]
    let start : Logged Store := ⟨⟨[(.str "m", rows), (.str "odd", [.object []])]⟩, []⟩
    let courier : Logged Courier := ⟨{}, []⟩
    let moves : List (Move (Happening Store)) := [.step 0, .step 1, .step 2, .step 3, .step 0, .step 2,
      .step 0, .step 3, .step 2, .outside (.deliver 1), .outside (.meanwhile fun _ => ⟨[]⟩),
      .outside (.deliver 0), .outside (.transport (.status 500) true), .step 3]
    let told := queries.map fun q => (q.telling.builder b).task q.request q.maxLimit
    let desk : Desk Store := ⟨start, courier, courier.state.scheduled, []⟩
    let after := Underway.run perform ⟨told, ⟨desk, []⟩⟩ moves
    let s := after.world.state
    let inTurn := List.replicate s.waiting.length (.outside (.deliver 0))
    (∀ q ∈ queries, q.request.Resolved) ∧
      (after.tasks.map fun t => t.response?.map (·.data.length)) = [some 2, none, some 1, some 1] ∧
      s.scheduled.length = 3 ∧ s.ended.length = 2 ∧ s.waiting.length = 1 ∧
      (∀ e ∈ s.ended, e.Clean) ∧ (after.run perform inTurn).world.state.waiting = [] := by
  intro b rows telling queries start courier moves told desk after s inTurn
  have hresolved : ∀ q ∈ queries, q.request.Resolved := by
    intro q hq
    have hplain : q.request.filters = [] ∧ q.request.relationFilters = [] ∧
        q.request.orFilters = [] ∧ q.request.notFilters = [] := by
      simp only [queries, List.mem_cons, List.not_mem_nil, or_false] at hq
      rcases hq with rfl | rfl | rfl | rfl <;> exact ⟨rfl, rfl, rfl, rfl⟩
    obtain ⟨hfilters, hrelations, hgroups, hexcluded⟩ := hplain
    constructor
    · simp [hfilters]
    · simp [hrelations]
    · simp [hgroups]
    · simp [hexcluded]
  obtain ⟨-, hscheduled, -, hwaiting, hclean, hdrained, hinTurn, -⟩ :=
    never_lost b hresolved start courier [] moves
  have hthree := hscheduled.length_eq.trans (by decide +kernel : _ = 3)
  have htwo : s.ended.length = 2 := by decide +kernel
  dsimp only [inTurn, s, after, desk, told] at htwo ⊢
  refine ⟨hresolved, by decide +kernel, hthree, htwo, ?_, hclean, (hdrained _ hinTurn).1⟩
  exact hwaiting.trans (congrArg₂ (· - ·) hthree htwo)

end Desk

end ListQuery
