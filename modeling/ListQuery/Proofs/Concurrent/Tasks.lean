import Mathlib.Data.List.Forall2
import ListQuery.Builder.Basic

/-!
# Queries side by side

A query that is made next to others is a task: it is made in steps, and between any two of them steps
of other tasks may be made, or something else may happen to the state.  What a task comes to in every
such order rests on an invariant of the state, which each step of each task keeps whatever state that
has the invariant it is made in.

* `Task`, `Task.step`, `Task.alone`   tasks, and a task whose steps are made in one go;
* `Prepared.task`, `Builder.task`     the steps of a query;
* `Underway`, `Move`                  tasks and the state that they work on, and one thing that happens;
* `answered`                          the queries that have ended with an answer;
* `Action.Gives`, `Task.Gives`        never fails, keeps an invariant, and ends within some steps;
* `Underway.gives_run`                any number of tasks after any moves;
* `Builder.batch_gives`               the queries of a batch.
-/

namespace ListQuery

variable {S α β : Type}

/-! ## tasks -/

/-- a computation in steps -/
inductive Task (S α : Type) where
  | finished (result : Outcome α)
  /-- what the next step leaves to do, and what it makes of the state -/
  | waiting (next : Logged S → Task S α) (world : Logged S → Logged S)

namespace Task

def bind : Task S α → (α → Task S β) → Task S β
  | finished (.ok x), f => f x
  | finished (.error e), _ => finished (.error e)
  | waiting next world, f => waiting (fun w => (next w).bind f) world

instance : Monad (Task S) where
  pure x := finished (.ok x)
  bind := bind

def step (a : Action S α) : Task S α :=
  waiting (fun w => finished (a.runOn w).1) fun w => (a.runOn w).2

/-- the task after its next step, and the state after it -/
def advance : Task S α → Logged S → Task S α × Logged S
  | finished result, w => (finished result, w)
  | waiting next world, w => (next w, world w)

/-- all steps in one go -/
def alone : Task S α → Action S α
  | finished result => Action.ofOutcome result
  | waiting next world => Action.ofRun fun w => (next w).alone.runOn (world w)

theorem alone_step (a : Action S α) : (step a).alone = a := rfl

theorem alone_bind (t : Task S α) (f : α → Task S β) :
    (t >>= f).alone = t.alone >>= fun x => (f x).alone := by
  show (t.bind f).alone = _
  induction t with
  | finished result => cases result <;> rfl
  | waiting next world ih =>
    funext w
    show ((next w).bind f).alone.runOn (world w) = _
    rw [ih w, Action.runOn_bind]
    exact (Action.runOn_bind (waiting next world).alone _ w).symm

end Task

/-- the fetch of a prepared query if it has no answer yet, and then its conclusion -/
def Prepared.task : Prepared S → Task S PagedResponse
  | .answered response => return response
  | .fetching fetch => do Task.step (← Task.step fetch)

/-- a query: its preparation, and what is left of it then -/
def Builder.task (b : Builder S) (r : Request) (maxLimit : Value) : Task S PagedResponse := do
  (← Task.step (b.prepare r maxLimit)).task

theorem Prepared.task_alone (p : Prepared S) : p.task.alone = p.complete := by
  cases p with
  | answered response => rfl
  | fetching fetch => exact Task.alone_bind _ _

theorem Builder.task_alone (b : Builder S) (r : Request) (maxLimit : Value) :
    (b.task r maxLimit).alone = b.query r maxLimit :=
  (Task.alone_bind _ _).trans (congrArg (b.prepare r maxLimit >>= ·) (funext Prepared.task_alone))

/-! ## tasks underway -/

inductive Move (E : Type) where
  | step (i : Nat)
  | outside (event : E)

def Move.steps {E : Type} (i : Nat) (moves : List (Move E)) : Nat :=
  moves.countP fun
    | .step j => j == i
    | .outside _ => false

structure Underway (S : Type) where
  tasks : List (Task S PagedResponse)
  world : Logged S

namespace Underway

variable {E : Type} (perform : E → Action S Unit)

/-- one step of a task; nothing happens where there is no such task, or nothing is left of it -/
def step (u : Underway S) (i : Nat) : Underway S :=
  match u.tasks[i]? with
  | none => u
  | some t => ⟨u.tasks.set i (t.advance u.world).1, (t.advance u.world).2⟩

def move (u : Underway S) : Move E → Underway S
  | .step i => u.step i
  | .outside event => { u with world := ((perform event).runOn u.world).2 }

def run (u : Underway S) (moves : List (Move E)) : Underway S := moves.foldl (move perform) u

theorem length_step (u : Underway S) (i : Nat) : (u.step i).tasks.length = u.tasks.length := by
  unfold step
  split
  · rfl
  · exact List.length_set

theorem length_run (u : Underway S) (moves : List (Move E)) :
    (u.run perform moves).tasks.length = u.tasks.length := by
  induction moves generalizing u with
  | nil => rfl
  | cons m moves ih =>
    refine (ih (u.move perform m)).trans ?_
    cases m with
    | step i => exact length_step u i
    | outside event => rfl

end Underway

/-! ## answers -/

def Task.response? {S : Type} : Task S PagedResponse → Option PagedResponse
  | .finished result => result.toOption
  | .waiting _ _ => none

def answered {Q : Type} : List Q → List (Task S PagedResponse) → List (Q × PagedResponse)
  | q :: queries, t :: tasks => (t.response?.map (q, ·)).toList ++ answered queries tasks
  | _, _ => []

section Answered

variable {Q : Type} {queries : List Q}

theorem answered_untouched {task : Q → Task S PagedResponse} (h : ∀ q, (task q).response? = none) :
    answered queries (queries.map task) = [] := by
  induction queries with
  | nil => rfl
  | cons q queries ih =>
    rw [List.map_cons, answered, h, ih]
    rfl

theorem answered_set {tasks : List (Task S PagedResponse)} {i : Nat} {q : Q}
    {t : Task S PagedResponse} (hq : queries[i]? = some q) (ht : tasks[i]? = some t)
    (hnone : t.response? = none) (t' : Task S PagedResponse) :
    (answered queries (tasks.set i t')).Perm
      (answered queries tasks ++ (t'.response?.map (q, ·)).toList) := by
  induction queries generalizing tasks i with
  | nil => simp at hq
  | cons q₀ queries ih =>
    cases tasks with
    | nil => simp at ht
    | cons t₀ tasks =>
      cases i with
      | zero =>
        cases hq
        cases ht
        rw [List.set_cons_zero, answered, answered, hnone]
        exact List.perm_append_comm
      | succ i =>
        rw [List.set_cons_succ, answered, answered, List.append_assoc]
        exact (ih hq ht).append_left _

end Answered

theorem set_same {α : Type} {xs : List α} {i : Nat} {x : α} (h : xs[i]? = some x) :
    xs.set i x = xs := by
  obtain ⟨hlt, rfl⟩ := List.getElem?_eq_some_iff.mp h
  exact List.set_getElem_self hlt

/-! ## what never fails -/

/-- where the invariant holds the action does not fail, and it holds again afterwards -/
def Action.Gives (inv : S → Prop) (post : α → Prop) (a : Action S α) : Prop :=
  ∀ w, inv w.state → ∃ x after, a.runOn w = (.ok x, after) ∧ inv after.state ∧ post x

namespace Action.Gives

variable {inv : S → Prop} {post : α → Prop} {next : β → Prop} {a : Action S α}

theorem pure {x : α} (h : post x) : Gives inv post (Pure.pure x : Action S α) :=
  fun w hw => ⟨x, w, rfl, hw, h⟩

theorem ofOutcome {x : α} (h : post x) : Gives inv post (Action.ofOutcome (.ok x) : Action S α) :=
  fun w hw => ⟨x, w, rfl, hw, h⟩

theorem report (source : String) (severity : Severity) (message : String) :
    Gives inv (fun _ => True) (Action.report source severity message : Action S Unit) :=
  fun _ hw => ⟨(), _, rfl, hw, trivial⟩

theorem update {f : S → S} (h : ∀ s, inv s → inv (f s)) :
    Gives inv (fun _ => True) (Action.update f) :=
  fun w hw => ⟨(), _, rfl, h w.state hw, trivial⟩

theorem bind {f : α → Action S β} (ha : Gives inv post a)
    (hf : ∀ x, post x → Gives inv next (f x)) : Gives inv next (a >>= f) := by
  intro w hw
  obtain ⟨x, after, hrun, hafter, hx⟩ := ha w hw
  obtain ⟨y, later, hnext, hlater, hy⟩ := hf x hx after hafter
  refine ⟨y, later, ?_, hlater, hy⟩
  rw [runOn_bind, hrun]
  exact hnext

theorem map {f : α → β} (ha : Gives inv post a) (h : ∀ x, post x → next (f x)) :
    Gives inv next (f <$> a) := by
  rw [map_eq_pure_bind]
  exact ha.bind fun x hx => pure (h x hx)

theorem attempt (ha : Gives inv post a) :
    Gives inv (fun outcome => ∃ x, outcome = .ok x ∧ post x) (Action.attempt a) := by
  intro w hw
  obtain ⟨x, after, hrun, hafter, hx⟩ := ha w hw
  refine ⟨.ok x, after, ?_, hafter, x, rfl, hx⟩
  rw [runOn_attempt, hrun]

theorem mapM {ι κ : Type} {related : ι → κ → Prop} {post : ι → α → Prop} {f : κ → Action S α}
    {is : List ι} {ks : List κ} (h : List.Forall₂ related is ks)
    (hf : ∀ i k, related i k → Gives inv (post i) (f k)) :
    Gives inv (List.Forall₂ post is) (ks.mapM f) := by
  induction h with
  | nil => exact pure .nil
  | cons hik _ ih =>
    rw [List.mapM_cons]
    exact (hf _ _ hik).bind fun x hx => ih.bind fun xs hxs => pure (.cons hx hxs)

end Action.Gives

def Prepared.Gives (inv : S → Prop) (post : PagedResponse → Prop) : Prepared S → Prop
  | .answered response => post response
  | .fetching fetch => fetch.Gives inv fun conclude => conclude.Gives inv post

/-- no step of a query fails, whatever happens between them as long as the invariant is kept -/
def Builder.Gives (inv : S → Prop) (post : PagedResponse → Prop) (b : Builder S) (r : Request) : Prop :=
  (b.prepare r .null).Gives inv (Prepared.Gives inv post)

theorem Prepared.Gives.andThen {inv : S → Prop} {post post' : PagedResponse → Prop} {p : Prepared S}
    {next : PagedResponse → Action S PagedResponse} (hp : p.Gives inv post)
    (hnext : ∀ response, post response → (next response).Gives inv post') :
    (p.andThen next).Gives inv (Prepared.Gives inv post') := by
  cases p with
  | answered response => exact (hnext response hp).map fun _ h => h
  | fetching fetch =>
    refine .pure ?_
    show (fetch >>= fun conclude => pure (conclude >>= next)).Gives inv _
    exact hp.bind fun conclude hconclude => .pure (hconclude.bind hnext)

/-- never fails, keeps the invariant with each step, and ends within a number of them -/
def Task.Gives (inv : S → Prop) (post : α → Prop) : Task S α → Nat → Prop
  | finished result, _ => ∃ x, result = .ok x ∧ post x
  | waiting next world, n =>
    0 < n ∧ ∀ w, inv w.state → inv (world w).state ∧ (next w).Gives inv post (n - 1)

namespace Task.Gives

variable {inv : S → Prop} {post : α → Prop} {next : β → Prop} {t : Task S α} {n m : Nat}

theorem pure {x : α} (h : post x) : Gives inv post (Pure.pure x : Task S α) n := ⟨x, rfl, h⟩

theorem mono (h : t.Gives inv post n) (hle : n ≤ m) : t.Gives inv post m := by
  induction t generalizing n m with
  | finished result => exact h
  | waiting next world ih =>
    obtain ⟨hpos, hnext⟩ := h
    refine ⟨by omega, fun w hw => ⟨(hnext w hw).1, ih w (hnext w hw).2 (by omega)⟩⟩

theorem weaken {post' : α → Prop} (ht : t.Gives inv post n) (h : ∀ x, post x → post' x) :
    t.Gives inv post' n := by
  induction t generalizing n with
  | finished result =>
    obtain ⟨x, rfl, hx⟩ := ht
    exact ⟨x, rfl, h x hx⟩
  | waiting next world ih => exact ⟨ht.1, fun w hw => ⟨(ht.2 w hw).1, ih w (ht.2 w hw).2⟩⟩

theorem step {a : Action S α} (h : a.Gives inv post) : (Task.step a).Gives inv post 1 := by
  refine ⟨Nat.one_pos, fun w hw => ?_⟩
  obtain ⟨x, after, hrun, hafter, hx⟩ := h w hw
  show inv (a.runOn w).2.state ∧ Gives inv post (finished (a.runOn w).1) 0
  rw [hrun]
  exact ⟨hafter, x, rfl, hx⟩

theorem bind {f : α → Task S β} (ht : t.Gives inv post n)
    (hf : ∀ x, post x → (f x).Gives inv next m) : (t >>= f).Gives inv next (n + m) := by
  show (t.bind f).Gives inv next (n + m)
  induction t generalizing n with
  | finished result =>
    obtain ⟨x, rfl, hx⟩ := ht
    exact (hf x hx).mono (Nat.le_add_left m n)
  | waiting rest world ih =>
    obtain ⟨hpos, hrest⟩ := ht
    refine ⟨by omega, fun w hw => ⟨(hrest w hw).1, ?_⟩⟩
    have hlater := ih w (hrest w hw).2
    rwa [show n - 1 + m = n + m - 1 by omega] at hlater

theorem advance {w : Logged S} (h : t.Gives inv post n) (hw : inv w.state) :
    inv (t.advance w).2.state ∧ (t.advance w).1.Gives inv post (n - 1) := by
  cases t with
  | finished result => exact ⟨hw, h⟩
  | waiting next world => exact h.2 w hw

theorem ended (h : t.Gives inv post 0) : ∃ x, t = .finished (.ok x) ∧ post x := by
  cases t with
  | finished result =>
    obtain ⟨x, rfl, hx⟩ := h
    exact ⟨x, rfl, hx⟩
  | waiting next world => exact absurd h.1 (Nat.lt_irrefl 0)

end Task.Gives

namespace Builder

variable {inv : S → Prop} {post : PagedResponse → Prop} {b : Builder S} {r : Request}

theorem Gives.task (h : b.Gives inv post r) : (b.task r .null).Gives inv post 3 := by
  refine (Task.Gives.step h).bind (m := 2) fun p hp => ?_
  cases p with
  | answered response => exact .pure hp
  | fetching fetch => exact (Task.Gives.step hp).bind fun conclude hconclude => .step hconclude

/-! ## batches -/

theorem fetchOf_gives {p : Prepared S} (hp : p.Gives inv post) :
    (fetchOf p).Gives inv fun conclude => conclude.Gives inv post := by
  cases p with
  | answered response => exact .pure (.pure hp)
  | fetching fetch => exact hp

theorem mapM_id_ok {ι κ : Type} {post : ι → κ → Prop} {is : List ι} {results : List (Outcome κ)}
    (h : List.Forall₂ (fun i result => ∃ x, result = .ok x ∧ post i x) is results) :
    ∃ xs, results.mapM id = .ok xs ∧ List.Forall₂ post is xs := by
  induction h with
  | nil => exact ⟨[], rfl, .nil⟩
  | cons hx _ ih =>
    obtain ⟨x, rfl, hpost⟩ := hx
    obtain ⟨xs, hxs, hrest⟩ := ih
    refine ⟨x :: xs, ?_, .cons hpost hrest⟩
    rw [List.mapM_cons, hxs]
    rfl

/-- a batch of queries none of which fails, whatever else is done while they fetch -/
theorem batch_gives {answer : Request → PagedResponse} {meanwhile : Action S Unit}
    {queries : List (String × Request)} (hmeanwhile : meanwhile.Gives inv fun _ => True)
    (h : ∀ q ∈ queries, b.Gives inv (· = answer q.2) q.2) :
    (b.batch meanwhile queries).Gives inv
      (· = named ((queries.map (·.1)).zip (queries.map fun q => answer q.2))) := by
  have hself : List.Forall₂ (fun q q' => q ∈ queries ∧ q = q') queries queries :=
    List.forall₂_same.mpr fun q hq => ⟨hq, rfl⟩
  have hprepare : ∀ q q', q ∈ queries ∧ q = q' →
      (Action.attempt (b.prepare q'.2 .null)).Gives inv
        fun result => ∃ p, result = .ok p ∧ p.Gives inv (· = answer q.2) := by
    rintro q _ ⟨hq, rfl⟩
    exact (h q hq).attempt
  have hfetch : ∀ (q : String × Request) (result : Outcome (Prepared S)),
      (∃ p, result = .ok p ∧ p.Gives inv (· = answer q.2)) →
      (Action.attempt do fetchOf (← Action.ofOutcome result)).Gives inv
        fun result => ∃ conclude, result = .ok conclude ∧ conclude.Gives inv (· = answer q.2) := by
    rintro q _ ⟨p, rfl, hp⟩
    exact ((Action.Gives.ofOutcome hp).bind fun p hp => fetchOf_gives hp).attempt
  have hconclude : ∀ (q : String × Request) (conclude : Action S PagedResponse),
      conclude.Gives inv (· = answer q.2) → conclude.attempt.Gives inv
        fun result => ∃ response, result = .ok response ∧ response = answer q.2 :=
    fun q conclude hgives => hgives.attempt
  refine (Action.Gives.mapM hself hprepare).bind fun prepared hprepared => ?_
  refine (Action.Gives.mapM hprepared hfetch).bind fun fetched hfetched => ?_
  refine hmeanwhile.bind fun _ _ => ?_
  obtain ⟨conclusions, hok, hconclusions⟩ := mapM_id_ok hfetched
  rw [hok]
  refine (Action.Gives.ofOutcome hconclusions).bind fun conclusions hconclusions => ?_
  refine (Action.Gives.mapM hconclusions hconclude).bind fun answers hanswers => ?_
  obtain ⟨responses, hok, hresponses⟩ := mapM_id_ok hanswers
  rw [hok]
  refine (Action.Gives.ofOutcome hresponses).bind fun responses hresponses => .pure ?_
  have heq : responses = queries.map fun q => answer q.2 := by
    rw [← List.forall₂_eq_eq_eq, List.forall₂_map_right_iff]
    exact hresponses.flip
  rw [heq]

end Builder

/-! ## any number of tasks -/

namespace Underway

variable {E : Type} {perform : E → Action S Unit} {inv : S → Prop}
  {post : Nat → PagedResponse → Prop} {left : Nat → Nat} {u : Underway S}

/-- the invariant holds, and every task keeps it and ends within the steps that are left to it -/
structure Gives (inv : S → Prop) (post : Nat → PagedResponse → Prop) (left : Nat → Nat)
    (u : Underway S) : Prop where
  world : inv u.world.state
  task {i : Nat} {t : Task S PagedResponse} (h : u.tasks[i]? = some t) : t.Gives inv (post i) (left i)

theorem Gives.mono {fewer : Nat → Nat} (h : u.Gives inv post fewer) (hle : ∀ i, fewer i ≤ left i) :
    u.Gives inv post left :=
  ⟨h.world, fun ht => (h.task ht).mono (hle _)⟩

theorem Gives.step (h : u.Gives inv post left) (i : Nat) :
    (u.step i).Gives inv post fun j => if j = i then left j - 1 else left j := by
  unfold Underway.step
  cases hi : u.tasks[i]? with
  | none =>
    refine ⟨h.world, fun {j t} ht => ?_⟩
    have hne : j ≠ i := by
      rintro rfl
      exact absurd (ht.symm.trans hi) (by simp)
    rw [if_neg hne]
    exact h.task ht
  | some t =>
    obtain ⟨hworld, hadvance⟩ := (h.task hi).advance h.world
    refine ⟨hworld, fun {j t'} ht' => ?_⟩
    replace ht' : (u.tasks.set i (t.advance u.world).1)[j]? = some t' := ht'
    by_cases hji : j = i
    · subst hji
      have hlt : j < u.tasks.length := (List.getElem?_eq_some_iff.mp hi).1
      rw [List.getElem?_set_self hlt, Option.some_inj] at ht'
      rw [if_pos rfl, ← ht']
      exact hadvance
    · rw [List.getElem?_set_ne (Ne.symm hji)] at ht'
      rw [if_neg hji]
      exact h.task ht'

theorem Gives.move (h : u.Gives inv post left) (m : Move E)
    (hout : ∀ event, m = .outside event → (perform event).Gives inv fun _ => True) :
    (u.move perform m).Gives inv post fun i => left i - Move.steps i [m] := by
  cases m with
  | outside event =>
    obtain ⟨_, after, hrun, hafter, _⟩ := hout event rfl u.world h.world
    have hmove : u.move perform (.outside event) = { u with world := after } := by
      rw [Underway.move, hrun]
    rw [hmove]
    exact ⟨hafter, h.task⟩
  | step i =>
    refine (h.step i).mono fun j => ?_
    by_cases hji : j = i
    · simp [Move.steps, hji]
    · simp [Move.steps, hji, Ne.symm hji]

/-- after any moves the invariant holds, and fewer steps are left to the tasks that made some -/
theorem gives_run {moves : List (Move E)} (h : u.Gives inv post left)
    (hout : ∀ event, .outside event ∈ moves → (perform event).Gives inv fun _ => True) :
    (u.run perform moves).Gives inv post fun i => left i - Move.steps i moves := by
  induction moves generalizing u left with
  | nil => exact h
  | cons m moves ih =>
    have hfirst := h.move m fun event he => hout event (he ▸ List.mem_cons_self)
    have hrest := ih hfirst fun event he => hout event (List.mem_cons_of_mem m he)
    refine hrest.mono fun i => ?_
    have hsteps : Move.steps i (m :: moves) = Move.steps i [m] + Move.steps i moves := by
      rw [← List.singleton_append]
      exact List.countP_append
    omega

end Underway

end ListQuery
