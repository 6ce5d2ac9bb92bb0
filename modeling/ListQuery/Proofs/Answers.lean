import ListQuery.Builder.Stored
import ListQuery.Builder.Scoped

/-!
# Answers from collections

A builder over collections in memory only reads them.  Here its answers are written as functions of
the collections, so that what is proved of them needs no state and no log.

* `Action.Reads`       the action answers from the state and leaves it as it is;
* `Store.answerPage`, `answerWindow`, `answerCount`, `answerAggregate`
                       the four answers of the builder at the base;
* `Store.answerWalk`   the windows of a cursor walk;
* `base_query`, `base_cursorQuery`, `base_count`, `base_aggregate`, `base_walk`
                       the builder over collections gives these answers;
* `inScope_query`, …   a builder with a scope gives those to the request within the scope.
-/

namespace ListQuery

/-! ## actions that only read -/

/-- the action answers from the state alone, and leaves it as it is -/
def Action.Reads {S α : Type} (a : Action S α) (answer : S → Outcome α) : Prop :=
  ∀ w, (a.runOn w).1 = answer w.state ∧ (a.runOn w).2.state = w.state

namespace Action.Reads

variable {S α β : Type}

theorem lift (x : Outcome α) : Reads (liftM x : Action S α) fun _ => x :=
  fun _ => ⟨rfl, rfl⟩

theorem pure (x : α) : Reads (Pure.pure x : Action S α) fun _ => .ok x :=
  fun _ => ⟨rfl, rfl⟩

theorem read : Reads (Action.read : Action S S) fun s => .ok s :=
  fun _ => ⟨rfl, rfl⟩

theorem report (source : String) (severity : Severity) (message : String) :
    Reads (Action.report source severity message : Action S Unit) fun _ => .ok () :=
  fun _ => ⟨rfl, rfl⟩

theorem attempt {a : Action S α} {answer : S → Outcome α} (h : Reads a answer) :
    Reads (Action.attempt a) fun s => .ok (answer s) := by
  intro w
  rw [runOn_attempt]
  exact ⟨congrArg Except.ok (h w).1, (h w).2⟩

theorem bind {a : Action S α} {answer : S → Outcome α} {f : α → Action S β}
    {next : α → S → Outcome β} (ha : Reads a answer) (hf : ∀ x, Reads (f x) (next x)) :
    Reads (a >>= f) (fun s => answer s >>= fun x => next x s) := by
  intro w
  obtain ⟨hanswer, hstate⟩ := ha w
  show _ = (answer w.state >>= fun x => next x w.state) ∧ _
  rw [runOn_bind, ← hanswer]
  rcases h : a.runOn w with ⟨x | x, after⟩
  · rw [h] at hstate
    exact ⟨rfl, hstate⟩
  · rw [h] at hstate
    obtain ⟨hnext, hafter⟩ := hf x after
    have e : after.state = w.state := hstate
    rw [e] at hnext
    exact ⟨hnext, hafter.trans e⟩

end Action.Reads

/-! ## answers of the builder at the base -/

namespace Store

/-- the answer to a query for a page -/
def answerPage (s : Store) (config : Config) (r : Request) (maxLimit : Value) :
    Outcome PagedResponse := do
  let plan ← Plan.ofPage config r maxLimit
  let _ ← plan.announcement "offset"
  let countPlan ← Plan.ofCount r
  Builder.concludePage config r plan (s.find plan) (s.count countPlan)

/-- the answer to a query for a cursor window -/
def answerWindow (s : Store) (config : Config) (r : Request) : Outcome CursorResponse := do
  let plan ← Plan.ofCursor config r .null
  let _ ← plan.announcement "cursor"
  let rows ← s.find plan
  let limit ← (plan.window.take.orElse (.int 1)).sub (.int 1)
  CursorResponse.shape (.list rows) limit (Plan.cursorField config r)

def answerCount (s : Store) (r : Request) : Outcome Nat := do s.count (← Plan.ofCount r)

def answerAggregate (s : Store) (r : Request) (aggregations : Value) :
    Outcome (List (String × Value)) := do
  s.aggregate (← Plan.ofAggregate r aggregations)

/-- the windows of a cursor walk -/
def answerWalk (s : Store) (config : Config) : (windows : Nat) → Request → Outcome (List CursorResponse)
  | 0, _ => .ok []
  | windows + 1, r => do
    let here ← s.answerWindow config r
    if here.hasMore then
      let next ← r.merged (.record [("cursor", here.nextCursor)])
      return here :: (← answerWalk s config windows next)
    else return [here]

end Store

namespace Builder

variable {S : Type} (store : S → Store) (config : Config)

theorem announce_bind_reads {α : Type} {kind : String} {p : Plan} {f : Unit → Action S α}
    {next : S → Outcome α} (hf : (f ()).Reads next) :
    (announce kind p >>= f).Reads (fun s => p.announcement kind >>= fun _ => next s) := by
  have h : (announce kind p >>= f) = ((liftM (p.announcement kind) : Action S LogEntry) >>= fun e =>
      Action.report e.source e.severity e.message >>= f) := bind_assoc ..
  rw [h]
  exact (Action.Reads.lift _).bind fun _ => (Action.Reads.report _ _ _).bind fun _ => hf

theorem base_query (r : Request) (maxLimit : Value) :
    ((base config (.ofStore store)).query r maxLimit).Reads
      fun s => (store s).answerPage config r maxLimit := by
  have h : (base config (.ofStore store)).query r maxLimit = (do
      let plan ← Plan.ofPage config r maxLimit
      announce "offset" plan
      let countPlan ← Plan.ofCount r
      let rows ← Action.attempt ((Executor.ofStore store).find plan)
      let total ← Action.attempt ((Executor.ofStore store).count countPlan)
      Action.ofOutcome (concludePage config r plan rows total) : Action S PagedResponse) := by
    simp only [query, base, preparePage, bind_assoc, pure_bind, Prepared.complete]
  rw [h]
  refine (Action.Reads.lift _).bind fun plan => announce_bind_reads ?_
  apply (Action.Reads.lift _).bind
  intro countPlan
  have hfind : ((Executor.ofStore store).find plan).Reads fun s => (store s).find plan :=
    Action.Reads.read.bind fun s => Action.Reads.lift ((store s).find plan)
  have hcount : ((Executor.ofStore store).count countPlan).Reads fun s => (store s).count countPlan :=
    Action.Reads.read.bind fun s => Action.Reads.lift ((store s).count countPlan)
  exact hfind.attempt.bind fun rows => hcount.attempt.bind fun total => Action.Reads.lift _

theorem base_cursorQuery (r : Request) :
    ((base config (.ofStore store)).cursorQuery r).Reads fun s => (store s).answerWindow config r := by
  refine (Action.Reads.lift _).bind fun plan => announce_bind_reads ?_
  have hfind : ((Executor.ofStore store).find plan).Reads fun s => (store s).find plan :=
    Action.Reads.read.bind fun s => Action.Reads.lift ((store s).find plan)
  exact hfind.bind fun rows => (Action.Reads.lift _).bind fun limit => Action.Reads.lift _

theorem base_count (r : Request) :
    ((base config (.ofStore store)).count r).Reads fun s => (store s).answerCount r :=
  (Action.Reads.lift _).bind fun plan =>
    Action.Reads.read.bind fun s => Action.Reads.lift ((store s).count plan)

theorem base_aggregate (r : Request) (aggregations : Value) :
    ((base config (.ofStore store)).aggregate r aggregations).Reads
      fun s => (store s).answerAggregate r aggregations :=
  (Action.Reads.lift _).bind fun plan =>
    Action.Reads.read.bind fun s => Action.Reads.lift ((store s).aggregate plan)

theorem base_walk (windows : Nat) (r : Request) :
    ((base config (.ofStore store)).walk windows r).Reads
      fun s => (store s).answerWalk config windows r := by
  induction windows generalizing r with
  | zero => exact Action.Reads.pure []
  | succ windows ih =>
    apply (base_cursorQuery store config r).bind
    intro here
    cases here.hasMore
    · exact Action.Reads.pure [here]
    · exact (Action.Reads.lift _).bind fun next => (ih next).bind fun rest => Action.Reads.pure _

/-! ## builders with a scope -/

variable {store config} {b : Builder S} (filter : List (String × Value))

theorem inScope_query {r : Request} {maxLimit : Value} {answer : Request → S → Outcome PagedResponse}
    (h : ∀ r, (b.query r maxLimit).Reads (answer r)) :
    ((b.inScope filter).query r maxLimit).Reads
      (fun s => within filter r >>= fun held => answer held s) := by
  have e : (b.inScope filter).query r maxLimit =
      ((liftM (within filter r) : Action S Request) >>= fun held => b.query held maxLimit) :=
    bind_assoc ..
  rw [e]
  exact (Action.Reads.lift _).bind h

theorem inScope_cursorQuery {r : Request} {answer : Request → S → Outcome CursorResponse}
    (h : ∀ r, (b.cursorQuery r).Reads (answer r)) :
    ((b.inScope filter).cursorQuery r).Reads
      (fun s => within filter r >>= fun held => answer held s) :=
  (Action.Reads.lift _).bind h

theorem inScope_count {r : Request} {answer : Request → S → Outcome Nat}
    (h : ∀ r, (b.count r).Reads (answer r)) :
    ((b.inScope filter).count r).Reads
      (fun s => within filter r >>= fun held => answer held s) :=
  (Action.Reads.lift _).bind h

theorem inScope_aggregate {r : Request} {aggregations : Value}
    {answer : Request → S → Outcome (List (String × Value))}
    (h : ∀ r, (b.aggregate r aggregations).Reads (answer r)) :
    ((b.inScope filter).aggregate r aggregations).Reads
      (fun s => within filter r >>= fun held => answer held s) :=
  (Action.Reads.lift _).bind h

end Builder

end ListQuery
