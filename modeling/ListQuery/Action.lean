import ListQuery.Fault
import ListQuery.Log

/-!
# Actions

A computation on a state that may fail and reports what it does.  What was changed and reported
before a failure stays.

* `Action S`         computations on a state `S` with a log;
* `Action.attempt`   a computation whose fault is part of its answer;
* `Action.within`    a computation on a part of the state.
-/

namespace ListQuery

/-- a state, and what was reported on the way to it -/
structure Logged (S : Type) where
  state : S
  log : List LogEntry := []

abbrev Action (S α : Type) := ExceptT Fault (StateM (Logged S)) α

namespace Action

variable {S T α : Type}

/-- the answer of a computation, and the state it leaves behind -/
def runOn (a : Action S α) (w : Logged S) : Outcome α × Logged S := a.run.run w

/-- a computation given by what it does to a state -/
def ofRun (f : Logged S → Outcome α × Logged S) : Action S α := ExceptT.mk fun w => f w

def ofOutcome (r : Outcome α) : Action S α := ofRun fun w => (r, w)

/-- never fails; a fault is the answer -/
def attempt (a : Action S α) : Action S (Outcome α) := ofRun fun w =>
  let (r, after) := a.runOn w
  (.ok r, after)

def read : Action S S := ofRun fun w => (.ok w.state, w)

def update (f : S → S) : Action S Unit := ofRun fun w => (.ok (), { w with state := f w.state })

def report (source : String) (severity : Severity) (message : String) : Action S Unit :=
  ofRun fun w => (.ok (), { w with log := w.log ++ [⟨source, severity, message⟩] })

/-- a computation on the part of the state that `get` shows and `put` replaces -/
def within (get : S → T) (put : T → S → S) (a : Action T α) : Action S α := ofRun fun w =>
  let (r, after) := a.runOn ⟨get w.state, w.log⟩
  (r, ⟨put after.state w.state, after.log⟩)

theorem runOn_ofRun (f : Logged S → Outcome α × Logged S) (w : Logged S) :
    (ofRun f).runOn w = f w := rfl

theorem runOn_ofOutcome (r : Outcome α) (w : Logged S) : (ofOutcome r).runOn w = (r, w) := rfl

theorem runOn_read (w : Logged S) : (read : Action S S).runOn w = (.ok w.state, w) := rfl

theorem runOn_update (f : S → S) (w : Logged S) :
    (update f).runOn w = (.ok (), { w with state := f w.state }) := rfl

theorem runOn_within (get : S → T) (put : T → S → S) (a : Action T α) (w : Logged S) :
    (within get put a).runOn w = ((a.runOn ⟨get w.state, w.log⟩).1,
      ⟨put (a.runOn ⟨get w.state, w.log⟩).2.state w.state, (a.runOn ⟨get w.state, w.log⟩).2.log⟩) := rfl

theorem runOn_attempt (a : Action S α) (w : Logged S) :
    (attempt a).runOn w = (.ok (a.runOn w).1, (a.runOn w).2) := rfl

theorem runOn_bind {β : Type} (a : Action S α) (f : α → Action S β) (w : Logged S) :
    (a >>= f).runOn w = match a.runOn w with
      | (.ok x, after) => (f x).runOn after
      | (.error e, after) => (.error e, after) := by
  show (ExceptT.bindCont f (a.runOn w).1).run (a.runOn w).2 = _
  rcases a.runOn w with ⟨x | x, after⟩ <;> rfl

end Action

instance {S : Type} : MonadLift Outcome (Action S) where
  monadLift r := Action.ofOutcome r

end ListQuery
