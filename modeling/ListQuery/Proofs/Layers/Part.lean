import ListQuery.Builder.Basic

/-!
# Builders that work on a part of a state

A builder over one state is one over any state that has the first as a part, if its computations come
to computations on the whole in a way that does not mind whether they are made step by step.

* `Port`               such a way;
* `Port.part`, `Port.apart`
                       those of a part which can be taken out and put back, and which reports with the
                       whole or has a log of its own;
* `Builder.through`    a builder over the whole;
* `query_through`      its queries are those of the builder over the part.
-/

namespace ListQuery

variable {S T : Type}

/-- how computations on a part of a state come to computations on the whole -/
structure Port (T S : Type) where
  lift {α : Type} : Action T α → Action S α
  lift_pure {α : Type} (x : α) : lift (pure x : Action T α) = pure x
  lift_bind {α β : Type} (a : Action T α) (f : α → Action T β) :
    lift (a >>= f) = lift a >>= fun x => lift (f x)

/-- a part, with a log, that is as it was put, and in place of which only the last one put counts -/
def Port.logged (get : Logged S → Logged T) (put : Logged T → Logged S → Logged S)
    (hget : ∀ t w, get (put t w) = t) (hput : ∀ t t' w, put t' (put t w) = put t' w)
    (hsame : ∀ w, put (get w) w = w) : Port T S where
  lift a := Action.ofRun fun w => ((a.runOn (get w)).1, put (a.runOn (get w)).2 w)
  lift_pure x := by
    funext w
    exact congrArg (fun w : Logged S => ((.ok x : Outcome _), w)) (hsame w)
  lift_bind a f := by
    funext w
    let lift {γ : Type} (a : Action T γ) : Action S γ :=
      Action.ofRun fun w => ((a.runOn (get w)).1, put (a.runOn (get w)).2 w)
    show (lift (a >>= f)).runOn w = (lift a >>= fun x => lift (f x)).runOn w
    rw [Action.runOn_bind, Action.runOn_ofRun, Action.runOn_ofRun, Action.runOn_bind]
    rcases a.runOn (get w) with ⟨x | x, after⟩
    · rfl
    · dsimp only
      rw [Action.runOn_ofRun, hget, hput]

def Port.part (get : S → T) (put : T → S → S) (hget : ∀ t s, get (put t s) = t)
    (hput : ∀ t t' s, put t' (put t s) = put t' s) (hsame : ∀ s, put (get s) s = s) : Port T S :=
  .logged (fun w => ⟨get w.state, w.log⟩) (fun t w => ⟨put t.state w.state, t.log⟩)
    (fun t w => by rw [hget]) (fun t t' w => by rw [hput]) fun w => by rw [hsame]

def Port.apart (get : S → Logged T) (put : Logged T → S → S) (hget : ∀ t s, get (put t s) = t)
    (hput : ∀ t t' s, put t' (put t s) = put t' s) (hsame : ∀ s, put (get s) s = s) : Port T S :=
  .logged (fun w => get w.state) (fun t w => ⟨put t w.state, w.log⟩)
    (fun t w => by rw [hget]) (fun t t' w => by rw [hput]) fun w => by rw [hsame]

def Prepared.through (p : Port T S) : Prepared T → Prepared S
  | .answered r => .answered r
  | .fetching fetch => .fetching do return p.lift (← p.lift fetch)

def Builder.through (p : Port T S) (b : Builder T) : Builder S where
  prepare r maxLimit := do return (← p.lift (b.prepare r maxLimit)).through p
  cursorQuery r := p.lift (b.cursorQuery r)
  count r := p.lift (b.count r)
  aggregate r aggregations := p.lift (b.aggregate r aggregations)

variable (p : Port T S)

theorem Prepared.complete_through (q : Prepared T) : (q.through p).complete = p.lift q.complete := by
  cases q with
  | answered r => exact (p.lift_pure r).symm
  | fetching fetch =>
    show ((p.lift fetch >>= fun conclude => pure (p.lift conclude)) >>= fun conclude => conclude) = _
    rw [bind_assoc]
    simp only [pure_bind]
    exact (p.lift_bind fetch fun conclude => conclude).symm

theorem Builder.query_through (b : Builder T) (r : Request) (maxLimit : Value) :
    (b.through p).query r maxLimit = p.lift (b.query r maxLimit) := by
  show (p.lift (b.prepare r maxLimit) >>= fun q => pure (q.through p)) >>= Prepared.complete = _
  unfold query
  rw [bind_assoc, p.lift_bind]
  simp only [pure_bind, Prepared.complete_through]

end ListQuery
