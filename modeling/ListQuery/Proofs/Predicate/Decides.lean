import ListQuery.Predicate.Evaluate

/-!
# Tests with an expected answer

A test may fail where one of its comparisons does, but when it answers, the answer is the expected
one.  Connectives and tests over items keep this, and so do the combinations of trees, which leave
out the trees that restrict nothing.

* `Decides`           the test gives the expected answer, or fails where it may;
* `Decides.and`, `or`, `not`, `any`, `all`
                      tests of several parts;
* `Predicate.evaluate_all`, `evaluate_any`, `evaluate_negation`
                      the combinations of trees.
-/

namespace ListQuery

/-! ## tests with an expected answer -/

/-- the test answers as expected; only if not all of its comparisons have an answer it may fail -/
def Decides (test : Outcome Bool) (answerable expected : Bool) : Prop :=
  test = .ok expected ∨ (answerable = false ∧ ∃ e, test = .error e)

namespace Decides

variable {α : Type} {x y : Outcome Bool} {a b m n : Bool}

theorem weaken (h : Decides x a m) (hab : b = true → a = true) : Decides x b m := by
  rcases h with h | ⟨ha, e, h⟩
  · exact .inl h
  · refine .inr ⟨?_, e, h⟩
    cases b
    · rfl
    · rw [hab rfl] at ha; cases ha

theorem ok : Decides (.ok m) true m := .inl rfl

theorem answer (h : Decides x a m) (hx : x = .ok b) : b = m := by
  rcases h with h | ⟨_, e, h⟩
  · rw [h] at hx; cases hx; rfl
  · rw [h] at hx; cases hx

theorem answered (h : Decides x true m) : x = .ok m := by
  rcases h with h | ⟨h, _⟩
  · exact h
  · cases h

theorem not (h : Decides x a m) : Decides (do return !(← x)) a (!m) := by
  rcases h with h | ⟨ha, e, h⟩
  · rw [h]; exact .inl rfl
  · rw [h]; exact .inr ⟨ha, e, rfl⟩

theorem and (hx : Decides x a m) (hy : Decides y b n) :
    Decides (do if ← x then y else return false) (a && b) (m && n) := by
  rcases hx with hx | ⟨ha, e, hx⟩
  · rw [hx]
    cases m
    · exact .inl rfl
    · rcases hy with hy | ⟨hb, e, hy⟩
      · exact .inl hy
      · exact .inr ⟨by rw [hb, Bool.and_false], e, hy⟩
  · rw [hx]; exact .inr ⟨by rw [ha, Bool.false_and], e, rfl⟩

theorem or (hx : Decides x a m) (hy : Decides y b n) :
    Decides (do if ← x then return true else y) (a && b) (m || n) := by
  rcases hx with hx | ⟨ha, e, hx⟩
  · rw [hx]
    cases m
    · rcases hy with hy | ⟨hb, e, hy⟩
      · exact .inl hy
      · exact .inr ⟨by rw [hb, Bool.and_false], e, hy⟩
    · exact .inl rfl
  · rw [hx]; exact .inr ⟨by rw [ha, Bool.false_and], e, rfl⟩

variable {test : α → Outcome Bool} {answerable expected : α → Bool}

theorem any {xs : List α} (h : ∀ x ∈ xs, Decides (test x) (answerable x) (expected x)) :
    Decides (anyTrue test xs) (xs.all answerable) (xs.any expected) := by
  induction xs with
  | nil => exact ok
  | cons x rest ih =>
    rw [anyTrue, List.all_cons, List.any_cons]
    exact (h x List.mem_cons_self).or (ih fun y hy => h y (List.mem_cons_of_mem _ hy))

theorem all {xs : List α} (h : ∀ x ∈ xs, Decides (test x) (answerable x) (expected x)) :
    Decides (allTrue test xs) (xs.all answerable) (xs.all expected) := by
  induction xs with
  | nil => exact ok
  | cons x rest ih =>
    rw [allTrue, List.all_cons, List.all_cons]
    exact (h x List.mem_cons_self).and (ih fun y hy => h y (List.mem_cons_of_mem _ hy))

end Decides

theorem anyTrue_map {α β : Type} (test : β → Outcome Bool) (f : α → β) (xs : List α) :
    anyTrue test (xs.map f) = anyTrue (fun x => test (f x)) xs := by
  induction xs with
  | nil => rfl
  | cons x rest ih => rw [List.map_cons, anyTrue, anyTrue, ih]

/-! ## combinations -/

namespace Predicate

theorem evaluateAny_eq (ps : List Predicate) (row : Value) :
    evaluateAny ps row = anyTrue (evaluate · row) ps := by
  induction ps with
  | nil => rw [evaluateAny, anyTrue]
  | cons p rest ih => rw [evaluateAny, anyTrue, ih]

/-- a tree that restricts nothing may be left out -/
theorem evaluateAll_filter (ps : List Predicate) (row : Value) :
    evaluateAll (ps.filter restricts) row = evaluateAll ps row := by
  induction ps with
  | nil => rfl
  | cons p rest ih =>
    by_cases hp : p.restricts = true
    · rw [List.filter_cons_of_pos hp, evaluateAll, evaluateAll, ih]
    · have hnone : p = .unrestricted := by
        cases p <;> first | rfl | exact absurd rfl hp
      rw [List.filter_cons_of_neg hp, ih, evaluateAll, hnone, evaluate]
      rfl

theorem evaluate_all (ps : List Predicate) (row : Value) :
    evaluate (all ps) row = evaluateAll ps row := by
  rw [← evaluateAll_filter]
  unfold all
  rcases ps.filter restricts with _ | ⟨p, _ | ⟨q, rest⟩⟩
  · rw [evaluate, evaluateAll]
  · show evaluate p row = _
    rw [evaluateAll, evaluateAll]
    rcases evaluate p row with e | b
    · rfl
    · cases b <;> rfl
  · show evaluate (.conjunction (p :: q :: rest)) row = _
    rw [evaluate]

theorem any_restricts (ps : List Predicate) :
    ps.any restricts = !(ps.filter restricts).isEmpty := by
  induction ps with
  | nil => rfl
  | cons p rest ih =>
    rw [List.any_cons, ih]
    by_cases hp : p.restricts = true
    · rw [List.filter_cons_of_pos hp, hp]; rfl
    · rw [List.filter_cons_of_neg hp, eq_false_of_ne_true hp]; rfl

/-- of several trees, those that restrict nothing do not count as met -/
theorem evaluate_any (ps : List Predicate) (row : Value) :
    evaluate (any ps) row =
      if ps.any restricts then evaluateAny (ps.filter restricts) row else .ok true := by
  rw [any_restricts]
  unfold any
  rcases ps.filter restricts with _ | ⟨p, _ | ⟨q, rest⟩⟩
  · exact evaluate.eq_1 row
  · show evaluate p row = evaluateAny [p] row
    rw [evaluateAny, evaluateAny]
    rcases evaluate p row with e | b
    · rfl
    · cases b <;> rfl
  · show evaluate (.disjunction (p :: q :: rest)) row = evaluateAny (p :: q :: rest) row
    rw [evaluate]

theorem restricts_all (ps : List Predicate) : (all ps).restricts = ps.any restricts := by
  have hmem : ∀ p ∈ ps.filter restricts, p.restricts = true := fun p hp => (List.mem_filter.mp hp).2
  rw [any_restricts]
  unfold all
  rcases hps : ps.filter restricts with _ | ⟨p, _ | ⟨q, rest⟩⟩
  · rfl
  · rw [hps] at hmem
    exact hmem p List.mem_cons_self
  · rfl

theorem evaluate_negation (p : Predicate) (row : Value) :
    evaluate (negation [p]) row =
      if p.restricts then (do return !(← evaluate p row)) else .ok true := by
  by_cases hp : p.restricts = true
  · have hneg : negation [p] = .complement p := by
      have hall : all [p] = p := by
        unfold all
        rw [List.filter_cons_of_pos hp, List.filter_nil]
      unfold negation
      rw [hall]
      cases p <;> first | rfl | cases hp
    rw [hneg, evaluate, if_pos hp]
  · have hnone : p = .unrestricted := by
      cases p <;> first | rfl | exact absurd rfl hp
    rw [hnone]
    exact evaluate.eq_1 row

theorem compareWith_ok {op : Operator} {test : Value → Value → Bool}
    (h : op.check? = some fun a b => .ok (test a b)) (wanted actual : Value) :
    ∃ b, compareWith op wanted actual = .ok b := by
  have hany (items : List Value) :
      ∃ b, anyTrue (fun a => (.ok (test a wanted) : Outcome Bool)) items = .ok b := by
    induction items with
    | nil => exact ⟨false, rfl⟩
    | cons a rest ih =>
      rw [anyTrue, Outcome.ok_bind]
      split
      · exact ⟨true, rfl⟩
      · exact ih
  unfold compareWith
  rw [h]
  cases actual with
  | list items =>
    dsimp only
    split
    · exact ⟨_, rfl⟩
    · exact hany items
  | _ => exact ⟨_, rfl⟩

end Predicate

end ListQuery
