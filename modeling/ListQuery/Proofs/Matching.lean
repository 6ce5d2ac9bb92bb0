import ListQuery.Proofs.Request.SamePage
import ListQuery.Proofs.Walk

/-!
# Answers from the rows that match

The filters of a request choose rows, and nothing else in an answer depends on them.  So requests that
differ in their filters alone are answered alike by a collection in which they match the same rows.

* `Request.SameButFilters`   the requests differ in their filters alone;
* `Store.find_matching`, …    plans that differ in their trees alone;
* `Builder.base_matching`    the four answers to requests that match the same rows.
-/

namespace ListQuery

inductive Request.SameButFilters (q : Request) : Request → Prop
  | filters (filters : List (String × Condition)) (relations : List (String × List Condition))
      (groups : List (List (String × Condition))) (excluded : List (String × Condition)) :
      q.SameButFilters { q with
        filters := filters, relationFilters := relations, orFilters := groups, notFilters := excluded }

theorem Request.SameButFilters.model {q r : Request} (h : q.SameButFilters r) : q.model = r.model := by
  obtain ⟨⟩ := h
  rfl

namespace Store

variable {s t : Store} {config : Config}

/-! ## the rows that match -/

theorem matching_congr {p q : Predicate} (h : ∀ row, p.evaluate row = q.evaluate row) (model : Value) :
    s.matching model p = s.matching model q := by
  unfold matching
  cases s.rows model with
  | error e => rfl
  | ok rows => exact select_eq fun row _ => h row

/-! ## plans -/

section
variable {p q : Predicate} (plan : Plan)
  (h : s.matching plan.model p = t.matching plan.model q)
include h

theorem find_matching : s.find { plan with predicate := p } = t.find { plan with predicate := q } := by
  unfold find
  dsimp only
  rw [h]

theorem count_matching :
    s.count { plan with predicate := p } = t.count { plan with predicate := q } := by
  unfold count
  dsimp only
  rw [h]

theorem aggregate_matching :
    s.aggregate { plan with predicate := p } = t.aggregate { plan with predicate := q } := by
  unfold aggregate
  dsimp only
  rw [h]

end

/-! ## requests -/

section
variable {q r : Request} {p p' : Predicate} (hp : q.predicate = .ok p) (hp' : r.predicate = .ok p')
  (hsame : q.SameButFilters r)
  (hrows : s.matching (.ofText? q.model) p = s.matching (.ofText? q.model) p')
include hp hp' hsame hrows

theorem answerPage_matching (maxLimit : Value) :
    s.answerPage config q maxLimit = s.answerPage config r maxLimit := by
  rw [answerPage_compiled hp, answerPage_compiled hp']
  obtain ⟨filters, relations, groups, excluded⟩ := hsame
  refine bind_congr fun window => ?_
  have hfind := find_matching (pagePlan config q window) hrows
  have hcount := count_matching { model := .ofText? q.model } hrows
  show Builder.concludePage config q (pagePlan config q window) _ _
    = Builder.concludePage config q (pagePlan config q window) _ _
  exact congrArg₂ _ hfind hcount

theorem answerWindow_matching : s.answerWindow config q = s.answerWindow config r := by
  rw [answerWindow_compiled hp, answerWindow_compiled hp']
  obtain ⟨filters, relations, groups, excluded⟩ := hsame
  refine bind_congr fun limit => bind_congr fun window => ?_
  exact congrArg (· >>= _) (find_matching (q.cursorPlan config window) hrows)

theorem answerCount_matching : s.answerCount q = s.answerCount r := by
  unfold answerCount Plan.ofCount
  rw [hp, hp']
  obtain ⟨filters, relations, groups, excluded⟩ := hsame
  exact count_matching { model := .ofText? q.model } hrows

theorem answerAggregate_matching (aggregations : Value) :
    s.answerAggregate q aggregations = s.answerAggregate r aggregations := by
  unfold answerAggregate Plan.ofAggregate
  rw [hp, hp']
  obtain ⟨filters, relations, groups, excluded⟩ := hsame
  cases aggregations.namedPairs with
  | error e => rfl
  | ok named =>
    exact aggregate_matching { model := .ofText? q.model, aggregations := .named named } hrows

end

end Store

theorem Builder.base_matching {S : Type} (store : S → Store) (config : Config) (w : Logged S)
    {q r : Request} {p p' : Predicate} (hp : q.predicate = .ok p) (hp' : r.predicate = .ok p')
    (hsame : q.SameButFilters r)
    (hrows : (store w.state).matching (.ofText? q.model) p
      = (store w.state).matching (.ofText? q.model) p') :
    (∀ maxLimit, (((base config (.ofStore store)).query q maxLimit).runOn w).1
      = (((base config (.ofStore store)).query r maxLimit).runOn w).1) ∧
    (((base config (.ofStore store)).cursorQuery q).runOn w).1
      = (((base config (.ofStore store)).cursorQuery r).runOn w).1 ∧
    (((base config (.ofStore store)).count q).runOn w).1
      = (((base config (.ofStore store)).count r).runOn w).1 ∧
    ∀ aggregations, (((base config (.ofStore store)).aggregate q aggregations).runOn w).1
      = (((base config (.ofStore store)).aggregate r aggregations).runOn w).1 := by
  refine ⟨fun maxLimit => ?_, ?_, ?_, fun aggregations => ?_⟩
  · rw [(base_query store config q maxLimit w).1, (base_query store config r maxLimit w).1]
    exact Store.answerPage_matching hp hp' hsame hrows maxLimit
  · rw [(base_cursorQuery store config q w).1, (base_cursorQuery store config r w).1]
    exact Store.answerWindow_matching hp hp' hsame hrows
  · rw [(base_count store config q w).1, (base_count store config r w).1]
    exact Store.answerCount_matching hp hp' hsame hrows
  · rw [(base_aggregate store config q aggregations w).1,
      (base_aggregate store config r aggregations w).1]
    exact Store.answerAggregate_matching hp hp' hsame hrows aggregations

end ListQuery
