import ListQuery.Plan

/-!
# Plans of requests

Every plan of a request asks the request's own collection for the rows of its tree.

* `Plan.Asks`   the plan is about a request's collection and tree;
* `Plan.ofPage_asks`, `ofCursor_asks`, `ofCount_asks`, `ofAggregate_asks`
                the four plans of a request.
-/

namespace ListQuery

namespace Plan

/-- the plan is about the request's collection and asks for the rows of its tree -/
structure Asks (p : Plan) (r : Request) : Prop where
  model : p.model = .ofText? r.model
  predicate : r.predicate = .ok p.predicate

variable {config : Config} {r : Request} {maxLimit : Value} {p : Plan}

theorem ofPage_asks (h : ofPage config r maxLimit = .ok p) : p.Asks r := by
  unfold ofPage at h
  rw [Outcome.bind_eq_ok] at h
  obtain ⟨predicate, hpredicate, h⟩ := h
  rw [Outcome.bind_eq_ok] at h
  obtain ⟨window, _, h⟩ := h
  cases h
  exact ⟨rfl, hpredicate⟩

theorem ofCursor_asks (h : ofCursor config r maxLimit = .ok p) : p.Asks r := by
  unfold ofCursor at h
  rw [Outcome.bind_eq_ok] at h
  obtain ⟨predicate, hpredicate, h⟩ := h
  rw [Outcome.bind_eq_ok] at h
  obtain ⟨limit, _, h⟩ := h
  rw [Outcome.bind_eq_ok] at h
  obtain ⟨window, _, h⟩ := h
  cases h
  exact ⟨rfl, hpredicate⟩

theorem ofCount_asks (h : ofCount r = .ok p) : p.Asks r := by
  unfold ofCount at h
  rw [Outcome.bind_eq_ok] at h
  obtain ⟨predicate, hpredicate, h⟩ := h
  cases h
  exact ⟨rfl, hpredicate⟩

theorem ofAggregate_asks {aggregations : Value} (h : ofAggregate r aggregations = .ok p) :
    p.Asks r := by
  unfold ofAggregate at h
  rw [Outcome.bind_eq_ok] at h
  obtain ⟨predicate, hpredicate, h⟩ := h
  rw [Outcome.bind_eq_ok] at h
  obtain ⟨named, _, h⟩ := h
  cases h
  exact ⟨rfl, hpredicate⟩

end Plan

end ListQuery
