import ListQuery.Proofs.Answers
import ListQuery.Proofs.Plan
import ListQuery.Proofs.Predicate.Decides
import ListQuery.Proofs.Request.Resolved

/-!
# Queries within a scope

A scope writes an entry over the filters of every request.  Rows that fail it are never looked at
by anything but the predicate: what a builder within the scope answers is what it answers on the
collections without these rows.

* `Predicate.holds`            the row meets a tree;
* `Store.keeping`              the collections with some of their rows only;
* `Predicate.Implies`          a row that meets the one tree meets the other;
* `Builder.within_predicate`   the tree of a request within a scope asks what the scope asks;
* `Store.answer…_keeping`      answers on the collections with the rows of the scope;
* `Builder.tenant_isolation`   a tenant's answers depend on the tenant's rows.
-/

namespace ListQuery

/-- the row meets the tree -/
def Predicate.holds (p : Predicate) (row : Value) : Bool :=
  match p.evaluate row with
  | .ok answer => answer
  | .error _ => false

/-- the collections with those rows that pass a test -/
def Store.keeping (s : Store) (keep : Value → Bool) : Store :=
  ⟨s.collections.map fun c => (c.1, c.2.filter keep)⟩

/-! ## trees -/

namespace Predicate

/-- a row that meets the first tree meets the second -/
def Implies (p q : Predicate) : Prop := ∀ row, p.evaluate row = .ok true → q.holds row = true

theorem evaluateAll_true {ps : List Predicate} {row : Value} :
    evaluateAll ps row = .ok true ↔ ∀ p ∈ ps, p.evaluate row = .ok true := by
  induction ps with
  | nil => exact iff_of_true rfl fun _ hp => absurd hp List.not_mem_nil
  | cons p rest ih =>
    rw [evaluateAll, List.forall_mem_cons, ← ih]
    cases evaluate p row with
    | error e => exact iff_of_false (fun h => nomatch h) fun h => nomatch h.1
    | ok b =>
      cases b with
      | false => exact iff_of_false (fun h => nomatch h) fun h => nomatch h.1
      | true => exact (and_iff_right rfl).symm

theorem all_implies {ps : List Predicate} {p q : Predicate} (hp : p ∈ ps) (h : p.Implies q) :
    (all ps).Implies q := by
  intro row hrow
  rw [evaluate_all] at hrow
  exact h row (evaluateAll_true.mp hrow p hp)

theorem implies_self (p : Predicate) : p.Implies p := by
  intro row hrow
  unfold holds
  rw [hrow]

/-- rows that fail a tree which is implied are not missed -/
theorem select_filter {p q : Predicate} (h : p.Implies q) {rows selected : List Value}
    (hrows : p.select rows = .ok selected) : p.select (rows.filter q.holds) = .ok selected := by
  induction rows generalizing selected with
  | nil => exact hrows
  | cons row rest ih =>
    rw [select, Outcome.bind_eq_ok] at hrows
    obtain ⟨here, hhere, hrows⟩ := hrows
    rw [Outcome.bind_eq_ok] at hrows
    obtain ⟨others, hothers, hrows⟩ := hrows
    cases hrows
    by_cases hq : q.holds row = true
    · rw [List.filter_cons_of_pos hq, select, hhere, Outcome.ok_bind, ih hothers]
      rfl
    · cases here with
      | true => exact absurd (h row hhere) hq
      | false =>
        rw [List.filter_cons_of_neg hq, ih hothers]
        rfl

theorem holds_of_select {p : Predicate} {rows selected : List Value}
    (h : p.select rows = .ok selected) : selected = rows.filter p.holds := by
  induction rows generalizing selected with
  | nil => exact (Except.ok.inj h).symm
  | cons row rest ih =>
    rw [select, Outcome.bind_eq_ok] at h
    obtain ⟨here, hhere, h⟩ := h
    obtain ⟨others, hothers, h⟩ := Outcome.bind_eq_ok.mp h
    have hrow : p.holds row = here := by rw [holds, hhere]
    cases h
    rw [List.filter_cons, hrow, ih hothers]

theorem select_tested {p q : Predicate} {keep : Value → Bool} {rows selected : List Value}
    (h : ∀ row ∈ rows, ∀ b, p.evaluate row = .ok b → q.evaluate row = .ok (b && keep row))
    (hrows : p.select rows = .ok selected) : q.select rows = .ok (selected.filter keep) := by
  induction rows generalizing selected with
  | nil =>
    cases hrows
    rfl
  | cons row rest ih =>
    rw [List.forall_mem_cons] at h
    rw [select, Outcome.bind_eq_ok] at hrows
    obtain ⟨here, hhere, hrows⟩ := hrows
    obtain ⟨others, hothers, hrows⟩ := Outcome.bind_eq_ok.mp hrows
    cases hrows
    rw [select, h.1 here hhere, Outcome.ok_bind, ih h.2 hothers, Outcome.ok_bind]
    cases here with
    | false => rfl
    | true =>
      rw [if_pos rfl, List.filter_cons, Bool.true_and]
      rfl

theorem ofConditionList_mem {cs : List (String × Condition)} {ps : List Predicate}
    (h : ofConditionList cs = .ok ps) {path : String} {c : Condition} (hc : (path, c) ∈ cs) :
    ∃ p ∈ ps, ofCondition path c = .ok p := by
  induction cs generalizing ps with
  | nil => cases hc
  | cons entry rest ih =>
    rw [ofConditionList, Outcome.bind_eq_ok] at h
    obtain ⟨here, hhere, h⟩ := h
    rw [Outcome.bind_eq_ok] at h
    obtain ⟨others, hothers, h⟩ := h
    cases h
    rcases List.mem_cons.mp hc with rfl | hc
    · exact ⟨here, List.mem_cons_self, hhere⟩
    · obtain ⟨p, hp, hcompiled⟩ := ih hothers hc
      exact ⟨p, List.mem_cons_of_mem _ hp, hcompiled⟩

end Predicate

/-- a request asks of a row what each of its filters asks -/
theorem Request.predicate_implies {r : Request} {p q : Predicate} (h : r.predicate = .ok p)
    {path : String} {c : Condition} (hc : (path, c) ∈ r.filters)
    (hq : Predicate.ofCondition path c = .ok q) : p.Implies q := by
  unfold Request.predicate at h
  rw [Outcome.bind_eq_ok] at h
  obtain ⟨filters, hfilters, h⟩ := h
  rw [Outcome.bind_eq_ok] at h
  obtain ⟨_, _, h⟩ := h
  rw [Outcome.bind_eq_ok] at h
  obtain ⟨_, _, h⟩ := h
  rw [Outcome.bind_eq_ok] at h
  obtain ⟨_, _, h⟩ := h
  cases h
  apply Predicate.all_implies List.mem_cons_self
  rw [Predicate.ofConditions, Outcome.bind_eq_ok] at hfilters
  obtain ⟨ps, hps, hfilters⟩ := hfilters
  cases hfilters
  obtain ⟨part, hpart, hcompiled⟩ := Predicate.ofConditionList_mem hps hc
  rw [hq] at hcompiled
  cases hcompiled
  exact Predicate.all_implies hpart (Predicate.implies_self q)

/-! ## collections -/

namespace Store

theorem rows_keeping {s : Store} {keep : Value → Bool} {model : Value} {rows : List Value}
    (h : s.rows model = .ok rows) : (s.keeping keep).rows model = .ok (rows.filter keep) := by
  unfold Store.rows at h ⊢
  split at h
  · cases h
  · rename_i hhash
    rw [if_neg hhash]
    have hfind : (s.keeping keep).collections.find? (·.1.equals model)
        = (s.collections.find? (·.1.equals model)).map fun c => (c.1, c.2.filter keep) := by
      show (s.collections.map _).find? _ = _
      rw [List.find?_map]
      rfl
    rw [hfind]
    split at h
    · rename_i hsome
      cases h
      rw [hsome]
      rfl
    · cases h

variable {s : Store} {q : Predicate}

theorem matching_keeping {p : Predicate} (hp : p.Implies q) {model : Value} {rows : List Value}
    (h : s.matching model p = .ok rows) : (s.keeping q.holds).matching model p = .ok rows := by
  unfold matching at h ⊢
  rw [Outcome.bind_eq_ok] at h
  obtain ⟨all, hall, h⟩ := h
  rw [rows_keeping hall, Outcome.ok_bind]
  exact Predicate.select_filter hp h

theorem find_keeping {plan : Plan} (hp : plan.predicate.Implies q) {rows : List Value}
    (h : s.find plan = .ok rows) : (s.keeping q.holds).find plan = .ok rows := by
  unfold find at h ⊢
  rw [Outcome.bind_eq_ok] at h
  obtain ⟨matched, hmatched, h⟩ := h
  rw [matching_keeping hp hmatched]
  exact h

theorem count_keeping {plan : Plan} (hp : plan.predicate.Implies q) {n : Nat}
    (h : s.count plan = .ok n) : (s.keeping q.holds).count plan = .ok n := by
  unfold count at h ⊢
  rw [Outcome.bind_eq_ok] at h
  obtain ⟨matched, hmatched, h⟩ := h
  rw [matching_keeping hp hmatched]
  exact h

theorem aggregate_keeping {plan : Plan} (hp : plan.predicate.Implies q)
    {answers : List (String × Value)} (h : s.aggregate plan = .ok answers) :
    (s.keeping q.holds).aggregate plan = .ok answers := by
  unfold aggregate at h ⊢
  rw [Outcome.bind_eq_ok] at h
  obtain ⟨matched, hmatched, h⟩ := h
  rw [matching_keeping hp hmatched]
  exact h

/-! ## answers -/

variable {config : Config} {r : Request} (hr : ∀ p, r.predicate = .ok p → p.Implies q)

include hr

theorem answerPage_keeping {maxLimit : Value} {response : PagedResponse}
    (h : s.answerPage config r maxLimit = .ok response) :
    (s.keeping q.holds).answerPage config r maxLimit = .ok response := by
  unfold answerPage at h ⊢
  rw [Outcome.bind_eq_ok] at h
  obtain ⟨plan, hplan, h⟩ := h
  rw [Outcome.bind_eq_ok] at h
  obtain ⟨entry, hentry, h⟩ := h
  rw [Outcome.bind_eq_ok] at h
  obtain ⟨countPlan, hcountPlan, h⟩ := h
  unfold Builder.concludePage at h
  rw [Outcome.bind_eq_ok] at h
  obtain ⟨rows, hrows, h⟩ := h
  rw [Outcome.bind_eq_ok] at h
  obtain ⟨total, htotal, h⟩ := h
  have hpredicate := hr _ (Plan.ofPage_asks hplan).predicate
  have hcount := hr _ (Plan.ofCount_asks hcountPlan).predicate
  rw [hplan, Outcome.ok_bind, hentry, Outcome.ok_bind, hcountPlan, Outcome.ok_bind,
    find_keeping hpredicate hrows, count_keeping hcount htotal]
  exact h

theorem answerWindow_keeping {response : CursorResponse}
    (h : s.answerWindow config r = .ok response) :
    (s.keeping q.holds).answerWindow config r = .ok response := by
  unfold answerWindow at h ⊢
  rw [Outcome.bind_eq_ok] at h
  obtain ⟨plan, hplan, h⟩ := h
  rw [Outcome.bind_eq_ok] at h
  obtain ⟨entry, hentry, h⟩ := h
  rw [Outcome.bind_eq_ok] at h
  obtain ⟨rows, hrows, h⟩ := h
  have hpredicate := hr _ (Plan.ofCursor_asks hplan).predicate
  rw [hplan, Outcome.ok_bind, hentry, Outcome.ok_bind, find_keeping hpredicate hrows]
  exact h

theorem answerCount_keeping {n : Nat} (h : s.answerCount r = .ok n) :
    (s.keeping q.holds).answerCount r = .ok n := by
  unfold answerCount at h ⊢
  rw [Outcome.bind_eq_ok] at h
  obtain ⟨plan, hplan, h⟩ := h
  have hpredicate := hr _ (Plan.ofCount_asks hplan).predicate
  rw [hplan, Outcome.ok_bind]
  exact count_keeping hpredicate h

theorem answerAggregate_keeping {aggregations : Value} {answers : List (String × Value)}
    (h : s.answerAggregate r aggregations = .ok answers) :
    (s.keeping q.holds).answerAggregate r aggregations = .ok answers := by
  unfold answerAggregate at h ⊢
  rw [Outcome.bind_eq_ok] at h
  obtain ⟨plan, hplan, h⟩ := h
  have hpredicate := hr _ (Plan.ofAggregate_asks hplan).predicate
  rw [hplan, Outcome.ok_bind]
  exact aggregate_keeping hpredicate h

end Store

/-! ## scopes -/

namespace Condition

theorem mem_ofEntries {name : String} {v : Value} (hv : v ≠ .unset) {entries : List (String × Value)}
    (h : (name, v) ∈ entries) : (name, ofValue v) ∈ ofEntries entries := by
  induction entries with
  | nil => cases h
  | cons entry rest ih =>
    obtain ⟨other, w⟩ := entry
    by_cases hw : w = .unset
    · subst hw
      rw [ofEntries]
      rcases List.mem_cons.mp h with h | h
      · cases h; exact absurd rfl hv
      · exact ih h
    · rw [ofEntries]
      · rcases List.mem_cons.mp h with h | h
        · cases h; exact List.mem_cons_self
        · exact List.mem_cons_of_mem _ (ih h)
      · exact hw

end Condition

namespace Builder

/-- a request within a scope of one entry keeps its model, and its filters are its own with the entry
written over them -/
theorem within_fields {field : String} {v : Value} {r held : Request}
    (h : within [(field, v)] r = .ok held) :
    held.model = r.model ∧
      Condition.ofEntries (Value.put field v (Condition.asEntries r.filters)) = held.filters := by
  let filters := Value.put field v (Condition.asEntries r.filters)
  have hheld : Request.ofFields (Value.overlay r.toFields [("filters", .record filters)])
      = .ok held := h
  have hread := Request.ofFields_readFrom hheld
  constructor
  · have hmodel : Field.withDefault "model" none (Field.optional Field.text)
        (Value.overlay r.toFields [("filters", .record filters)]) = .valid r.model := by
      show (Field.optional Field.text (.ofText? r.model)).inside "model" = _
      rw [Request.optional_text_eq]
      rfl
    exact Checked.valid.inj (hread.model.symm.trans hmodel)
  · have hfilters := hread.filters
    have hfield : Request.fieldOrNull "filters" (Value.overlay r.toFields [("filters", .record filters)])
        = .record filters := by
      show (Value.field? "filters" (Value.put "filters" (.record filters) r.toFields)).getD .null = _
      rw [Value.field?_put_self]
      rfl
    have hmem : (field, v) ∈ filters := Value.mem_of_field? (Value.field?_put_self ..)
    rw [hfield] at hfilters
    have htruthy : (Value.record filters).truthy = true := by
      rw [Value.truthy, Bool.not_eq_true', List.isEmpty_eq_false_iff]
      exact List.ne_nil_of_mem hmem
    unfold Condition.ofFilters at hfilters
    rw [if_pos htruthy] at hfilters
    exact Except.ok.inj hfilters

theorem within_filters {field : String} {v : Value} (hv : v ≠ .unset) {r held : Request}
    (h : within [(field, v)] r = .ok held) : (field, Condition.ofValue v) ∈ held.filters := by
  rw [← (within_fields h).2]
  exact Condition.mem_ofEntries hv (Value.mem_of_field? (Value.field?_put_self ..))

theorem within_predicate {field id : String} {r held : Request}
    (h : within (Scope.tenant (.str id) field) r = .ok held) (p : Predicate)
    (hp : held.predicate = .ok p) : p.Implies (.compare field .eq (.str id)) := by
  have hmem := within_filters (by simp) h
  have hvalue : Condition.ofValue (.str id) = .exact (.str id) := by
    rw [Condition.ofValue] <;> simp
  rw [hvalue] at hmem
  apply Request.predicate_implies hp hmem
  rw [Predicate.ofCondition]
  · rfl
  · simp

/-- A tenant's builder answers on all rows as it does on the rows of the tenant alone, whatever is
asked: the tenant's answers, when there are any, depend on no other row. -/
theorem tenant_isolation {S : Type} (store : S → Store) (config : Config) {id : String}
    (hid : id ≠ "") (field : String) (r : Request) (w own : Logged S)
    (hown : store own.state
      = (store w.state).keeping (Predicate.compare field .eq (.str id)).holds) :
    ∃ b, tenant (.str id) field (base config (.ofStore store)) = .ok b ∧
      (∀ maxLimit response, ((b.query r maxLimit).runOn w).1 = .ok response →
        ((b.query r maxLimit).runOn own).1 = .ok response) ∧
      (∀ response, ((b.cursorQuery r).runOn w).1 = .ok response →
        ((b.cursorQuery r).runOn own).1 = .ok response) ∧
      (∀ total, ((b.count r).runOn w).1 = .ok total → ((b.count r).runOn own).1 = .ok total) ∧
      (∀ aggregations answers, ((b.aggregate r aggregations).runOn w).1 = .ok answers →
        ((b.aggregate r aggregations).runOn own).1 = .ok answers) := by
  have hscope : tenant (.str id) field (base config (.ofStore store))
      = .ok ((base config (.ofStore store)).inScope (Scope.tenant (.str id) field)) := by
    have htruthy : (Value.str id).truthy = true := by
      rw [Value.truthy, decide_eq_true_eq]
      exact hid
    unfold tenant
    rw [if_pos htruthy]
  refine ⟨_, hscope, ?_, ?_, ?_, ?_⟩
  · intro maxLimit response h
    have hreads := inScope_query (Scope.tenant (.str id) field) (r := r)
      fun r => base_query store config r maxLimit
    rw [(hreads w).1] at h
    obtain ⟨held, hheld, h⟩ := Outcome.bind_eq_ok.mp h
    rw [(hreads own).1]
    dsimp only
    rw [hheld, Outcome.ok_bind, hown]
    exact Store.answerPage_keeping (within_predicate hheld) h
  · intro response h
    have hreads := inScope_cursorQuery (Scope.tenant (.str id) field) (r := r)
      fun r => base_cursorQuery store config r
    rw [(hreads w).1] at h
    obtain ⟨held, hheld, h⟩ := Outcome.bind_eq_ok.mp h
    rw [(hreads own).1]
    dsimp only
    rw [hheld, Outcome.ok_bind, hown]
    exact Store.answerWindow_keeping (within_predicate hheld) h
  · intro total h
    have hreads := inScope_count (Scope.tenant (.str id) field) (r := r)
      fun r => base_count store config r
    rw [(hreads w).1] at h
    obtain ⟨held, hheld, h⟩ := Outcome.bind_eq_ok.mp h
    rw [(hreads own).1]
    dsimp only
    rw [hheld, Outcome.ok_bind, hown]
    exact Store.answerCount_keeping (within_predicate hheld) h
  · intro aggregations answers h
    have hreads := inScope_aggregate (Scope.tenant (.str id) field) (r := r)
      fun r => base_aggregate store config r aggregations
    rw [(hreads w).1] at h
    obtain ⟨held, hheld, h⟩ := Outcome.bind_eq_ok.mp h
    rw [(hreads own).1]
    dsimp only
    rw [hheld, Outcome.ok_bind, hown]
    exact Store.answerAggregate_keeping (within_predicate hheld) h

/-- a tenant that asks for another one's rows gets its own -/
theorem tenant_isolation_count :
    let rows : List Value := [.record [("owner", .str "a"), ("n", .int 1)],
      .record [("owner", .str "b"), ("n", .int 2)], .record [("owner", .str "a"), ("n", .int 3)]]
    let ownRows : List Value := [.record [("owner", .str "a"), ("n", .int 1)],
      .record [("owner", .str "a"), ("n", .int 3)]]
    let r : Request := { model := some "m", filters := [("owner", .exact (.str "b"))] }
    ∃ b, tenant (.str "a") "owner" (base {} (.ofStore id)) = .ok b ∧
      ((b.count r).runOn (⟨⟨[(.str "m", rows)]⟩, []⟩ : Logged Store)).1 = .ok 2 ∧
      ((b.count r).runOn (⟨⟨[(.str "m", ownRows)]⟩, []⟩ : Logged Store)).1 = .ok 2 := by
  intro rows ownRows r
  obtain ⟨b, hb, _, _, hcount, _⟩ := tenant_isolation id {} (show "a" ≠ "" by decide) "owner" r
    ⟨⟨[(.str "m", rows)]⟩, []⟩ ⟨⟨[(.str "m", ownRows)]⟩, []⟩ rfl
  cases hb
  exact ⟨_, rfl, rfl, hcount 2 rfl⟩

end Builder

end ListQuery
