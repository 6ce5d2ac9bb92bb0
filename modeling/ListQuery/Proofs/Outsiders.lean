import ListQuery.Proofs.Layers.Within
import ListQuery.Proofs.Matching

/-!
# Rows outside a scope

The entry of a scope stands behind the request's own filters, or in the place of the one on its field.
A row outside the scope is put to the filters in front of that entry and to nothing else: it takes no
part in an answer, but where it is a fault for one of these filters there is no answer at all.

* `Condition.ofEntries_put`       the place of an entry that is written over conditions;
* `Builder.within_outside`        what a row outside a scope is put to;
* `Request.Asked`                 an answer that is made from the rows of a request's tree;
* `Store.Spares`                  no row outside a scope is a fault for the filters in front;
* `Store.answers_iff`             there is an answer exactly if the rows of the scope have it and the
                                  others are spared;
* `Builder.tenant_answers_iff`    the four questions of a tenant.
-/

namespace ListQuery

/-! ## places -/

theorem Condition.ofEntries_put {v : Value} (hv : v ≠ .unset) (field : String)
    (cs : List (String × Condition)) :
    ∃ behind, ofEntries (Value.put field v (asEntries cs))
      = cs.takeWhile (·.1 ≠ field) ++ (field, ofValue v) :: behind := by
  induction cs with
  | nil => exact ⟨[], by rw [List.takeWhile_nil]; simp [asEntries, Value.put, ofEntries]⟩
  | cons e rest ih =>
    obtain ⟨name, c⟩ := e
    show ∃ behind, ofEntries (Value.put field v ((name, .condition c) :: asEntries rest)) = _
    by_cases hname : name = field
    · refine ⟨rest, ?_⟩
      rw [Value.put, if_pos hname, ofEntries, Request.ofEntries_asEntries,
        List.takeWhile_cons_of_neg (by simpa), hname]
      · rfl
      · exact hv
    · obtain ⟨behind, hrest⟩ := ih
      refine ⟨behind, ?_⟩
      rw [Value.put, if_neg hname, ofEntries, hrest, ofValue_condition,
        List.takeWhile_cons_of_pos (by simpa)]
      · rfl
      · simp

namespace Predicate

theorem ofConditionList_append {xs ys : List (String × Condition)} {ps : List Predicate}
    (h : ofConditionList (xs ++ ys) = .ok ps) :
    ∃ front back, ofConditionList xs = .ok front ∧ ofConditionList ys = .ok back ∧
      ps = front ++ back := by
  induction xs generalizing ps with
  | nil => exact ⟨[], ps, rfl, h, rfl⟩
  | cons e rest ih =>
    rw [List.cons_append, ofConditionList, Outcome.bind_eq_ok] at h
    obtain ⟨here, hhere, h⟩ := h
    obtain ⟨others, hothers, h⟩ := Outcome.bind_eq_ok.mp h
    cases h
    obtain ⟨front, back, hfront, hback, rfl⟩ := ih hothers
    exact ⟨here :: front, back, by rw [ofConditionList, hhere, hfront]; rfl, hback, rfl⟩

/-- a row that fails a part is put to the parts in front of it -/
theorem evaluateAll_failed {front back : List Predicate} {p : Predicate} {row : Value}
    (h : p.evaluate row = .ok false) :
    evaluateAll (front ++ p :: back) row = (evaluateAll front row >>= fun _ => .ok false) := by
  rw [evaluateAll_append, evaluateAll, h]
  cases evaluateAll front row with
  | error e => rfl
  | ok b => cases b <;> rfl

theorem evaluate_of_select {p : Predicate} {rows selected : List Value}
    (h : p.select rows = .ok selected) : ∀ row ∈ rows, ∃ b, p.evaluate row = .ok b := by
  induction rows generalizing selected with
  | nil => exact fun _ hrow => absurd hrow List.not_mem_nil
  | cons row rest ih =>
    rw [select, Outcome.bind_eq_ok] at h
    obtain ⟨here, hhere, h⟩ := h
    obtain ⟨others, hothers, _⟩ := Outcome.bind_eq_ok.mp h
    rw [List.forall_mem_cons]
    exact ⟨⟨here, hhere⟩, ih hothers⟩

theorem select_outside {p : Predicate} {keep : Value → Bool} {rows : List Value}
    (h : ∀ row ∈ rows, keep row = false → p.evaluate row = .ok false) :
    p.select rows = p.select (rows.filter keep) := by
  induction rows with
  | nil => rfl
  | cons row rest ih =>
    rw [List.forall_mem_cons] at h
    cases hkeep : keep row with
    | true => rw [List.filter_cons_of_pos hkeep, select, select, ih h.2]
    | false =>
      rw [List.filter_cons_of_neg (by simp [hkeep]), select, h.1 hkeep, Outcome.ok_bind, ih h.2]
      cases select p (rest.filter keep) <;> rfl

end Predicate

/-! ## rows outside -/

/-- the filters in front of an entry on a field that is written over the request's own -/
def Request.filtersBefore (r : Request) (field : String) : List (String × Condition) :=
  r.filters.takeWhile (·.1 ≠ field)

namespace Builder

/-- a row outside a tenant's scope is put to the filters in front of the tenant's -/
theorem within_outside {field id : String} {r held : Request}
    (h : within (Scope.tenant (.str id) field) r = .ok held) {p : Predicate}
    (hp : held.predicate = .ok p) :
    ∃ before, Predicate.ofConditions (r.filtersBefore field) = .ok before ∧
      ∀ row, (Predicate.compare field .eq (.str id)).holds row = false →
        p.evaluate row = (before.evaluate row >>= fun _ => .ok false) := by
  have hid : (Value.str id) ≠ .unset := by simp
  obtain ⟨behind, hplace⟩ := Condition.ofEntries_put hid field r.filters
  have hfilters : held.filters = r.filtersBefore field ++ (field, .exact (.str id)) :: behind := by
    rw [← (within_fields h).2, hplace]
    rfl
  unfold Request.predicate at hp
  rw [Outcome.bind_eq_ok] at hp
  obtain ⟨filters, htree, hp⟩ := hp
  obtain ⟨relations, _, hp⟩ := Outcome.bind_eq_ok.mp hp
  obtain ⟨groups, _, hp⟩ := Outcome.bind_eq_ok.mp hp
  obtain ⟨excluded, _, hp⟩ := Outcome.bind_eq_ok.mp hp
  cases hp
  rw [Predicate.ofConditions, hfilters, Outcome.bind_eq_ok] at htree
  obtain ⟨parts, hparts, htree⟩ := htree
  cases htree
  obtain ⟨front, back, hfront, hback, rfl⟩ := Predicate.ofConditionList_append hparts
  rw [Predicate.ofConditionList, Outcome.bind_eq_ok] at hback
  obtain ⟨test, htest, hback⟩ := hback
  obtain ⟨later, _, hback⟩ := Outcome.bind_eq_ok.mp hback
  cases hback
  obtain rfl : test = .compare field .eq (.str id) := (Except.ok.inj htest).symm
  refine ⟨.all front, by rw [Predicate.ofConditions, hfront]; rfl, fun row hrow => ?_⟩
  have hfailed : (Predicate.compare field .eq (.str id)).evaluate row = .ok false := by
    have htest : Operator.eq.check? = some fun a b => .ok (Value.equals a b) := rfl
    obtain ⟨b, hb⟩ := Predicate.compareWith_ok htest (.str id) (row.resolve field)
    rw [← Predicate.evaluate] at hb
    rw [Predicate.holds, hb] at hrow
    exact hrow ▸ hb
  rw [Predicate.evaluate_all, Predicate.evaluate_all, Predicate.evaluateAll, Predicate.evaluate_all,
    Predicate.evaluateAll_failed hfailed]
  cases Predicate.evaluateAll front row <;> rfl

end Builder

/-! ## answers from matching rows -/

/-- an answer that is made from the rows that meet the request's tree -/
structure Request.Asked (r : Request) {α : Type} (answer : Store → Outcome α) : Prop where
  same {s t : Store} (h : ∀ p, r.predicate = .ok p →
    s.matching (.ofText? r.model) p = t.matching (.ofText? r.model) p) : answer s = answer t
  matched {s : Store} {x : α} (h : answer s = .ok x) :
    ∃ p rows, r.predicate = .ok p ∧ s.matching (.ofText? r.model) p = .ok rows

theorem Plan.Asks.matching {plan : Plan} {r : Request} (h : plan.Asks r) {s t : Store}
    (hrows : ∀ p, r.predicate = .ok p →
      s.matching (.ofText? r.model) p = t.matching (.ofText? r.model) p) :
    s.matching plan.model plan.predicate = t.matching plan.model plan.predicate := by
  rw [h.model]
  exact hrows plan.predicate h.predicate

namespace Store

variable {s : Store} {config : Config} {r : Request}

theorem asked_page (maxLimit : Value) : r.Asked (·.answerPage config r maxLimit) where
  same {s t} h := by
    show (Plan.ofPage config r maxLimit >>= _) = (Plan.ofPage config r maxLimit >>= _)
    cases hplan : Plan.ofPage config r maxLimit with
    | error e => rfl
    | ok plan =>
      cases hcount : Plan.ofCount r with
      | error e => rfl
      | ok countPlan =>
        have hfind : s.find plan = t.find plan :=
          find_matching plan ((Plan.ofPage_asks hplan).matching h)
        have hcounted : s.count countPlan = t.count countPlan :=
          count_matching countPlan ((Plan.ofCount_asks hcount).matching h)
        dsimp only [Outcome.ok_bind]
        rw [hfind, hcounted]
  matched {s x} h := by
    obtain ⟨plan, hplan, h⟩ := Outcome.bind_eq_ok.mp h
    obtain ⟨entry, _, h⟩ := Outcome.bind_eq_ok.mp h
    obtain ⟨countPlan, _, h⟩ := Outcome.bind_eq_ok.mp h
    obtain ⟨found, hfound, _⟩ := Outcome.bind_eq_ok.mp h
    obtain ⟨rows, hrows, _⟩ := Outcome.bind_eq_ok.mp hfound
    have hasks := Plan.ofPage_asks hplan
    exact ⟨plan.predicate, rows, hasks.predicate, hasks.model ▸ hrows⟩

theorem asked_window : r.Asked (·.answerWindow config r) where
  same {s t} h := by
    show (Plan.ofCursor config r .null >>= _) = (Plan.ofCursor config r .null >>= _)
    cases hplan : Plan.ofCursor config r .null with
    | error e => rfl
    | ok plan =>
      have hfind : s.find plan = t.find plan :=
        find_matching plan ((Plan.ofCursor_asks hplan).matching h)
      dsimp only [Outcome.ok_bind]
      rw [hfind]
  matched {s x} h := by
    obtain ⟨plan, hplan, h⟩ := Outcome.bind_eq_ok.mp h
    obtain ⟨entry, _, h⟩ := Outcome.bind_eq_ok.mp h
    obtain ⟨found, hfound, _⟩ := Outcome.bind_eq_ok.mp h
    obtain ⟨rows, hrows, _⟩ := Outcome.bind_eq_ok.mp hfound
    have hasks := Plan.ofCursor_asks hplan
    exact ⟨plan.predicate, rows, hasks.predicate, hasks.model ▸ hrows⟩

theorem asked_count : r.Asked (·.answerCount r) where
  same {s t} h := by
    show (Plan.ofCount r >>= _) = (Plan.ofCount r >>= _)
    cases hplan : Plan.ofCount r with
    | error e => rfl
    | ok plan => exact count_matching plan ((Plan.ofCount_asks hplan).matching h)
  matched {s x} h := by
    obtain ⟨plan, hplan, h⟩ := Outcome.bind_eq_ok.mp h
    obtain ⟨rows, hrows, _⟩ := Outcome.bind_eq_ok.mp h
    have hasks := Plan.ofCount_asks hplan
    exact ⟨plan.predicate, rows, hasks.predicate, hasks.model ▸ hrows⟩

theorem asked_aggregate (aggregations : Value) : r.Asked (·.answerAggregate r aggregations) where
  same {s t} h := by
    show (Plan.ofAggregate r aggregations >>= _) = (Plan.ofAggregate r aggregations >>= _)
    cases hplan : Plan.ofAggregate r aggregations with
    | error e => rfl
    | ok plan => exact aggregate_matching plan ((Plan.ofAggregate_asks hplan).matching h)
  matched {s x} h := by
    obtain ⟨plan, hplan, h⟩ := Outcome.bind_eq_ok.mp h
    obtain ⟨rows, hrows, _⟩ := Outcome.bind_eq_ok.mp h
    have hasks := Plan.ofAggregate_asks hplan
    exact ⟨plan.predicate, rows, hasks.predicate, hasks.model ▸ hrows⟩

/-! ## spared rows -/

/-- no row outside a tenant's scope is a fault for the filters in front of the tenant's -/
def Spares (s : Store) (field id : String) (r : Request) : Prop :=
  ∀ rows, s.rows (.ofText? r.model) = .ok rows → ∀ row ∈ rows,
    (Predicate.compare field .eq (.str id)).holds row = false →
      ∀ p, Predicate.ofConditions (r.filtersBefore field) = .ok p → ∃ b, p.evaluate row = .ok b

theorem spares_of_first {field id : String} (h : r.filtersBefore field = []) :
    s.Spares field id r := by
  intro rows _ row _ _ p hp
  rw [h] at hp
  cases hp
  exact ⟨true, by rw [Predicate.evaluate_all]; rfl⟩

theorem rows_of_keeping {keep : Value → Bool} {model : Value} {kept : List Value}
    (h : (s.keeping keep).rows model = .ok kept) :
    ∃ rows, s.rows model = .ok rows ∧ kept = rows.filter keep := by
  cases hrows : s.rows model with
  | ok rows =>
    rw [rows_keeping hrows] at h
    exact ⟨rows, rfl, (Except.ok.inj h).symm⟩
  | error e =>
    unfold rows at h hrows
    split at hrows
    · rename_i hhash
      rw [if_pos hhash] at h
      cases h
    · rename_i hhash
      have hfind : (s.keeping keep).collections.find? (·.1.equals model)
          = (s.collections.find? (·.1.equals model)).map fun c => (c.1, c.2.filter keep) := by
        show (s.collections.map _).find? _ = _
        rw [List.find?_map]
        rfl
      rw [if_neg hhash, hfind] at h
      split at hrows
      · cases hrows
      · rename_i hnone
        rw [hnone] at h
        cases h

/-- A tenant has an answer exactly if its own rows have it and no other row is a fault for the filters
in front of the tenant's. -/
theorem answers_iff {field id : String} {r held : Request}
    (hheld : Builder.within (Scope.tenant (.str id) field) r = .ok held) {α : Type}
    {answer : Store → Outcome α} (hanswer : held.Asked answer) (s : Store) (x : α) :
    answer s = .ok x ↔
      answer (s.keeping (Predicate.compare field .eq (.str id)).holds) = .ok x ∧
        s.Spares field id r := by
  have hmodel := (Builder.within_fields hheld).1
  constructor
  · intro h
    obtain ⟨p, matched, hp, hmatched⟩ := hanswer.matched h
    have hown : answer s = answer (s.keeping (Predicate.compare field .eq (.str id)).holds) := by
      apply hanswer.same
      intro q hq
      rw [hp] at hq
      cases hq
      rw [hmatched, matching_keeping (Builder.within_predicate hheld p hp) hmatched]
    refine ⟨hown ▸ h, fun rows hrows row hrow hout before hbefore => ?_⟩
    obtain ⟨before', hbefore', hput⟩ := Builder.within_outside hheld hp
    rw [hbefore] at hbefore'
    cases hbefore'
    unfold matching at hmatched
    rw [hmodel, hrows, Outcome.ok_bind] at hmatched
    obtain ⟨b, hb⟩ := Predicate.evaluate_of_select hmatched row hrow
    rw [hput row hout] at hb
    obtain ⟨answered, hanswered, _⟩ := Outcome.bind_eq_ok.mp hb
    exact ⟨answered, hanswered⟩
  · rintro ⟨h, hspares⟩
    obtain ⟨p, matched, hp, hmatched⟩ := hanswer.matched h
    obtain ⟨before, hbefore, hput⟩ := Builder.within_outside hheld hp
    obtain ⟨kept, hkept, _⟩ := Outcome.bind_eq_ok.mp hmatched
    obtain ⟨rows, hrows, rfl⟩ := rows_of_keeping hkept
    rw [← h]
    apply hanswer.same
    intro q hq
    rw [hp] at hq
    cases hq
    unfold matching
    rw [hkept, hrows, Outcome.ok_bind, Outcome.ok_bind]
    apply Predicate.select_outside
    intro row hrow hout
    rw [hmodel] at hrows
    obtain ⟨b, hb⟩ := hspares rows hrows row hrow hout before hbefore
    rw [hput row hout, hb]
    rfl

end Store

/-! ## tenants -/

namespace Builder

theorem scoped_answers_iff {S α : Type} (store : S → Store) {field id : String} {r : Request}
    (answer : Request → Store → Outcome α) {a : Action S α}
    (hreads : a.Reads fun s => within (Scope.tenant (.str id) field) r >>= fun held =>
      answer held (store s))
    (hasked : ∀ held : Request, held.Asked (answer held)) {w own : Logged S}
    (hown : store own.state
      = (store w.state).keeping (Predicate.compare field .eq (.str id)).holds) (x : α) :
    (a.runOn w).1 = .ok x ↔ (a.runOn own).1 = .ok x ∧ (store w.state).Spares field id r := by
  rw [(hreads w).1, (hreads own).1]
  cases hheld : within (Scope.tenant (.str id) field) r with
  | error e => exact iff_of_false (fun h => nomatch h) fun h => nomatch h.1
  | ok held =>
    show answer held (store w.state) = .ok x ↔ answer held (store own.state) = .ok x ∧ _
    rw [hown]
    exact Store.answers_iff hheld (hasked held) (store w.state) x

/-- What a tenant is answered on its own rows it is answered on all rows, whatever the question,
exactly if no row of another tenant is a fault for the filters in front of the tenant's. -/
theorem tenant_answers_iff {S : Type} (store : S → Store) (config : Config) {id : String}
    (hid : id ≠ "") (field : String) (r : Request) (w own : Logged S)
    (hown : store own.state
      = (store w.state).keeping (Predicate.compare field .eq (.str id)).holds) :
    ∃ b, tenant (.str id) field (base config (.ofStore store)) = .ok b ∧
      (∀ maxLimit response, ((b.query r maxLimit).runOn w).1 = .ok response ↔
        ((b.query r maxLimit).runOn own).1 = .ok response ∧
          (store w.state).Spares field id r) ∧
      (∀ response, ((b.cursorQuery r).runOn w).1 = .ok response ↔
        ((b.cursorQuery r).runOn own).1 = .ok response ∧ (store w.state).Spares field id r) ∧
      (∀ total, ((b.count r).runOn w).1 = .ok total ↔
        ((b.count r).runOn own).1 = .ok total ∧ (store w.state).Spares field id r) ∧
      (∀ aggregations answers, ((b.aggregate r aggregations).runOn w).1 = .ok answers ↔
        ((b.aggregate r aggregations).runOn own).1 = .ok answers ∧
          (store w.state).Spares field id r) ∧
      (r.filtersBefore field = [] → (store w.state).Spares field id r) := by
  have hscope : tenant (.str id) field (base config (.ofStore store))
      = .ok ((base config (.ofStore store)).inScope (Scope.tenant (.str id) field)) := by
    have htruthy : (Value.str id).truthy = true := by
      rw [Value.truthy, decide_eq_true_eq]
      exact hid
    unfold tenant
    rw [if_pos htruthy]
  refine ⟨_, hscope, fun maxLimit => ?_, ?_, ?_, fun aggregations => ?_, Store.spares_of_first⟩
  · exact scoped_answers_iff store (fun held s => s.answerPage config held maxLimit)
      (inScope_query _ fun r => base_query store config r maxLimit)
      (fun held => Store.asked_page maxLimit) hown
  · exact scoped_answers_iff store (fun held s => s.answerWindow config held)
      (inScope_cursorQuery _ fun r => base_cursorQuery store config r)
      (fun held => Store.asked_window) hown
  · exact scoped_answers_iff store (fun held s => s.answerCount held)
      (inScope_count _ fun r => base_count store config r)
      (fun held => Store.asked_count) hown
  · exact scoped_answers_iff store (fun held s => s.answerAggregate held aggregations)
      (inScope_aggregate _ fun r => base_aggregate store config r aggregations)
      (fun held => Store.asked_aggregate aggregations) hown

/-- a tenant whose own entry comes first is not troubled by ages that are texts -/
theorem tenant_answers_iff_first :
    let rows : List Value := [.record [("owner", .str "a"), ("age", .int 3)],
      .record [("owner", .str "b"), ("age", .str "x")]]
    let ownRows : List Value := [.record [("owner", .str "a"), ("age", .int 3)]]
    let r : Request := { model := some "m", filters := [("owner", .exact (.str "b")),
      ("age", .range (.int 1) .null)] }
    ∃ b, tenant (.str "a") "owner" (base {} (.ofStore id)) = .ok b ∧
      ((b.count r).runOn (⟨⟨[(.str "m", ownRows)]⟩, []⟩ : Logged Store)).1 = .ok 1 ∧
      ((b.count r).runOn (⟨⟨[(.str "m", rows)]⟩, []⟩ : Logged Store)).1 = .ok 1 := by
  intro rows ownRows r
  obtain ⟨b, hb, _, _, hcount, _, hfirst⟩ := tenant_answers_iff id {} (show "a" ≠ "" by decide)
    "owner" r ⟨⟨[(.str "m", rows)]⟩, []⟩ ⟨⟨[(.str "m", ownRows)]⟩, []⟩ rfl
  cases hb
  exact ⟨_, rfl, rfl, (hcount 1).mpr ⟨rfl, hfirst rfl⟩⟩

/-- the age of another tenant's row is a fault where the tenant's entry comes behind -/
theorem tenant_outsider_fault :
    let rows : List Value := [.record [("owner", .str "a"), ("age", .int 3)],
      .record [("owner", .str "b"), ("age", .str "x")]]
    let r : Request := { model := some "m", filters := [("age", .range (.int 1) .null)] }
    let all : Store := ⟨[(.str "m", rows)]⟩
    let own := all.keeping (Predicate.compare "owner" .eq (.str "a")).holds
    ∃ b, tenant (.str "a") "owner" (base {} (.ofStore id)) = .ok b ∧
      ((b.count r).runOn ⟨own, []⟩).1 = .ok 1 ∧
      ((b.count r).runOn ⟨all, []⟩).1 = .error .wrongKind :=
  ⟨_, rfl, rfl, rfl⟩

end Builder

end ListQuery
