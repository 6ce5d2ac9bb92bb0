import ListQuery.Proofs.Request.Resolved

/-!
# Requests as they are written

A resolved request can be written as a record, since each of its conditions can.

* `Condition.toValue_ok`   a resolved condition has a written form;
* `Request.toRecord_ok`    a resolved request has one.
-/

namespace ListQuery

theorem Outcome.mapM_ok {α β : Type} {f : α → Outcome β} (xs : List α)
    (h : ∀ x ∈ xs, ∃ y, f x = .ok y) : ∃ ys, xs.mapM f = .ok ys := by
  induction xs with
  | nil => exact ⟨[], rfl⟩
  | cons x rest ih =>
    rw [List.forall_mem_cons] at h
    obtain ⟨y, hy⟩ := h.1
    obtain ⟨ys, hys⟩ := ih h.2
    exact ⟨y :: ys, Outcome.mapM_cons_eq_ok.mpr ⟨y, ys, hy, hys, rfl⟩⟩

namespace Condition

mutual

theorem toValue_ok : (c : Condition) → c.resolved = true → ∃ v, c.toValue = .ok v
  | .related q nested, h => by
    rw [resolved, Bool.and_eq_true] at h
    obtain ⟨written, hwritten⟩ := nestedToValue_ok nested h.2
    exact ⟨_, by rw [toValue, hwritten]; rfl⟩
  | .exact v, _ => ⟨v, by rw [toValue]⟩
  | .oneOf vs, _ => ⟨.list vs, by rw [toValue]⟩
  | .range lo hi, _ => ⟨_, by rw [toValue]⟩
  | .flag v, _ => ⟨v, by rw [toValue]⟩
  | .differs v, _ => ⟨_, by rw [toValue]⟩

theorem nestedToValue_ok :
    (v : Value) → nestedResolved v = true → ∃ written, nestedToValue v = .ok written
  | .record entries, h => by
    rw [nestedResolved] at h
    obtain ⟨written, hwritten⟩ := entriesToValue_ok entries h
    exact ⟨written, by rw [nestedToValue, hwritten]⟩

theorem entriesToValue_ok : (entries : List (String × Value)) → entriesResolved entries = true →
    ∃ written, entriesToValue entries = .ok written
  | [], _ => ⟨[], by rw [entriesToValue]⟩
  | (name, .condition c) :: rest, h => by
    rw [entriesResolved, Bool.and_eq_true] at h
    obtain ⟨here, hhere⟩ := toValue_ok c h.1
    obtain ⟨others, hothers⟩ := entriesToValue_ok rest h.2
    exact ⟨(name, here) :: others, by rw [entriesToValue, hhere, hothers]; rfl⟩

end

theorem filtersToValue_ok {cs : List (String × Condition)} (h : ∀ e ∈ cs, e.2.resolved = true) :
    ∃ written, filtersToValue cs = .ok written := by
  induction cs with
  | nil => exact ⟨[], rfl⟩
  | cons e rest ih =>
    rw [List.forall_mem_cons] at h
    obtain ⟨here, hhere⟩ := toValue_ok e.2 h.1
    obtain ⟨others, hothers⟩ := ih h.2
    exact ⟨(e.1, here) :: others, by rw [filtersToValue, hhere, hothers]; rfl⟩

end Condition

namespace Request

theorem relationToValue_ok {cs : List Condition}
    (h : ∀ c ∈ cs, c.isRelated = true ∧ c.resolved = true) : ∃ v, relationToValue cs = .ok v := by
  have hfold (entries : List (String × Value)) : ∃ written,
      (cs.foldlM (fun entries c => do
        return Value.overlay entries (← (← c.toValue).entries)) entries : Outcome _) = .ok written := by
    induction cs generalizing entries with
    | nil => exact ⟨entries, rfl⟩
    | cons c rest ih =>
      rw [List.forall_mem_cons] at h
      cases c with
      | related q nested =>
        have hresolved := h.1.2
        rw [Condition.resolved, Bool.and_eq_true] at hresolved
        obtain ⟨written, hwritten⟩ := Condition.nestedToValue_ok nested hresolved.2
        obtain ⟨all, hall⟩ := ih h.2 (Value.overlay entries [(q, .record written)])
        refine ⟨all, ?_⟩
        rw [List.foldlM_cons, Condition.toValue, hwritten]
        exact hall
      | _ => cases h.1.1
  obtain ⟨written, hwritten⟩ := hfold []
  exact ⟨.record written, by rw [relationToValue, hwritten]; rfl⟩

theorem toRecord_ok {r : Request} (h : r.Resolved) : ∃ fields, r.toRecord = .ok fields := by
  obtain ⟨relations, hrelations⟩ := Outcome.mapM_ok r.relationFilters
      (f := fun entry => do return (entry.1, ← relationToValue entry.2)) fun e he => by
    obtain ⟨v, hv⟩ := relationToValue_ok (h.relations e he).2
    exact ⟨(e.1, v), by rw [hv]; rfl⟩
  obtain ⟨filters, hfilters⟩ := Condition.filtersToValue_ok h.filters
  obtain ⟨groups, hgroups⟩ := Outcome.mapM_ok r.orFilters
      (f := fun group => Value.record <$> Condition.filtersToValue group) fun g hg => by
    obtain ⟨v, hv⟩ := Condition.filtersToValue_ok (h.groups g hg)
    exact ⟨.record v, by rw [hv]; rfl⟩
  obtain ⟨excluded, hexcluded⟩ := Condition.filtersToValue_ok h.excluded
  unfold toRecord
  rw [hrelations, Outcome.ok_bind, hfilters, Outcome.ok_bind, hgroups, Outcome.ok_bind, hexcluded]
  exact ⟨_, rfl⟩

end Request

end ListQuery
