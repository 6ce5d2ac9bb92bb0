import ListQuery.Collection.Order

/-!
# Sorting keeps the rows

However rows are sorted, stably or by halves, upwards or downwards, no row is lost, repeated or
invented.

* `sortByHalves_perm`    insertion by halves;
* `SortKey.sort_perm`    one key;
* `sortRows_perm`        several keys.
-/

namespace ListQuery

/-! ## insertion by halves -/

section
variable {α : Type} {before : α → α → Outcome Bool}

theorem restOfRun_append {falling : Bool} {last : α} {xs run left : List α}
    (h : restOfRun before falling last xs = .ok (run, left)) : run ++ left = xs := by
  induction xs generalizing last run left with
  | nil => cases h; rfl
  | cons x rest ih =>
    rw [restOfRun, Outcome.bind_eq_ok] at h
    obtain ⟨b, _, h⟩ := h
    split at h
    · rw [Outcome.bind_eq_ok] at h
      obtain ⟨⟨more, other⟩, hmore, h⟩ := h
      cases h
      rw [List.cons_append, ih hmore]
    · cases h; rfl

theorem firstRun_perm {xs run left : List α} (h : firstRun before xs = .ok (run, left)) :
    (run ++ left).Perm xs := by
  match xs with
  | [] => cases h; exact List.Perm.refl _
  | [x] => cases h; exact List.Perm.refl _
  | x :: y :: rest =>
    rw [firstRun, Outcome.bind_eq_ok] at h
    obtain ⟨falling, _, h⟩ := h
    rw [Outcome.bind_eq_ok] at h
    obtain ⟨⟨more, other⟩, hmore, h⟩ := h
    have hrest := restOfRun_append hmore
    subst hrest
    cases h
    split
    · exact (List.reverse_perm _).append_right _
    · exact List.Perm.refl _

theorem insertByHalves_perm {x : α} {sorted next : List α}
    (h : insertByHalves before sorted x = .ok next) : next.Perm (x :: sorted) := by
  rw [insertByHalves, Outcome.bind_eq_ok] at h
  obtain ⟨place, _, h⟩ := h
  cases h
  have hmid : (sorted.take place ++ x :: sorted.drop place).Perm
      (x :: (sorted.take place ++ sorted.drop place)) := List.perm_middle
  rw [List.take_append_drop] at hmid
  exact hmid

theorem foldlM_insertByHalves_perm {xs sorted next : List α}
    (h : xs.foldlM (insertByHalves before) sorted = .ok next) : next.Perm (sorted ++ xs) := by
  induction xs generalizing sorted with
  | nil => cases h; rw [List.append_nil]
  | cons x xs ih =>
    rw [List.foldlM_cons, Outcome.bind_eq_ok] at h
    obtain ⟨further, hfurther, h⟩ := h
    have hx := (insertByHalves_perm hfurther).append_right xs
    exact (ih h).trans (hx.trans List.perm_middle.symm)

theorem sortByHalves_perm {xs sorted : List α} (h : sortByHalves before xs = .ok sorted) :
    sorted.Perm xs := by
  rw [sortByHalves, Outcome.bind_eq_ok] at h
  obtain ⟨⟨run, rest⟩, hrun, h⟩ := h
  exact (foldlM_insertByHalves_perm h).trans (firstRun_perm hrun)

end

/-! ## rows -/

theorem SortKey.sortPartly_perm {k : SortKey} {keyed sorted : List (Value × Value)}
    (h : k.sortPartly keyed = .ok sorted) : sorted.Perm keyed := by
  unfold SortKey.sortPartly at h
  dsimp only at h
  split at h
  · rw [map_eq_pure_bind, Outcome.bind_eq_ok] at h
    obtain ⟨upwards, hup, h⟩ := h
    cases h
    have hperm := sortByHalves_perm hup
    exact (List.reverse_perm _).trans (hperm.trans (List.reverse_perm _))
  · exact sortByHalves_perm h

theorem SortKey.keyed_rows {k : SortKey} {rows : List Value} {keyed : List (Value × Value)}
    (h : (rows.mapM fun row => do return (row.resolve (← k.field.path), row)) = .ok keyed) :
    keyed.map (·.2) = rows := by
  induction rows generalizing keyed with
  | nil => cases h; rfl
  | cons row rows ih =>
    obtain ⟨pair, rest, hpair, hrest, rfl⟩ := Outcome.mapM_cons_eq_ok.mp h
    rw [Outcome.bind_eq_ok] at hpair
    obtain ⟨path, _, hpair⟩ := hpair
    cases hpair
    rw [List.map_cons, ih hrest]

theorem SortKey.sort_perm {k : SortKey} {rows sorted : List Value} (h : k.sort rows = .ok sorted) :
    sorted.Perm rows := by
  rw [SortKey.sort, Outcome.bind_eq_ok] at h
  obtain ⟨keyed, hkeyed, h⟩ := h
  rw [← SortKey.keyed_rows hkeyed]
  dsimp only at h
  split at h
  · cases h
    exact (stableSort_perm _ _).map _
  · obtain ⟨ordered, hordered, h⟩ := Outcome.bind_eq_ok.mp h
    cases h
    exact (SortKey.sortPartly_perm hordered).map _

theorem sortRows_perm {keys : List SortKey} {rows sorted : List Value}
    (h : sortRows keys rows = .ok sorted) : sorted.Perm rows := by
  induction keys generalizing sorted with
  | nil => cases h; exact List.Perm.refl _
  | cons k keys ih =>
    rw [sortRows_cons] at h
    obtain ⟨lesser, hlesser, h⟩ := Outcome.bind_eq_ok.mp h
    exact (SortKey.sort_perm h).trans (ih hlesser)

end ListQuery
