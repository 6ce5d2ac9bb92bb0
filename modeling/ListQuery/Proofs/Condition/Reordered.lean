import ListQuery.Proofs.Condition.Spelled
import ListQuery.Proofs.Value.Reordered

/-!
# Filters with their entries in another order

A filter asks the same of a row in whatever order its entries come, and those of the mappings in it.

* `Condition.SameCondition`         values that stand for conditions that ask the same;
* `Condition.same_of_reordered`     such are a value and the same with its entries in another order;
* `Condition.spelled_of_reordered`  they are spelled alike, but for the order of entries;
* `Condition.ReadAlike`             conditions read from a filter in one order and in another;
* `Condition.relation_same`         the filters of relations.
-/

namespace ListQuery

open Value (JsonLike Reordered SameComparisons)

namespace Condition

structure SameCondition (v w : Value) : Prop where
  comparisons : SameComparisons v w
  meets : ∀ x, (ofValue v).meets x = (ofValue w).meets x
  asks : (ofValue v).asks = (ofValue w).asks
  nested : allMeet (ofNested v) = allMeet (ofNested w)

namespace SameCondition

variable {u v w : Value}

theorem refl (v : Value) : SameCondition v v := ⟨.refl v, fun _ => rfl, rfl, rfl⟩

theorem trans (h : SameCondition u v) (h' : SameCondition v w) : SameCondition u w where
  comparisons := h.comparisons.trans h'.comparisons
  meets x := (h.meets x).trans (h'.meets x)
  asks := h.asks.trans h'.asks
  nested := h.nested.trans h'.nested

end SameCondition

/-! ## comparisons -/

section
variable {v w : Value}

theorem isNull_iff {v : Value} : v.isNull = true ↔ v = .null := by
  cases v <;> simp [Value.isNull]

theorem exact_same (h : SameComparisons v w) (x : Value) :
    (Condition.exact v).meets x = (Condition.exact w).meets x := by
  have hequals : (fun x => Value.equals x v) = fun x => Value.equals x w := funext h.equals
  by_cases hv : v = .null
  · have hw : w = .null := isNull_iff.mp (h.isNull ▸ isNull_iff.mpr hv)
    rw [hv, hw]
  · have hw : w ≠ .null := fun hw => hv (isNull_iff.mp (h.isNull ▸ isNull_iff.mpr hw))
    rw [meets, meets, hequals]
    · exact hw
    · exact hv

theorem differs_same (h : SameComparisons v w) (x : Value) :
    (Condition.differs v).meets x = (Condition.differs w).meets x := by
  have hequals : (fun x => !Value.equals x v) = fun x => !Value.equals x w :=
    funext fun x => congrArg not (h.equals x)
  by_cases hv : v = .null
  · have hw : w = .null := isNull_iff.mp (h.isNull ▸ isNull_iff.mpr hv)
    rw [hv, hw]
  · have hw : w ≠ .null := fun hw => hv (isNull_iff.mp (h.isNull ▸ isNull_iff.mpr hw))
    rw [meets, meets, hequals]
    · exact hw
    · exact hv

theorem within_same (h : SameComparisons v w) (r : Value.Relation) : within r v = within r w := by
  funext x
  unfold within
  rw [h.compares]

theorem range_same {lower upper : Value} (hlower : SameComparisons v lower)
    (hupper : SameComparisons w upper) (x : Value) :
    (Condition.range v w).meets x = (Condition.range lower upper).meets x := by
  rw [meets, meets, hlower.isNull, hupper.isNull, within_same hlower, within_same hupper]

theorem oneOf_same (h : SameComparisons v w) (before after : List Value) (x : Value) :
    (Condition.oneOf (before ++ v :: after)).meets x
      = (Condition.oneOf (before ++ w :: after)).meets x := by
  have hany : (fun x : Value => (before ++ v :: after).any x.agrees)
      = fun x : Value => (before ++ w :: after).any x.agrees := by
    funext x
    rw [List.any_append, List.any_append, List.any_cons, List.any_cons, h.agrees]
  exact congrArg (someItem · x) hany

end

/-! ## records -/

section
variable {v w : Value} {name : String} {xs ys front back : List (String × Value)}

theorem ofEntries_jsonLike (h : ∀ e ∈ xs, e.2.JsonLike) :
    ofEntries xs = xs.map fun e => (e.1, ofValue e.2) := by
  refine ofEntries_map fun e he hunset => ?_
  have hlike := h e he
  rw [hunset] at hlike
  exact hlike

/-- mappings are both ranges or neither of them is -/
theorem bounds_iff (h : Value.SameFields xs ys) :
    (xs ≠ [] ∧ (xs.all fun entry => entry.1 = "from" || entry.1 = "to") = true) ↔
      (ys ≠ [] ∧ (ys.all fun entry => entry.1 = "from" || entry.1 = "to") = true) := by
  rw [h.nonempty_iff, h.all_names fun name => name = "from" || name = "to"]

theorem many_same (hmany : xs.length ≠ 1) (h : Value.SameFields xs ys)
    (hxs : (Value.record xs).JsonLike) (hrecord : (Value.record xs).Reordered (.record ys)) :
    (∀ x, (ofValue (.record xs)).meets x = (ofValue (.record ys)).meets x) ∧
      (ofValue (.record xs)).asks = (ofValue (.record ys)).asks := by
  have hfields (name : String) : SameComparisons ((Value.field? name xs).getD .null)
      ((Value.field? name ys).getD .null) :=
    (h.fields name).comparisons (Value.jsonLike_field hxs name)
  rw [ofValue_record hmany, ofValue_record (h.length_eq ▸ hmany)]
  simp only [bounds_iff h]
  split
  · refine ⟨range_same (hfields "from") (hfields "to"), ?_⟩
    rw [asks_range, asks_range, (hfields "from").isNull, (hfields "to").isNull]
  · exact ⟨exact_same (hrecord.comparisons hxs), rfl⟩

theorem single_same (h : SameCondition v w)
    (hrecord : SameComparisons (.record [(name, v)]) (.record [(name, w)])) :
    (∀ x, (ofValue (.record [(name, v)])).meets x = (ofValue (.record [(name, w)])).meets x) ∧
      (ofValue (.record [(name, v)])).asks = (ofValue (.record [(name, w)])).asks := by
  rw [ofValue, ofValue]
  split
  · refine ⟨range_same h.comparisons (.refl .null), ?_⟩
    rw [asks_range, asks_range, h.comparisons.isNull]
  split
  · refine ⟨range_same (.refl .null) h.comparisons, ?_⟩
    rw [asks_range, asks_range, h.comparisons.isNull]
  split
  · exact ⟨differs_same h.comparisons, rfl⟩
  split
  · refine ⟨fun x => ?_, rfl⟩
    rw [meets_nested, meets_nested, h.nested]
  · exact ⟨exact_same hrecord, rfl⟩

theorem entries_perm (h : xs.Perm ys) (hxs : (Value.record xs).JsonLike) :
    SameCondition (.record xs) (.record ys) := by
  have hrecord := (Reordered.entries h).comparisons hxs
  obtain ⟨hnodup, hparts⟩ := Value.jsonLike_record_iff.mp hxs
  have hnested : allMeet (ofEntries xs) = allMeet (ofEntries ys) := by
    funext row
    rw [ofEntries_jsonLike hparts, ofEntries_jsonLike fun e he => hparts e (h.mem_iff.mpr he)]
    exact (h.map _).all_eq
  by_cases hone : xs.length = 1
  · obtain ⟨e, rfl⟩ := List.length_eq_one_iff.mp hone
    rw [List.singleton_perm.mp h]
    exact .refl _
  · obtain ⟨hmeets, hasks⟩ := many_same hone (.of_perm h hnodup) hxs (.entries h)
    exact ⟨hrecord, hmeets, hasks, hnested⟩

theorem entry_same (h : SameCondition v w) (hvw : v.Reordered w)
    (hv : (Value.record (front ++ (name, v) :: back)).JsonLike) :
    SameCondition (.record (front ++ (name, v) :: back)) (.record (front ++ (name, w) :: back)) := by
  have hentry := Reordered.entry front back name hvw
  have hrecord := hentry.comparisons hv
  have hnested : allMeet (ofEntries (front ++ (name, v) :: back))
      = allMeet (ofEntries (front ++ (name, w) :: back)) := by
    funext row
    rw [ofEntries_jsonLike (Value.jsonLike_record_iff.mp hv).2,
      ofEntries_jsonLike (Value.jsonLike_record_iff.mp (hentry.jsonLike hv)).2]
    simp only [allMeet, List.map_append, List.map_cons, List.all_append, List.all_cons, h.meets]
  by_cases hone : (front ++ (name, v) :: back).length = 1
  · have hempty : front = [] ∧ back = [] := by
      rw [List.length_append, List.length_cons] at hone
      exact ⟨List.length_eq_zero_iff.mp (by omega), List.length_eq_zero_iff.mp (by omega)⟩
    obtain ⟨rfl, rfl⟩ := hempty
    obtain ⟨hmeets, hasks⟩ := single_same h hrecord
    exact ⟨hrecord, hmeets, hasks, hnested⟩
  · obtain ⟨hmeets, hasks⟩ := many_same hone (.of_entry hvw) hv hentry
    exact ⟨hrecord, hmeets, hasks, hnested⟩

end

/-! ## conditions -/

/-- a value stands for conditions that ask the same in whatever order its entries come -/
theorem same_of_reordered {v w : Value} (h : v.Reordered w) (hv : v.JsonLike) :
    SameCondition v w := by
  induction h with
  | refl v => exact .refl v
  | trans hu _ ihu ihv => exact (ihu hv).trans (ihv (hu.jsonLike hv))
  | entries hperm => exact entries_perm hperm hv
  | item before after h ih =>
    have hsame := ih hv.item
    exact ⟨.list before after hsame.comparisons, oneOf_same hsame.comparisons before after, rfl, rfl⟩
  | entry before after name h ih => exact entry_same (ih hv.entry) h hv

/-! ## spelling -/

theorem hereditary_jsonLike : Hereditary JsonLike where
  null := trivial
  list := Value.jsonLike_list_iff.mp
  record_iff := Value.jsonLike_record_iff
  tuple := id
  set := id
  unset := id
  condition := id

structure SameSpelling (v w : Value) : Prop where
  spelled : (spelled v).Reordered (spelled w)
  nested : (Value.record (spelledNested v)).Reordered (.record (spelledNested w))

section
variable {v w : Value} {name : String} {xs ys front back : List (String × Value)}

theorem bounds_reordered {lower upper : Value} (hlower : v.Reordered lower)
    (hupper : w.Reordered upper) :
    (Value.record [("from", v), ("to", w)]).Reordered (.record [("from", lower), ("to", upper)]) :=
  .trans (.entry [] [("to", w)] "from" hlower) (.entry [("from", lower)] [] "to" hupper)

theorem spelledEntries_jsonLike (h : ∀ e ∈ xs, e.2.JsonLike) :
    spelledEntries xs = xs.map fun e => (e.1, spelled e.2) := by
  induction xs with
  | nil => rfl
  | cons e rest ih =>
    rw [List.forall_mem_cons] at h
    rw [spelledEntries, ih h.2, List.map_cons]
    intro hunset
    have hlike := h.1
    rw [hunset] at hlike
    exact hlike

theorem many_spelled (hmany : xs.length ≠ 1) (h : Value.SameFields xs ys)
    (hrecord : (Value.record xs).Reordered (.record ys)) :
    (spelled (.record xs)).Reordered (spelled (.record ys)) := by
  rw [spelled_record hmany, spelled_record (h.length_eq ▸ hmany)]
  simp only [bounds_iff h]
  split
  · exact bounds_reordered (h.fields "from") (h.fields "to")
  · exact hrecord

theorem single_spelled (h : SameSpelling v w) (hvw : v.Reordered w) :
    (spelled (.record [(name, v)])).Reordered (spelled (.record [(name, w)])) := by
  rw [spelled, spelled]
  split
  · exact bounds_reordered hvw (.refl .null)
  split
  · exact bounds_reordered (.refl .null) hvw
  split
  · exact .entry [] [] "not" hvw
  split
  · exact .entry [] [] name h.nested
  · exact .entry [] [] name hvw

end

theorem spelled_of_reordered {v w : Value} (h : v.Reordered w) (hv : v.JsonLike) :
    SameSpelling v w := by
  induction h with
  | refl => exact ⟨.refl _, .refl _⟩
  | trans hu _ ihu ihv =>
    have h := ihu hv
    have h' := ihv (hu.jsonLike hv)
    exact ⟨h.spelled.trans h'.spelled, h.nested.trans h'.nested⟩
  | @entries xs ys hperm =>
    obtain ⟨hnames, hparts⟩ := Value.jsonLike_record_iff.mp hv
    refine ⟨?_, ?_⟩
    · by_cases hone : xs.length = 1
      · obtain ⟨e, rfl⟩ := List.length_eq_one_iff.mp hone
        rw [List.singleton_perm.mp hperm]
        exact .refl _
      · exact many_spelled hone (.of_perm hperm hnames) (.entries hperm)
    · show (Value.record (spelledEntries xs)).Reordered (.record (spelledEntries ys))
      rw [spelledEntries_jsonLike hparts,
        spelledEntries_jsonLike fun e he => hparts e (hperm.mem_iff.mpr he)]
      exact .entries (hperm.map _)
  | item before after h _ => exact ⟨.item before after h, .refl _⟩
  | @entry before after name v w h ih =>
    have hentry := Reordered.entry before after name h
    have hsame := ih hv.entry
    refine ⟨?_, ?_⟩
    · by_cases hone : (before ++ (name, v) :: after).length = 1
      · have hempty : before = [] ∧ after = [] := by
          rw [List.length_append, List.length_cons] at hone
          exact ⟨List.length_eq_zero_iff.mp (by omega), List.length_eq_zero_iff.mp (by omega)⟩
        obtain ⟨rfl, rfl⟩ := hempty
        exact single_spelled hsame h
      · exact many_spelled hone (.of_entry h) hentry
    · show (Value.record (spelledEntries _)).Reordered (.record (spelledEntries _))
      rw [spelledEntries_jsonLike (Value.jsonLike_record_iff.mp hv).2,
        spelledEntries_jsonLike (Value.jsonLike_record_iff.mp (hentry.jsonLike hv)).2,
        List.map_append, List.map_append, List.map_cons, List.map_cons]
      exact .entry _ _ name hsame.spelled

/-! ## filters -/

/-- conditions that are read from one filter and from the same with its entries in another order -/
inductive ReadAlike : List (String × Condition) → List (String × Condition) → Prop
  | entries {xs ys : List (String × Value)} : (Value.record xs).JsonLike →
      (Value.record xs).Reordered (.record ys) → ReadAlike (ofEntries xs) (ofEntries ys)

namespace ReadAlike

variable {cs ds : List (String × Condition)}

theorem nil : ReadAlike [] [] := @entries [] [] ⟨List.nodup_nil, trivial⟩ (.refl _)

theorem symm (h : ReadAlike cs ds) : ReadAlike ds cs := by
  obtain ⟨hlike, hreordered⟩ := h
  exact .entries (hreordered.jsonLike hlike) hreordered.symm

theorem allMeet_eq (h : ReadAlike cs ds) : allMeet cs = allMeet ds := by
  obtain ⟨hlike, hreordered⟩ := h
  exact (same_of_reordered hreordered hlike).nested

theorem constrains_eq (h : ReadAlike cs ds) : constrains cs = constrains ds := by
  obtain ⟨hlike, hreordered⟩ := h
  have hnone : ∀ {xs : List (String × Value)}, (Value.record xs).JsonLike →
      constrains (ofEntries xs) = !xs.all fun e => !(ofValue e.2).asks := by
    intro xs hxs
    rw [Condition.constrains_eq, ofEntries_jsonLike (Value.jsonLike_record_iff.mp hxs).2, List.any_map,
      List.not_all_eq_any_not]
    simp only [Bool.not_not]
    rfl
  rw [hnone hlike, hnone (hreordered.jsonLike hlike), hreordered.all_eq hlike]
  intro name v w hv hvw
  rw [(same_of_reordered hvw hv).asks]

theorem resolved (h : ReadAlike cs ds) : ∀ e ∈ cs, e.2.resolved = true := by
  obtain ⟨hlike, -⟩ := h
  exact ofEntries_resolved _ (sound_of_bare _ (hereditary_jsonLike.bare _ hlike))

theorem written (h : ReadAlike cs ds) : ∃ xs ys, filtersToValue cs = .ok xs ∧
    filtersToValue ds = .ok ys ∧ (Value.record xs).JsonLike ∧
    (Value.record xs).Reordered (.record ys) := by
  have hwritten : ∀ {xs : List (String × Value)}, (Value.record xs).JsonLike →
      filtersToValue (ofEntries xs) = .ok (spelledEntries xs) := fun hxs =>
    filtersToValue_ofEntries (rawEntries_of_bare _ (hereditary_jsonLike.bare _ hxs))
  obtain ⟨hlike, hreordered⟩ := h
  exact ⟨_, _, hwritten hlike, hwritten (hreordered.jsonLike hlike),
    hereditary_jsonLike.nested _ hlike, (spelled_of_reordered hreordered hlike).nested⟩

end ReadAlike

/-- a filter is read in whatever order its entries come -/
theorem ofFilters_reordered {v w : Value} {cs : List (String × Condition)} (h : v.Reordered w)
    (hv : v.JsonLike) (hread : ofFilters v = .ok cs) :
    ∃ ds, ofFilters w = .ok ds ∧ ReadAlike cs ds := by
  have htruthy := (h.comparisons hv).truthy
  unfold ofFilters at hread ⊢
  rw [← htruthy]
  split at hread
  · rename_i hgiven
    rw [if_pos hgiven]
    obtain ⟨xs, hxs, hread⟩ := Outcome.bind_eq_ok.mp hread
    cases hread
    obtain ⟨ys, hys, hlike, hreordered⟩ := h.entries_eq hv hxs
    exact ⟨ofEntries ys, by rw [hys]; rfl, .entries hlike hreordered⟩
  · rename_i hempty
    cases hread
    rw [if_neg hempty]
    exact ⟨[], rfl, .nil⟩

/-! ## relations -/

section
variable {v w : Value} {xs ys : List (String × Value)}

theorem named_same (h : Value.SameFields xs ys) : named xs = named ys := by
  unfold named
  simp only [h.isSome]

theorem nested_field (h : Value.SameFields xs ys) (hxs : (Value.record xs).JsonLike) (q : String) :
    SameCondition ((Value.field? q xs).getD .null) ((Value.field? q ys).getD .null) :=
  same_of_reordered (h.fields q) (Value.jsonLike_field hxs q)

/-- the conditions of a relation's filter ask the same in whatever order its entries come -/
theorem relation_same (h : v.Reordered w) (hv : v.JsonLike) (x : Value) :
    (ofRelation v).all (·.meets x) = (ofRelation w).all (·.meets x) := by
  by_cases hwhole : v.isWhole = true
  · rw [h.of_whole hwhole]
  cases v with
  | list items =>
    obtain ⟨others, rfl, _⟩ := h.of_list
    rfl
  | record xs =>
    obtain ⟨ys, rfl, hfields⟩ := h.of_record hv
    show (ofRelationEntries xs).all (·.meets x) = (ofRelationEntries ys).all (·.meets x)
    rw [ofRelationEntries_eq, ofRelationEntries_eq, named_same hfields, hfields.length_eq]
    split
    · rw [List.all_map, List.all_map]
      refine List.all_congr rfl fun q => ?_
      show (Condition.related q _).meets x = (Condition.related q _).meets x
      rw [meets_nested, meets_nested, (nested_field hfields hv q).nested]
    · have hnested : allMeet (ofEntries xs) = allMeet (ofEntries ys) := (same_of_reordered h hv).nested
      rw [List.all_cons, List.all_cons, meets_nested, meets_nested, hnested]
  | _ => exact absurd rfl hwhole

theorem spelledRelation_reordered (h : (Value.record xs).Reordered (.record ys))
    (hxs : (Value.record xs).JsonLike) :
    (Value.record (spelledRelation xs)).Reordered (.record (spelledRelation ys)) := by
  obtain ⟨_, hys, hfields⟩ := h.of_record hxs
  cases hys
  unfold spelledRelation
  rw [named_same hfields, hfields.length_eq]
  split
  · apply Reordered.of_entries
    rw [List.forall₂_map_left_iff, List.forall₂_map_right_iff, List.forall₂_same]
    intro q _
    exact ⟨rfl, (spelled_of_reordered (hfields.fields q) (Value.jsonLike_field hxs q)).nested⟩
  · exact .entry [] [] "some" (spelled_of_reordered h hxs).nested

end

end Condition

end ListQuery
