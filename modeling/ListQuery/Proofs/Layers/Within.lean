import ListQuery.Proofs.Condition.Meaning
import ListQuery.Proofs.Request.Merged
import ListQuery.Proofs.Scope

/-!
# Requests within filters

A request within one filter and then within another is the request within both at once, the second
written over the first.  Filters of different fields that no row is a fault for may come in any
order: the predicate that a row is put to tests them in another order, but asks the same of it.

* `Request.holding`           a request with the entries of a filter written over its own;
* `Request.within_eq`         a resolved request within a filter;
* `Request.holding_append`    one filter after another;
* `Request.holding_evaluate`  what a row is asked does not depend on the order of the filters.
-/

namespace ListQuery

/-! ## entries of filters -/

namespace Condition

variable {xs ys filter : List (String × Value)} {cs : List (String × Condition)}

/-- a filter's entry that stands for a resolved condition on which no row is a fault -/
structure Decisive (e : String × Value) : Prop where
  given : e.2 ≠ .unset
  resolved : (ofValue e.2).resolved = true
  answers (row : Value) : ∃ b, ((ofValue e.2).tree e.1).evaluate row = .ok b

/-- two entries of one name that stand for the same condition -/
structure Means (d e : String × Value) : Prop where
  name : d.1 = e.1
  condition : ofValue d.2 = ofValue e.2
  given : d.2 ≠ .unset
  given' : e.2 ≠ .unset

theorem Means.refl {e : String × Value} (h : e.2 ≠ .unset) : Means e e := ⟨rfl, rfl, h, h⟩

theorem ofEntries_means (h : List.Forall₂ Means xs ys) : ofEntries xs = ofEntries ys := by
  induction h with
  | nil => rfl
  | cons hhere _ ih =>
    rw [ofEntries, ofEntries, hhere.name, hhere.condition, ih]
    · exact hhere.given'
    · exact hhere.given

theorem means_put {e : String × Value} (he : e.2 ≠ .unset) (h : List.Forall₂ Means xs ys) :
    List.Forall₂ Means (Value.put e.1 e.2 xs) (Value.put e.1 e.2 ys) := by
  induction h with
  | nil => exact .cons (.refl he) .nil
  | @cons d d' ds ds' hhere hrest ih =>
    obtain ⟨name, v⟩ := d
    obtain ⟨name', v'⟩ := d'
    cases hhere.name
    by_cases hname : name = e.1
    · rw [Value.put, if_pos hname, Value.put, if_pos hname]
      exact .cons ⟨rfl, rfl, he, he⟩ hrest
    · rw [Value.put, if_neg hname, Value.put, if_neg hname]
      exact .cons hhere ih

theorem means_overlay (hfilter : ∀ e ∈ filter, e.2 ≠ .unset) (h : List.Forall₂ Means xs ys) :
    List.Forall₂ Means (Value.overlay xs filter) (Value.overlay ys filter) := by
  induction filter generalizing xs ys with
  | nil => exact h
  | cons e rest ih =>
    rw [List.forall_mem_cons] at hfilter
    exact ih hfilter.2 (means_put hfilter.1 h)

theorem ofValue_condition (c : Condition) : ofValue (.condition c) = c := by rw [ofValue]

theorem means_asEntries (h : ∀ e ∈ xs, e.2 ≠ .unset) :
    List.Forall₂ Means (asEntries (ofEntries xs)) xs := by
  rw [ofEntries_map h]
  unfold asEntries
  rw [List.map_map, List.forall₂_map_left_iff, List.forall₂_same]
  intro e he
  exact ⟨rfl, ofValue_condition _, by simp, h e he⟩

theorem overlay_given (cs : List (String × Condition)) (hfilter : ∀ e ∈ filter, e.2 ≠ .unset) :
    ∀ e ∈ Value.overlay (asEntries cs) filter, e.2 ≠ .unset := by
  intro e he
  rcases Value.mem_overlay he with he | he
  · exact hfilter e he
  · obtain ⟨c, _, rfl⟩ := List.mem_map.mp he
    simp

theorem trees_given (h : ∀ e ∈ xs, e.2 ≠ .unset) :
    trees (ofEntries xs) = xs.map fun e => (ofValue e.2).tree e.1 := by
  rw [ofEntries_map h, trees, List.map_map]
  rfl

end Condition

/-! ## the order of tests -/

namespace Predicate

variable {ps qs rs : List Predicate} {row : Value}

theorem evaluateAll_append (ps qs : List Predicate) (row : Value) :
    evaluateAll (ps ++ qs) row
      = (evaluateAll ps row >>= fun b => if b then evaluateAll qs row else .ok false) := by
  induction ps with
  | nil => rfl
  | cons p rest ih =>
    rw [List.cons_append, evaluateAll, evaluateAll, ih]
    cases evaluate p row with
    | error e => rfl
    | ok b => cases b <;> rfl

theorem evaluateAll_decided (h : ∀ p ∈ ps, ∃ b, p.evaluate row = .ok b) :
    evaluateAll ps row = .ok (ps.all (·.holds row)) := by
  induction ps with
  | nil => rfl
  | cons p rest ih =>
    rw [List.forall_mem_cons] at h
    obtain ⟨b, hb⟩ := h.1
    have hholds : p.holds row = b := by rw [holds, hb]
    rw [evaluateAll, hb, ih h.2, List.all_cons, hholds]
    cases b <;> rfl

theorem evaluateAll_perm (hperm : ps.Perm qs) (h : ∀ p ∈ ps, ∃ b, p.evaluate row = .ok b) :
    evaluateAll ps row = evaluateAll qs row := by
  rw [evaluateAll_decided h, evaluateAll_decided fun p hp => h p (hperm.mem_iff.mpr hp),
    hperm.all_eq]

end Predicate

/-! ## requests -/

namespace Request

variable {r : Request} {filter first second : List (String × Value)}

/-- the request with the entries of a filter written over its own -/
def holding (r : Request) (filter : List (String × Value)) : Request :=
  { r with filters := Condition.ofEntries (Value.overlay (Condition.asEntries r.filters) filter) }

theorem ofFields_congr {fields others : List (String × Value)}
    (hother : ∀ name ∉ ["filters", "or_filters"],
      Value.field? name fields = Value.field? name others)
    (hfilters : Condition.ofFilters (fieldOrNull "filters" fields)
      = Condition.ofFilters (fieldOrNull "filters" others))
    (hgroups : groupsOf (fieldOrNull "or_filters" fields) = groupsOf (fieldOrNull "or_filters" others)) :
    ofFields fields = ofFields others := by
  unfold ofFields
  rw [hfilters, hgroups]
  simp only [fieldOrNull, Field.withDefault, hother, List.mem_cons, List.not_mem_nil, or_false,
    String.reduceEq, not_false_eq_true]

theorem ofFields_put_filters {v w : Value} (h : Condition.ofFilters v = Condition.ofFilters w)
    (fields : List (String × Value)) :
    ofFields (Value.put "filters" v fields) = ofFields (Value.put "filters" w fields) := by
  have hother (name : String) (hname : name ≠ "filters") :
      Value.field? name (Value.put "filters" v fields)
        = Value.field? name (Value.put "filters" w fields) := by
    rw [Value.field?_put_of_ne hname, Value.field?_put_of_ne hname]
  apply ofFields_congr
  · intro name hname
    exact hother name fun h => hname (h ▸ List.mem_cons_self)
  · rw [fieldOrNull, fieldOrNull, Value.field?_put_self, Value.field?_put_self]
    exact h
  · rw [fieldOrNull, fieldOrNull, hother _ (by decide)]

theorem holding_nil (r : Request) : r.holding [] = r := by
  show { r with filters := Condition.ofEntries (Condition.asEntries r.filters) } = r
  rw [ofEntries_asEntries]

theorem holding_resolved (h : r.Resolved) (hfilter : ∀ e ∈ filter, Condition.Decisive e) :
    (r.holding filter).Resolved where
  filters := by
    show ∀ e ∈ Condition.ofEntries (Value.overlay (Condition.asEntries r.filters) filter), _
    rw [Condition.ofEntries_map (Condition.overlay_given r.filters fun e he => (hfilter e he).given)]
    intro e he
    obtain ⟨entry, hentry, rfl⟩ := List.mem_map.mp he
    rcases Value.mem_overlay hentry with hentry | hentry
    · exact (hfilter entry hentry).resolved
    · obtain ⟨c, hc, rfl⟩ := List.mem_map.mp hentry
      exact (congrArg Condition.resolved (Condition.ofValue_condition c.2)).trans (h.filters c hc)
  relations := h.relations
  groups := h.groups
  excluded := h.excluded

/-- a request within a filter is read from its own fields, with the filter's entries among them -/
theorem within_read (e : String × Value) (rest : List (String × Value)) :
    Builder.within (e :: rest) r = ofFields (r.holding (e :: rest)).toFields := by
  let entries := Value.overlay (Condition.asEntries r.filters) (e :: rest)
  have hread : Condition.ofFilters (.record entries)
      = Condition.ofFilters (conditionsValue (Condition.ofEntries entries)) := by
    rw [ofFilters_conditionsValue]
    unfold Condition.ofFilters
    cases entries with
    | nil => rw [Condition.ofEntries]; rfl
    | cons entry others => rfl
  show r.merged (.record [("filters", .record entries)]) = _
  rw [merged_record]
  show ofFields (Value.put "filters" (.record entries) r.toFields) = _
  rw [ofFields_put_filters hread]
  have hput : Value.put "filters" (conditionsValue (Condition.ofEntries entries)) r.toFields
      = (r.holding (e :: rest)).toFields := by
    simp [Value.put, toFields, holding, entries]
  rw [hput]

theorem within_eq (h : r.Resolved) (hfilter : ∀ e ∈ filter, Condition.Decisive e) :
    Builder.within filter r = .ok (r.holding filter) := by
  cases filter with
  | nil => exact congrArg Except.ok (holding_nil r).symm
  | cons e rest => rw [within_read, ofFields_toFields (holding_resolved h hfilter)]

/-- a request within a filter keeps its conditions, be they resolved or not -/
theorem within_holding (h : Quantified r.relationFilters) :
    Builder.within filter r = .ok (r.holding filter) := by
  cases filter with
  | nil => exact congrArg Except.ok (holding_nil r).symm
  | cons e rest =>
    rw [within_read]
    exact ReadFrom.ofFields_eq (readFrom_toFields (r := r.holding (e :: rest)) h)

theorem holding_append (hfirst : ∀ e ∈ first, e.2 ≠ .unset) (hsecond : ∀ e ∈ second, e.2 ≠ .unset) :
    (r.holding first).holding second = r.holding (first ++ second) := by
  have hmeans := Condition.means_overlay hsecond
    (Condition.means_asEntries (Condition.overlay_given r.filters hfirst))
  unfold holding
  rw [Condition.ofEntries_means hmeans, Value.overlay_append]

/-- filters of different fields ask the same of a row in any order -/
theorem holding_evaluate (hperm : first.Perm second) (hnames : (first.map Prod.fst).Nodup)
    (hfirst : ∀ e ∈ first, Condition.Decisive e) (row : Value) :
    (r.holding first).tree.evaluate row = (r.holding second).tree.evaluate row := by
  let own := Condition.asEntries r.filters
  have hsecond : ∀ e ∈ second, Condition.Decisive e := fun e he => hfirst e (hperm.mem_iff.mpr he)
  have hgiven := Condition.overlay_given r.filters fun e he => (hfirst e he).given
  have hgiven' := Condition.overlay_given r.filters fun e he => (hsecond e he).given
  -- entries of the request's own fields stay in their places, so only the new ones are rearranged
  have hplaces : Value.overlay own (first.filter (·.1 ∈ own.map Prod.fst))
      = Value.overlay own (second.filter (·.1 ∈ own.map Prod.fst)) := by
    apply Value.overlay_perm (hperm.filter _)
    · exact hnames.sublist (List.filter_sublist.map Prod.fst)
    · exact fun e he => of_decide_eq_true (List.mem_filter.mp he).2
  have hnew : ∀ p ∈ (first.filter (·.1 ∉ own.map Prod.fst)).map
      (fun e => (Condition.ofValue e.2).tree e.1), ∃ b, p.evaluate row = .ok b := by
    intro p hp
    obtain ⟨e, he, rfl⟩ := List.mem_map.mp hp
    exact (hfirst e (List.mem_of_mem_filter he)).answers row
  have hfilters : (Predicate.all (Condition.trees (r.holding first).filters)).evaluate row
      = (Predicate.all (Condition.trees (r.holding second).filters)).evaluate row := by
    rw [Predicate.evaluate_all, Predicate.evaluate_all]
    show Predicate.evaluateAll (Condition.trees (Condition.ofEntries (Value.overlay own first))) row
      = Predicate.evaluateAll (Condition.trees (Condition.ofEntries (Value.overlay own second))) row
    rw [Condition.trees_given hgiven, Condition.trees_given hgiven', Value.overlay_split hnames,
      Value.overlay_split ((hperm.map Prod.fst).nodup_iff.mp hnames), ← hplaces, List.map_append,
      List.map_append, Predicate.evaluateAll_append, Predicate.evaluateAll_append,
      Predicate.evaluateAll_perm ((hperm.filter _).map _) hnew]
  unfold tree
  rw [Predicate.evaluate_all, Predicate.evaluate_all, Predicate.evaluateAll, Predicate.evaluateAll,
    hfilters]
  rfl

end Request

end ListQuery
