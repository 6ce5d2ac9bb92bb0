import ListQuery.Proofs.Condition.Resolved

/-!
# Resolved requests

All conditions of a request are resolved once it is made, so it is compiled without fail, and
writing a field over its own fields gives the request with that field.

* `Request.Resolved`           the conditions are resolved, and each relation has some;
* `Request.ReadFrom`           a request and the fields it is made from;
* `Request.ofFields_resolved`  a request made from fields is resolved;
* `Request.tree`               what a request asks of a row;
* `Request.ofFields_toFields`  a request is read from its own fields;
* `Request.merged_cursor`, `merged_limit`   the cursor or the limit written over.
-/

namespace ListQuery

namespace Request

/-! ## requests made from fields -/

/-- the conditions of a request are resolved, those of a relation being about related records -/
structure Resolved (r : Request) : Prop where
  filters : ∀ e ∈ r.filters, e.2.resolved = true
  relations : ∀ e ∈ r.relationFilters,
    e.2 ≠ [] ∧ ∀ c ∈ e.2, c.isRelated = true ∧ c.resolved = true
  groups : ∀ g ∈ r.orFilters, ∀ e ∈ g, e.2.resolved = true
  excluded : ∀ e ∈ r.notFilters, e.2.resolved = true

theorem relationsOf_resolved {v : Value} {relations : List (String × List Condition)}
    (h : Condition.sound v = true) (hr : relationsOf v = .ok relations) :
    ∀ e ∈ relations, e.2 ≠ [] ∧ ∀ c ∈ e.2, c.isRelated = true ∧ c.resolved = true := by
  unfold relationsOf at hr
  split at hr
  · obtain ⟨entries, hv, hr⟩ := Outcome.bind_eq_ok.mp hr
    cases v <;> cases hv
    cases hr
    intro e he
    obtain ⟨hmem, hne⟩ := List.mem_filter.mp he
    obtain ⟨entry, hentry, rfl⟩ := List.mem_map.mp hmem
    have hsound := Condition.sound_of_mem h hentry
    exact ⟨by simpa using hne, fun c hc =>
      ⟨Condition.ofRelation_related _ c hc, Condition.ofRelation_resolved hsound c hc⟩⟩
  · cases hr; simp

theorem items_sound {v : Value} {items : List Value} (h : Condition.sound v = true)
    (hitems : v.items = .ok items) : ∀ g ∈ items, Condition.sound g = true := by
  cases v with
  | list xs | tuple xs | set xs =>
    cases hitems
    intro g hg
    exact Condition.sound_of_mem_items h hg
  | str s =>
    cases hitems
    intro g hg
    obtain ⟨c, _, rfl⟩ := List.mem_map.mp hg
    rfl
  | record entries =>
    cases hitems
    intro g hg
    obtain ⟨e, _, rfl⟩ := List.mem_map.mp hg
    rfl
  | pageMeta m =>
    cases hitems
    intro g hg
    obtain ⟨e, he, rfl⟩ := List.mem_map.mp hg
    simp only [Value.ofPageMeta, List.mem_cons, List.not_mem_nil, or_false] at he
    rcases he with rfl | rfl | rfl | rfl <;> rfl
  | _ => cases hitems

theorem mapM_ofFilters_resolved {items : List Value} {groups : List (List (String × Condition))}
    (h : ∀ g ∈ items, Condition.sound g = true)
    (hg : items.mapM Condition.ofFilters = .ok groups) :
    ∀ g ∈ groups, ∀ e ∈ g, e.2.resolved = true := by
  induction items generalizing groups with
  | nil => cases hg; simp
  | cons v rest ih =>
    obtain ⟨g, others, hv, hrest, rfl⟩ := Outcome.mapM_cons_eq_ok.mp hg
    rw [List.forall_mem_cons]
    exact ⟨Condition.ofFilters_resolved (h v List.mem_cons_self) hv,
      ih (fun g hg => h g (List.mem_cons_of_mem _ hg)) hrest⟩

theorem groupsOf_resolved {v : Value} {groups : List (List (String × Condition))}
    (h : Condition.sound v = true) (hg : groupsOf v = .ok groups) :
    ∀ g ∈ groups, ∀ e ∈ g, e.2.resolved = true := by
  unfold groupsOf at hg
  split at hg
  · split at hg
    · cases hg
      intro g hmem
      rw [List.mem_singleton] at hmem
      subst hmem
      exact Condition.ofEntries_resolved _ h
    · obtain ⟨items, hitems, hg⟩ := Outcome.bind_eq_ok.mp hg
      exact mapM_ofFilters_resolved (items_sound h hitems) hg
  · cases hg; simp

/-- the request keeps what its fields are read as, and hands on those that nothing is read from -/
structure ReadFrom (r : Request) (fields : List (String × Value)) : Prop where
  filters : Condition.ofFilters (fieldOrNull "filters" fields) = .ok r.filters
  relations : relationsOf (fieldOrNull "relation_filters" fields) = .ok r.relationFilters
  groups : groupsOf (fieldOrNull "or_filters" fields) = .ok r.orFilters
  excluded : Condition.ofFilters (fieldOrNull "not_filters" fields) = .ok r.notFilters
  projection : r.projection = fieldOrNull "projection" fields
  cursor : r.cursor = fieldOrNull "cursor" fields
  model : Field.withDefault "model" none (Field.optional Field.text) fields = .valid r.model
  page : Field.withDefault "page" none (Field.optional Field.integer) fields = .valid r.page
  limit : Field.withDefault "limit" none (Field.optional Field.integer) fields = .valid r.limit
  search : Field.withDefault "search" none (Field.optional Field.text) fields = .valid r.search
  searchFields : Field.withDefault "search_fields" [] Field.texts fields = .valid r.searchFields
  searchMode : Field.withDefault "search_mode" .contains (Field.choice SearchMode.ofName?) fields
    = .valid r.searchMode
  sortBy : Field.withDefault "sort_by" none (Field.optional Field.text) fields = .valid r.sortBy
  sortOrder : Field.withDefault "sort_order" none
    (Field.optional (Field.choice SortOrder.ofName?)) fields = .valid r.sortOrder
  cursorField : Field.withDefault "cursor_field" none (Field.optional Field.text) fields
    = .valid r.cursorField

theorem ofFields_readFrom {fields : List (String × Value)} {r : Request}
    (h : ofFields fields = .ok r) : r.ReadFrom fields := by
  unfold ofFields at h
  rw [Outcome.bind_eq_ok] at h
  obtain ⟨filters, hfilters, h⟩ := h
  rw [Outcome.bind_eq_ok] at h
  obtain ⟨relations, hrelations, h⟩ := h
  rw [Outcome.bind_eq_ok] at h
  obtain ⟨groups, hgroups, h⟩ := h
  rw [Outcome.bind_eq_ok] at h
  obtain ⟨excluded, hexcluded, h⟩ := h
  replace h := Checked.orFault_eq_ok.mp h
  rw [Checked.seq_eq_valid] at h
  obtain ⟨_, _, h, hcursorField, rfl⟩ := h
  rw [Checked.seq_eq_valid] at h
  obtain ⟨_, _, h, hsortOrder, rfl⟩ := h
  rw [Checked.seq_eq_valid] at h
  obtain ⟨_, _, h, hsortBy, rfl⟩ := h
  rw [Checked.seq_eq_valid] at h
  obtain ⟨_, _, h, hsearchMode, rfl⟩ := h
  rw [Checked.seq_eq_valid] at h
  obtain ⟨_, _, h, hsearchFields, rfl⟩ := h
  rw [Checked.seq_eq_valid] at h
  obtain ⟨_, _, h, hsearch, rfl⟩ := h
  rw [Checked.seq_eq_valid] at h
  obtain ⟨_, _, h, hlimit, rfl⟩ := h
  rw [Checked.seq_eq_valid] at h
  obtain ⟨_, _, h, hpage, rfl⟩ := h
  obtain ⟨_, hmodel, rfl⟩ := Checked.map_eq_valid.mp h
  exact ⟨hfilters, hrelations, hgroups, hexcluded, rfl, rfl, hmodel, hpage, hlimit, hsearch,
    hsearchFields, hsearchMode, hsortBy, hsortOrder, hcursorField⟩

theorem ReadFrom.ofFields_eq {r : Request} {fields : List (String × Value)} (h : r.ReadFrom fields) :
    ofFields fields = .ok r := by
  unfold ofFields
  simp only [h.filters, h.relations, h.groups, h.excluded, Outcome.ok_bind, h.model, h.page, h.limit,
    h.search, h.searchFields, h.searchMode, h.sortBy, h.sortOrder, h.cursorField,
    ← h.cursor, ← h.projection]
  rfl

theorem ofFields_resolved {fields : List (String × Value)} {r : Request}
    (hsound : ∀ name ∈ ["filters", "relation_filters", "or_filters", "not_filters"],
      Condition.sound (fieldOrNull name fields) = true)
    (h : ofFields fields = .ok r) : r.Resolved := by
  have hread := ofFields_readFrom h
  exact {
    filters := Condition.ofFilters_resolved (hsound _ (by simp)) hread.filters
    relations := relationsOf_resolved (hsound _ (by simp)) hread.relations
    groups := groupsOf_resolved (hsound _ (by simp)) hread.groups
    excluded := Condition.ofFilters_resolved (hsound _ (by simp)) hread.excluded }

/-! ## the tree of a request -/

def tree (r : Request) : Predicate :=
  .all [.all (Condition.trees r.filters),
    .all (Condition.trees (Predicate.ofRelationList r.relationFilters)),
    Predicate.search r.searchMode (.ofText? r.search) r.searchFields,
    .any (r.orFilters.map fun g => .all (Condition.trees g)),
    .negation [.all (Condition.trees r.notFilters)]]

theorem mem_ofRelationList {relations : List (String × List Condition)} {e : String × Condition} :
    e ∈ Predicate.ofRelationList relations ↔
      ∃ entry ∈ relations, ∃ c ∈ entry.2, e = (entry.1, c) := by
  induction relations with
  | nil => simp [Predicate.ofRelationList]
  | cons entry rest ih =>
    obtain ⟨path, cs⟩ := entry
    rw [Predicate.ofRelationList, List.mem_append, ih, List.mem_map]
    simp only [List.mem_cons, exists_eq_or_imp, eq_comm]

variable {r : Request}

theorem Resolved.relation (h : r.Resolved) :
    ∀ e ∈ Predicate.ofRelationList r.relationFilters, e.2.resolved = true := by
  intro e he
  obtain ⟨entry, hentry, c, hc, rfl⟩ := mem_ofRelationList.mp he
  exact ((h.relations entry hentry).2 c hc).2

theorem predicate_eq_tree (h : r.Resolved) : r.predicate = .ok r.tree := by
  have hgroups : r.orFilters.mapM Predicate.ofConditions =
      .ok (r.orFilters.map fun g => .all (Condition.trees g)) :=
    Outcome.mapM_of_forall fun g hg => Condition.ofConditions_eq (h.groups g hg)
  unfold predicate
  rw [Condition.ofConditions_eq h.filters, Predicate.ofRelations, Condition.ofConditions_eq h.relation,
    hgroups, Predicate.excluding, Condition.ofConditions_eq h.excluded]
  rfl

/-! ## writing a field over -/

theorem ofEntries_asEntries (cs : List (String × Condition)) :
    Condition.ofEntries (Condition.asEntries cs) = cs := by
  induction cs with
  | nil => rfl
  | cons e rest ih =>
    show Condition.ofEntries ((e.1, .condition e.2) :: Condition.asEntries rest) = _
    rw [Condition.ofEntries, Condition.ofValue, ih]
    simp

theorem ofFilters_conditionsValue (cs : List (String × Condition)) :
    Condition.ofFilters (conditionsValue cs) = .ok cs := by
  cases cs with
  | nil => rfl
  | cons e rest =>
    show Except.ok (Condition.ofEntries (Condition.asEntries (e :: rest))) = _
    rw [ofEntries_asEntries]

theorem allRelated?_map {cs : List Condition} (h : ∀ c ∈ cs, c.isRelated = true) :
    Condition.allRelated? (cs.map .condition) = some cs := by
  induction cs with
  | nil => rfl
  | cons c rest ih =>
    have hc := h c List.mem_cons_self
    have hrest := ih fun c hc => h c (List.mem_cons_of_mem _ hc)
    cases c with
    | related q nested => rw [List.map_cons, Condition.allRelated?, hrest]; rfl
    | _ => cases hc

/-- every relation has conditions, all of them about related records -/
def Quantified (relations : List (String × List Condition)) : Prop :=
  ∀ e ∈ relations, e.2 ≠ [] ∧ ∀ c ∈ e.2, c.isRelated = true

theorem Resolved.quantified (h : r.Resolved) : Quantified r.relationFilters := fun e he =>
  ⟨(h.relations e he).1, fun c hc => ((h.relations e he).2 c hc).1⟩

theorem relationsOf_quantified {v : Value} {relations : List (String × List Condition)}
    (h : relationsOf v = .ok relations) : Quantified relations := by
  unfold relationsOf at h
  split at h
  · obtain ⟨entries, _, h⟩ := Outcome.bind_eq_ok.mp h
    cases h
    intro e he
    obtain ⟨hmem, hsome⟩ := List.mem_filter.mp he
    obtain ⟨entry, _, rfl⟩ := List.mem_map.mp hmem
    exact ⟨by simpa using hsome, Condition.ofRelation_related entry.2⟩
  · cases h
    exact fun _ he => absurd he List.not_mem_nil

theorem relationsOf_eq (h : Quantified r.relationFilters) :
    relationsOf (.record (r.relationFilters.map fun entry =>
      (entry.1, .tuple (entry.2.map .condition)))) = .ok r.relationFilters := by
  have hread : ∀ e ∈ r.relationFilters,
      (e.1, Condition.ofRelation (.tuple (e.2.map .condition))) = e := by
    intro e he
    rw [Condition.ofRelation, allRelated?_map (h e he).2]
    rfl
  have hkeep : ∀ e ∈ r.relationFilters, (!e.2.isEmpty) = true := by
    intro e he
    simpa using (h e he).1
  have hmap : ((r.relationFilters.map fun entry => (entry.1, Value.tuple (entry.2.map .condition))).map
      fun entry => (entry.1, Condition.ofRelation entry.2)) = r.relationFilters := by
    rw [List.map_map]
    exact (List.map_congr_left hread).trans (List.map_id _)
  have hkept := List.filter_eq_self.mpr hkeep
  unfold relationsOf
  split
  · show Except.ok (List.filter _ _) = _
    rw [hmap, hkept]
  · rename_i hempty
    have : r.relationFilters = [] := by simpa [Value.truthy] using hempty
    rw [this]
    rfl

theorem groupsOf_eq (groups : List (List (String × Condition))) :
    groupsOf (.tuple (groups.map conditionsValue)) = .ok groups := by
  cases groups with
  | nil => rfl
  | cons g rest =>
    show ((g :: rest).map conditionsValue).mapM Condition.ofFilters = _
    rw [List.mapM_map]
    have h := Outcome.mapM_of_forall (f := Condition.ofFilters ∘ conditionsValue) (g := id)
      fun cs (_ : cs ∈ g :: rest) => ofFilters_conditionsValue cs
    rw [List.map_id] at h
    exact h

theorem withDefault_eq {α : Type} {name : String} {default x : α} {check : Value → Checked α}
    {fields : List (String × Value)} {v : Value} (hv : Value.field? name fields = some v)
    (hx : check v = .valid x) : Field.withDefault name default check fields = .valid x := by
  rw [Field.withDefault, hv]
  show (check v).inside name = _
  rw [hx]
  rfl

theorem optional_text_eq (s : Option String) :
    Field.optional Field.text (.ofText? s) = .valid s := by
  cases s <;> rfl

theorem optional_integer_eq (n : Option Int) :
    Field.optional Field.integer (.ofInt? n) = .valid n := by
  cases n <;> rfl

theorem each_text_eq (i : Nat) (names : List String) :
    Field.each Field.text i (names.map .str) = .valid names := by
  induction names generalizing i with
  | nil => rfl
  | cons s rest ih =>
    rw [List.map_cons, Field.each, ih]
    rfl

theorem texts_eq (names : List String) :
    Field.texts (.tuple (names.map .str)) = .valid names := each_text_eq 0 names

theorem optional_order_eq (o : Option SortOrder) :
    Field.optional (Field.choice SortOrder.ofName?) (.ofText? (o.map SortOrder.name)) = .valid o := by
  rcases o with _ | _ | _ <;> rfl

theorem choice_mode_eq (m : SearchMode) :
    Field.choice SearchMode.ofName? (.str m.name) = .valid m := by
  cases m <;> rfl

theorem readFrom_toFields (h : Quantified r.relationFilters) : r.ReadFrom r.toFields where
  filters := by
    rw [show fieldOrNull "filters" r.toFields = conditionsValue r.filters by
      simp [fieldOrNull, toFields, Value.field?]]
    exact ofFilters_conditionsValue r.filters
  relations := by
    rw [show fieldOrNull "relation_filters" r.toFields = .record
        (r.relationFilters.map fun entry => (entry.1, .tuple (entry.2.map .condition))) by
      simp [fieldOrNull, toFields, Value.field?]]
    exact relationsOf_eq h
  groups := by
    rw [show fieldOrNull "or_filters" r.toFields = .tuple (r.orFilters.map conditionsValue) by
      simp [fieldOrNull, toFields, Value.field?]]
    exact groupsOf_eq r.orFilters
  excluded := by
    rw [show fieldOrNull "not_filters" r.toFields = conditionsValue r.notFilters by
      simp [fieldOrNull, toFields, Value.field?]]
    exact ofFilters_conditionsValue r.notFilters
  projection := by simp [fieldOrNull, toFields, Value.field?]
  cursor := by simp [fieldOrNull, toFields, Value.field?]
  model := withDefault_eq (by simp [toFields, Value.field?]) (optional_text_eq r.model)
  page := withDefault_eq (by simp [toFields, Value.field?]) (optional_integer_eq r.page)
  limit := withDefault_eq (by simp [toFields, Value.field?]) (optional_integer_eq r.limit)
  search := withDefault_eq (by simp [toFields, Value.field?]) (optional_text_eq r.search)
  searchFields := withDefault_eq (by simp [toFields, Value.field?]) (texts_eq r.searchFields)
  searchMode := withDefault_eq (by simp [toFields, Value.field?]) (choice_mode_eq r.searchMode)
  sortBy := withDefault_eq (by simp [toFields, Value.field?]) (optional_text_eq r.sortBy)
  sortOrder := withDefault_eq (by simp [toFields, Value.field?]) (optional_order_eq r.sortOrder)
  cursorField := withDefault_eq (by simp [toFields, Value.field?]) (optional_text_eq r.cursorField)

/-- the fields of a request, read again, are the request -/
theorem ofFields_toFields (h : r.Resolved) : ofFields r.toFields = .ok r :=
  (readFrom_toFields h.quantified).ofFields_eq

theorem Resolved.withCursor (h : r.Resolved) (v : Value) :
    ({ r with cursor := v } : Request).Resolved := ⟨h.1, h.2, h.3, h.4⟩

theorem Resolved.withLimit (h : r.Resolved) (n : Option Int) :
    ({ r with limit := n } : Request).Resolved := ⟨h.1, h.2, h.3, h.4⟩

theorem Resolved.withProjection (h : r.Resolved) (v : Value) :
    ({ r with projection := v } : Request).Resolved := ⟨h.1, h.2, h.3, h.4⟩

theorem merged_cursor (h : r.Resolved) (v : Value) :
    r.merged (.record [("cursor", v)]) = .ok { r with cursor := v } := by
  have hput : Value.overlay r.toFields [("cursor", v)] = ({ r with cursor := v } : Request).toFields := by
    simp [Value.overlay, Value.put, toFields]
  show ofFields (Value.overlay r.toFields [("cursor", v)]) = _
  rw [hput, ofFields_toFields (h.withCursor v)]

theorem merged_limit (h : r.Resolved) (n : Int) :
    r.merged (.record [("limit", .int n)]) = .ok { r with limit := some n } := by
  have hput : Value.overlay r.toFields [("limit", .int n)]
      = ({ r with limit := some n } : Request).toFields := by
    simp [Value.overlay, Value.put, toFields, Value.ofInt?]
  show ofFields (Value.overlay r.toFields [("limit", .int n)]) = _
  rw [hput, ofFields_toFields (h.withLimit (some n))]

end Request

end ListQuery
