import ListQuery.Cache.Key
import ListQuery.Proofs.Request.Spelled

/-!
# Requests read back

A request that was made from filters without conditions in them is written as a record from which it
is read again as it was.  The record leaves out what is empty: the null, the empty list and the empty
record.  No harm comes of it where a field that is not given is read as what was empty, which is so of
all fields but the cursor and the projection; these are handed on as they are, so an empty list or
record in their place would be read back as a null.

* `Request.eq_of_isEmptyField`   what a written request leaves out;
* `Request.withDefault_written`  a field read from what is left;
* `Request.readFrom_written`     a request is read from the fields that it is written with;
* `Request.ofFields_toRecord`    a request is what is read from it as it would be written.
-/

namespace ListQuery

namespace Request

/-! ## what is left out -/

theorem eq_of_isEmptyField {v : Value} (h : isEmptyField v = true) :
    v = .null ∨ v = .record [] ∨ v = .list [] := by
  cases v with
  | null => exact .inl rfl
  | record entries =>
    cases entries with
    | nil => exact .inr (.inl rfl)
    | cons e rest => cases h
  | list items =>
    cases items with
    | nil => exact .inr (.inr rfl)
    | cons v rest => cases h
  | float x => cases x <;> cases h
  | _ => cases h

theorem handed_on {v : Value} (h : v ≠ .list [] ∧ v ≠ .record []) :
    ((some v).filter fun v => !isEmptyField v).getD .null = v := by
  cases hempty : isEmptyField v with
  | false =>
    rw [Option.filter_some_pos (by simp [hempty])]
    rfl
  | true =>
    rw [Option.filter_some_neg (by simp [hempty])]
    rcases eq_of_isEmptyField hempty with rfl | rfl | rfl
    · rfl
    · exact absurd rfl h.2
    · exact absurd rfl h.1

section
variable {name : String} {fields : List (String × Value)} {v : Value}

theorem field?_written (hnames : (fields.map Prod.fst).Nodup)
    (hv : Value.field? name fields = some v) :
    Value.field? name (fields.filter fun e => !isEmptyField e.2)
      = (some v).filter fun v => !isEmptyField v := by
  rw [Value.field?_filter (fun v => !isEmptyField v) hnames, hv]

theorem fieldOrNull_written (hnames : (fields.map Prod.fst).Nodup)
    (hv : Value.field? name fields = some v) :
    fieldOrNull name (fields.filter fun e => !isEmptyField e.2)
      = ((some v).filter fun v => !isEmptyField v).getD .null := by
  rw [fieldOrNull, field?_written hnames hv]

theorem withDefault_written {α : Type} {default x : α} {check : Value → Checked α}
    (hnames : (fields.map Prod.fst).Nodup) (hv : Value.field? name fields = some v)
    (hx : check v = .valid x) (hdefault : isEmptyField v = true → x = default) :
    Field.withDefault name default check (fields.filter fun e => !isEmptyField e.2)
      = .valid x := by
  have hfield := field?_written hnames hv
  cases hempty : isEmptyField v with
  | false =>
    rw [Option.filter_some_pos (by simp [hempty])] at hfield
    exact withDefault_eq hfield hx
  | true =>
    rw [Option.filter_some_neg (by simp [hempty])] at hfield
    rw [Field.withDefault, hfield, hdefault hempty]

end

/-! ## filters -/

theorem ofFilters_written (entries : List (String × Value)) :
    Condition.ofFilters (((some (Value.record entries)).filter fun v => !isEmptyField v).getD .null)
      = .ok (Condition.ofEntries entries) := by
  cases entries <;> rfl

theorem relationsOf_written {relations : List (String × List Condition)} (h : Quantified relations)
    {entries : List (String × Value)}
    (hreads : (entries.map fun e => (e.1, Condition.ofRelation e.2)) = relations) :
    relationsOf (((some (Value.record entries)).filter fun v => !isEmptyField v).getD .null)
      = .ok relations := by
  have hkept : relations.filter (fun e => !e.2.isEmpty) = relations :=
    List.filter_eq_self.mpr fun e he => by simpa using (h e he).1
  cases entries with
  | nil =>
    subst hreads
    rfl
  | cons e rest =>
    show Except.ok (((e :: rest).map fun e => (e.1, Condition.ofRelation e.2)).filter _) = _
    rw [hreads, hkept]

theorem groupsOf_written (groups : List (List (String × Value))) :
    groupsOf (((some (Value.list (groups.map .record))).filter fun v => !isEmptyField v).getD .null)
      = .ok (groups.map Condition.ofEntries) := by
  cases groups with
  | nil => rfl
  | cons g rest =>
    show ((g :: rest).map Value.record).mapM Condition.ofFilters = _
    rw [List.mapM_map]
    refine Outcome.mapM_of_forall fun g _ => ?_
    cases g <;> rfl

/-! ## requests -/

variable {r : Request}

theorem fieldsWith_names (r : Request) (filters relations : List (String × Value))
    (groups : List (List (String × Value))) (excluded : List (String × Value)) :
    ((r.fieldsWith filters relations groups excluded).map Prod.fst).Nodup := by
  show ["model", "page", "cursor", "limit", "search", "search_fields", "search_mode", "filters",
    "relation_filters", "or_filters", "not_filters", "sort_by", "sort_order", "projection",
    "cursor_field"].Nodup
  decide

theorem optional_text_default {s : Option String} (h : isEmptyField (.ofText? s) = true) :
    s = none := by
  cases s with
  | none => rfl
  | some s => cases h

theorem optional_integer_default {n : Option Int} (h : isEmptyField (.ofInt? n) = true) :
    n = none := by
  cases n with
  | none => rfl
  | some n => cases h

/-- a request is read from the fields that it is written with -/
theorem readFrom_written {filters relations excluded : List (String × Value)}
    {groups : List (List (String × Value))} (hquantified : Quantified r.relationFilters)
    (hcursor : r.cursor ≠ .list [] ∧ r.cursor ≠ .record [])
    (hprojection : r.projection ≠ .list [] ∧ r.projection ≠ .record [])
    (hfilters : Condition.ofEntries filters = r.filters)
    (hrelations : (relations.map fun e => (e.1, Condition.ofRelation e.2)) = r.relationFilters)
    (hgroups : groups.map Condition.ofEntries = r.orFilters)
    (hexcluded : Condition.ofEntries excluded = r.notFilters) :
    r.ReadFrom ((r.fieldsWith filters relations groups excluded).filter
      fun e => !isEmptyField e.2) := by
  have hnames := fieldsWith_names r filters relations groups excluded
  have htext (name : String) (s : Option String)
      (h : Value.field? name (r.fieldsWith filters relations groups excluded) = some (.ofText? s)) :=
    withDefault_written hnames h (optional_text_eq s) optional_text_default
  have hinteger (name : String) (n : Option Int)
      (h : Value.field? name (r.fieldsWith filters relations groups excluded) = some (.ofInt? n)) :=
    withDefault_written hnames h (optional_integer_eq n) optional_integer_default
  exact {
    filters := by
      rw [fieldOrNull_written hnames (v := .record filters) rfl, ofFilters_written, hfilters]
    relations := by
      rw [fieldOrNull_written hnames (v := .record relations) rfl]
      exact relationsOf_written hquantified hrelations
    groups := by
      rw [fieldOrNull_written hnames (v := .list (groups.map .record)) rfl, groupsOf_written, hgroups]
    excluded := by
      rw [fieldOrNull_written hnames (v := .record excluded) rfl, ofFilters_written, hexcluded]
    projection := by
      rw [fieldOrNull_written hnames (v := r.projection) rfl, handed_on hprojection]
    cursor := by
      rw [fieldOrNull_written hnames (v := r.cursor) rfl, handed_on hcursor]
    model := htext "model" r.model rfl
    page := hinteger "page" r.page rfl
    limit := hinteger "limit" r.limit rfl
    search := htext "search" r.search rfl
    searchFields := withDefault_written hnames (v := .list (r.searchFields.map .str)) rfl
      (each_text_eq 0 r.searchFields) fun h => by
        rcases eq_of_isEmptyField h with h | h | h
        · cases h
        · cases h
        · exact List.map_eq_nil_iff.mp (Value.list.inj h)
    searchMode := withDefault_written hnames (v := .str r.searchMode.name) rfl
      (choice_mode_eq r.searchMode) fun h => by cases h
    sortBy := htext "sort_by" r.sortBy rfl
    sortOrder := withDefault_written hnames (v := .ofText? (r.sortOrder.map SortOrder.name)) rfl
      (optional_order_eq r.sortOrder) fun h => Option.map_eq_none_iff.mp (optional_text_default h)
    cursorField := htext "cursor_field" r.cursorField rfl }

/-- A request that was made from filters without conditions in them, with a cursor and a projection
that are no empty sequence or mapping, is read from what it is written as: as it was, so it asks the
same of every row and has the same key.  It rests on two facts about values without conditions in them:
a value's condition is written as a value that stands for it, and so are the conditions of a
relation's mapping, with however many quantifiers or with none. -/
theorem ofFields_toRecord {fields : List (String × Value)} (h : ofFields fields = .ok r)
    (hbare : ∀ name ∈ ["filters", "relation_filters", "or_filters", "not_filters"],
      Condition.bare (fieldOrNull name fields) = true)
    (hcursor : r.cursor ≠ .list [] ∧ r.cursor ≠ .record [])
    (hprojection : r.projection ≠ .list [] ∧ r.projection ≠ .record []) :
    (∃ written again, r.toRecord = .ok written ∧ ofFields written = .ok again ∧ again = r ∧
      (∃ tree, r.predicate = .ok tree ∧ again.predicate = .ok tree) ∧
      ∀ config, CacheKey.ofRequest config again = CacheKey.ofRequest config r) ∧
    (∀ v, Condition.bare v = true → ∃ raw, (Condition.ofValue v).toValue = .ok raw ∧
      Condition.ofValue raw = Condition.ofValue v) ∧
    ∀ entries, Condition.bareEntries entries = true →
      ∃ raw, relationToValue (Condition.ofRelation (.record entries)) = .ok raw ∧
        Condition.ofRelation raw = Condition.ofRelation (.record entries) := by
  have hread := ofFields_readFrom h
  obtain ⟨filters, -, hfilters, hfilters'⟩ := ofFilters_spelling (hbare _ (by simp)) hread.filters
  obtain ⟨relations, -, hrelations, hrelations'⟩ :=
    relationsOf_spelling (hbare _ (by simp)) hread.relations
  obtain ⟨groups, -, hgroups, hgroups'⟩ := groupsOf_spelling (hbare _ (by simp)) hread.groups
  obtain ⟨excluded, -, hexcluded, hexcluded'⟩ :=
    ofFilters_spelling (hbare _ (by simp)) hread.excluded
  have hwritten : r.toRecord = .ok ((r.fieldsWith filters relations groups excluded).filter
      fun e => !isEmptyField e.2) := by
    unfold toRecord
    rw [hrelations', hfilters', hgroups', hexcluded']
    rfl
  have hagain := (readFrom_written (relationsOf_quantified hread.relations) hcursor hprojection
    hfilters hrelations hgroups hexcluded).ofFields_eq
  have hresolved := ofFields_resolved (fun name hname => Condition.sound_of_bare _ (hbare name hname)) h
  refine ⟨⟨_, r, hwritten, hagain, rfl, ⟨r.tree, ?_, ?_⟩, fun _ => rfl⟩, ?_, ?_⟩
  · exact predicate_eq_tree hresolved
  · exact predicate_eq_tree hresolved
  · intro v hv
    exact ⟨Condition.spelled v, Condition.toValue_ofValue v (Condition.raw_of_bare v hv),
      Condition.ofValue_spelled v⟩
  · intro entries hentries
    exact ⟨.record (Condition.spelledRelation entries),
      Condition.relationToValue_eq (Condition.rawEntries_of_bare entries hentries),
      Condition.ofRelation_spelled entries⟩

/-- a request with relations in a relation, with and without a quantifier, two quantifiers on one
relation, a range with one end, an exclusion, a sequence, fields never supplied, and a cursor -/
theorem ofFields_toRecord_nested :
    let deep : List (String × Value) :=
      [("some", .record [("tags", .record [("name", .str "x"), ("rank", .record [("to", .int 3)])])]),
        ("none", .record [("gone", .bool true)])]
    let fields : List (String × Value) := [("model", .str "m"), ("limit", .str "2"),
      ("cursor", .list [.int 7]), ("search_fields", .tuple [.str "a"]),
      ("filters", .record [("a", .unset), ("b", .tuple [.int 1, .null]),
        ("c", .record [("from", .int 2)]), ("d", .record [("not", .null)]), ("e", .record deep)]),
      ("relation_filters", .record [("f", .record deep), ("g", .null), ("h", .record [("k", .int 1)])]),
      ("or_filters", .record [("l", .bool false)]),
      ("not_filters", .record [("n", .record [("every", .record [("o", .float (.infinity true))])])])]
    let excluded : Condition :=
      .related "every" (.record [("o", .condition (.exact (.float (.infinity true))))])
    ∃ r, ofFields fields = .ok r ∧ r.limit = some 2 ∧ r.relationFilters.map Prod.fst = ["f", "h"] ∧
      r.notFilters = [("n", excluded)] ∧
      (∀ name ∈ ["filters", "relation_filters", "or_filters", "not_filters"],
        Condition.bare (fieldOrNull name fields) = true) ∧
      (r.cursor ≠ .list [] ∧ r.cursor ≠ .record []) ∧
      (r.projection ≠ .list [] ∧ r.projection ≠ .record []) ∧
      (∃ written, r.toRecord = .ok written ∧ ofFields written = .ok r) ∧
      Condition.bareEntries deep = true ∧
      ∃ raw, relationToValue (Condition.ofRelation (.record deep)) = .ok raw ∧
        Condition.ofRelation raw = Condition.ofRelation (.record deep) := by
  intro deep fields excluded
  have hbare : ∀ name ∈ ["filters", "relation_filters", "or_filters", "not_filters"],
      Condition.bare (fieldOrNull name fields) = true := by decide
  have hread : ∃ r, ofFields fields = .ok r ∧ r.limit = some 2 ∧
      r.relationFilters.map Prod.fst = ["f", "h"] ∧ r.notFilters = [("n", excluded)] ∧
      (r.cursor ≠ .list [] ∧ r.cursor ≠ .record []) ∧
      (r.projection ≠ .list [] ∧ r.projection ≠ .record []) :=
    ⟨_, rfl, rfl, rfl, rfl, ⟨nofun, nofun⟩, ⟨nofun, nofun⟩⟩
  obtain ⟨r, hr, hlimit, hrelations, hexcluded, hcursor, hprojection⟩ := hread
  obtain ⟨⟨written, again, hwritten, hagain, rfl, -⟩, -, hraw⟩ :=
    ofFields_toRecord hr hbare hcursor hprojection
  exact ⟨again, hr, hlimit, hrelations, hexcluded, hbare, hcursor, hprojection,
    ⟨written, hwritten, hagain⟩, by decide, hraw deep (by decide)⟩

end Request

end ListQuery
