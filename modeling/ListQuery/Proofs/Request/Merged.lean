import ListQuery.Preset
import ListQuery.Proofs.Request.Resolved
import ListQuery.Proofs.Value.Overlay

/-!
# Fields written over a request

A request that was made from named fields does not tell how they were spelled.  It need not: with
further fields written over it, it is the request that is made from the fields themselves with the
further ones written over them.  A field is read either from what is written over it or as before,
and what a request keeps of a field is read again as what it is.

* `Request.ReadAlike`           mappings from which the same fields are read;
* `Request.merged_eq_ofFields`  fields written over a request;
* `Presets.find?_save`          the request under a name that was just saved;
* `Request.merged_spelled`      fields written over a request, once, twice and over a preset.
-/

namespace ListQuery

namespace Request

/-! ## mappings that are read alike -/

/-- the same fields are read from both mappings, or the same problems are found -/
structure ReadAlike (fields others : List (String × Value)) : Prop where
  conditions : ∀ name ∈ ["filters", "not_filters"],
    Condition.ofFilters (fieldOrNull name fields) = Condition.ofFilters (fieldOrNull name others)
  relations : relationsOf (fieldOrNull "relation_filters" fields)
    = relationsOf (fieldOrNull "relation_filters" others)
  groups : groupsOf (fieldOrNull "or_filters" fields) = groupsOf (fieldOrNull "or_filters" others)
  whole : ∀ name ∈ ["cursor", "projection"], fieldOrNull name fields = fieldOrNull name others
  texts : ∀ name ∈ ["model", "search", "sort_by", "cursor_field"],
    Field.withDefault name none (Field.optional Field.text) fields
      = Field.withDefault name none (Field.optional Field.text) others
  integers : ∀ name ∈ ["page", "limit"],
    Field.withDefault name none (Field.optional Field.integer) fields
      = Field.withDefault name none (Field.optional Field.integer) others
  searchFields : Field.withDefault "search_fields" [] Field.texts fields
    = Field.withDefault "search_fields" [] Field.texts others
  searchMode : Field.withDefault "search_mode" .contains (Field.choice SearchMode.ofName?) fields
    = Field.withDefault "search_mode" .contains (Field.choice SearchMode.ofName?) others
  sortOrder : Field.withDefault "sort_order" none
      (Field.optional (Field.choice SortOrder.ofName?)) fields
    = Field.withDefault "sort_order" none (Field.optional (Field.choice SortOrder.ofName?)) others

variable {fields others : List (String × Value)} {r : Request}

theorem ReadAlike.ofFields_eq (h : ReadAlike fields others) : ofFields fields = ofFields others := by
  unfold ofFields
  simp only [h.conditions "filters" (by simp), h.conditions "not_filters" (by simp), h.relations,
    h.groups, h.whole "cursor" (by simp), h.whole "projection" (by simp), h.texts "model" (by simp),
    h.texts "search" (by simp), h.texts "sort_by" (by simp), h.texts "cursor_field" (by simp),
    h.integers "page" (by simp), h.integers "limit" (by simp), h.searchFields, h.searchMode,
    h.sortOrder]

theorem ReadFrom.alike (h : r.ReadFrom fields) (hothers : r.ReadFrom others) :
    ReadAlike fields others where
  conditions := by
    simp only [List.forall_mem_cons]
    exact ⟨h.filters.trans hothers.filters.symm, h.excluded.trans hothers.excluded.symm,
      fun _ hn => absurd hn List.not_mem_nil⟩
  relations := h.relations.trans hothers.relations.symm
  groups := h.groups.trans hothers.groups.symm
  whole := by
    simp only [List.forall_mem_cons]
    exact ⟨h.cursor.symm.trans hothers.cursor, h.projection.symm.trans hothers.projection,
      fun _ hn => absurd hn List.not_mem_nil⟩
  texts := by
    simp only [List.forall_mem_cons]
    exact ⟨h.model.trans hothers.model.symm, h.search.trans hothers.search.symm,
      h.sortBy.trans hothers.sortBy.symm, h.cursorField.trans hothers.cursorField.symm,
      fun _ hn => absurd hn List.not_mem_nil⟩
  integers := by
    simp only [List.forall_mem_cons]
    exact ⟨h.page.trans hothers.page.symm, h.limit.trans hothers.limit.symm,
      fun _ hn => absurd hn List.not_mem_nil⟩
  searchFields := h.searchFields.trans hothers.searchFields.symm
  searchMode := h.searchMode.trans hothers.searchMode.symm
  sortOrder := h.sortOrder.trans hothers.sortOrder.symm

theorem ReadAlike.of_field? (h : ∀ name, Value.field? name fields = Value.field? name others) :
    ReadAlike fields others := by
  constructor <;> simp only [fieldOrNull, Field.withDefault, h, implies_true]

theorem withDefault_overlay {α : Type} {name : String} {default : α} {check : Value → Checked α}
    (h : Field.withDefault name default check fields = Field.withDefault name default check others)
    (extra : List (String × Value)) :
    Field.withDefault name default check (Value.overlay fields extra)
      = Field.withDefault name default check (Value.overlay others extra) := by
  have hread (fields : List (String × Value)) : Field.withDefault name default check fields
      = (Value.field? name fields).elim (.valid default) fun v => (check v).inside name := by
    unfold Field.withDefault
    cases Value.field? name fields <;> rfl
  rw [hread, hread] at h ⊢
  exact Value.read_overlay (fun v => v.elim (.valid default) fun v => (check v).inside name) h extra

theorem ReadAlike.overlay (h : ReadAlike fields others) (extra : List (String × Value)) :
    ReadAlike (Value.overlay fields extra) (Value.overlay others extra) where
  conditions name hname :=
    Value.read_overlay (fun v => Condition.ofFilters (v.getD .null)) (h.conditions name hname) extra
  relations := Value.read_overlay (fun v => relationsOf (v.getD .null)) h.relations extra
  groups := Value.read_overlay (fun v => groupsOf (v.getD .null)) h.groups extra
  whole name hname := Value.read_overlay (fun v => v.getD .null) (h.whole name hname) extra
  texts name hname := withDefault_overlay (h.texts name hname) extra
  integers name hname := withDefault_overlay (h.integers name hname) extra
  searchFields := withDefault_overlay h.searchFields extra
  searchMode := withDefault_overlay h.searchMode extra
  sortOrder := withDefault_overlay h.sortOrder extra

/-! ## fields written over a request -/

theorem pairs_record (entries : List (String × Value)) :
    (Value.record entries).pairs = .ok entries := by
  show (entries.map fun e => (Value.str e.1, e.2)).mapM _ = _
  rw [List.mapM_map]
  exact (Outcome.mapM_of_forall (g := id) fun _ _ => rfl).trans (by rw [List.map_id])

theorem merged_record (r : Request) (extra : List (String × Value)) :
    r.merged (.record extra) = ofFields (Value.overlay r.toFields extra) := by
  unfold merged
  cases extra with
  | nil => rfl
  | cons entry rest =>
    show ((Value.record (entry :: rest)).pairs >>= fun extra =>
      ofFields (Value.overlay r.toFields extra)) = _
    rw [pairs_record]
    rfl

theorem merged_eq_ofFields (h : ofFields fields = .ok r) (extra : List (String × Value)) :
    r.merged (.record extra) = ofFields (Value.overlay fields extra) := by
  have hread := ofFields_readFrom h
  have hself := readFrom_toFields (relationsOf_quantified hread.relations)
  rw [merged_record]
  exact ((hself.alike hread).overlay extra).ofFields_eq

end Request

/-! ## presets -/

theorem Presets.find?_save (name : String) (r : Request) (presets : Presets) (log : List LogEntry) :
    find? name ((save name r).runOn ⟨presets, log⟩).2.state = some r := by
  unfold save
  rw [Action.runOn_bind, Action.runOn_read]
  dsimp only
  split
  · rw [Action.runOn_bind]
    exact (find?_put name name r presets).trans (if_pos rfl)
  · exact (find?_put name name r presets).trans (if_pos rfl)

namespace Request

/-- Whatever fields a request was made from, with further fields written over it it is the request
made from the fields with the further ones written over them, or it fails as that does.  So nothing
written over a request leaves it as it is, two mappings in turn come to the second written over the
first, and a preset that was saved from the fields is run as the request made from all of them. -/
theorem merged_spelled {fields : List (String × Value)} {r : Request}
    (h : ofFields fields = .ok r) :
    (∀ extra, r.merged (.record extra) = ofFields (Value.overlay fields extra)) ∧
    r.merged (.record []) = .ok r ∧
    (∀ first second next, (first.map Prod.fst).Nodup → r.merged (.record first) = .ok next →
      next.merged (.record second) = r.merged (.record (Value.overlay first second))) ∧
    ∀ {S : Type} (b : Builder S) (name : String) (presets : Presets) (log : List LogEntry) extra,
      b.runPreset ((Presets.save name r).runOn ⟨presets, log⟩).2.state name (.record extra) = (do
        let asked ← ofFields (Value.overlay fields extra)
        Action.report "querypilot.presets" .debug ("Executing preset " ++ name)
        b.query asked .null) := by
  refine ⟨merged_eq_ofFields h, merged_eq_ofFields h [] ▸ h, ?_, ?_⟩
  · intro first second next hnames hnext
    rw [merged_eq_ofFields h] at hnext ⊢
    rw [merged_eq_ofFields hnext]
    exact (ReadAlike.of_field? fun _ => Value.field?_overlay_overlay hnames fields).ofFields_eq
  · intro S b name presets log extra
    unfold Builder.runPreset Presets.load
    rw [Presets.find?_save]
    show ((liftM (r.merged (.record extra)) : Action S Request) >>= fun asked => _) = _
    rw [merged_eq_ofFields h]

/-- a request of loosely written fields, with another page and then one of its filters written over -/
theorem merged_spelled_loose :
    let fields : List (String × Value) := [("model", .str "m"), ("limit", .str "2"),
      ("filters", .record [("a", .unset), ("b", .list [.int 1])]),
      ("relation_filters", .record [("c", .record [("some", .record [("d", .int 1)])]), ("e", .null)]),
      ("or_filters", .record [("f", .condition (.differs .null))])]
    let r : Request :=
      { model := some "m", limit := some 2, filters := [("b", .oneOf [.int 1])],
        relationFilters := [("c", [.related "some" (.record [("d", .condition (.exact (.int 1)))])])],
        orFilters := [[("f", .differs .null)]] }
    ofFields fields = .ok r ∧
      r.merged (.record [("page", .str "3"), ("limit", .null)])
        = .ok { r with page := some 3, limit := none } ∧
      ([("page", Value.str "3"), ("limit", .null)].map Prod.fst).Nodup ∧
      Request.merged { r with page := some 3, limit := none }
          (.record [("filters", .record [("a", .null)]), ("page", .int 1)])
        = .ok { r with page := some 1, limit := none, filters := [("a", .exact .null)] } := by
  intro fields r
  have hfields : ofFields fields = .ok r := by rfl
  obtain ⟨hwritten, -, htwice, -⟩ := merged_spelled hfields
  have hnext : r.merged (.record [("page", .str "3"), ("limit", .null)])
      = .ok { r with page := some 3, limit := none } := (hwritten _).trans (by rfl)
  have hnames : ([("page", Value.str "3"), ("limit", .null)].map Prod.fst).Nodup := by decide
  refine ⟨hfields, hnext, hnames, ?_⟩
  exact (htwice _ _ _ hnames hnext).trans ((hwritten _).trans (by rfl))

end Request

end ListQuery
