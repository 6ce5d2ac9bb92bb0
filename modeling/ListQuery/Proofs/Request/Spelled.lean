import ListQuery.Proofs.Condition.Reordered
import ListQuery.Proofs.Request.Meaning

/-!
# Requests as they are written back

A request that was read from plain filters is written with plain filters from which it is read
again, so what JSON keeps of these filters tells what the request asks of a row.

* `Request.Plain`         the filters, the projection and the cursor are plain;
* `Request.Spelling`      the filters as the request is written;
* `Request.Plain.spelling`  a plain request has a spelling;
* `Request.SameParts`     requests of which each part asks the same;
* `Spelling.accepts_eq`   requests of which JSON keeps the same ask the same.
-/

namespace ListQuery

namespace Request

structure Plain (r : Request) : Prop where
  filters : ∃ v : Value, v.Plain ∧ Condition.ofFilters v = .ok r.filters
  relations : ∃ v : Value, v.Plain ∧ relationsOf v = .ok r.relationFilters
  groups : ∃ v : Value, v.Plain ∧ groupsOf v = .ok r.orFilters
  excluded : ∃ v : Value, v.Plain ∧ Condition.ofFilters v = .ok r.notFilters
  projection : r.projection.Plain
  cursor : r.cursor.Regular

def fieldsWith (r : Request) (filters relations : List (String × Value))
    (groups : List (List (String × Value))) (excluded : List (String × Value)) :
    List (String × Value) :=
  [("model", .ofText? r.model), ("page", .ofInt? r.page), ("cursor", r.cursor),
    ("limit", .ofInt? r.limit), ("search", .ofText? r.search),
    ("search_fields", .list (r.searchFields.map .str)), ("search_mode", .str r.searchMode.name),
    ("filters", .record filters), ("relation_filters", .record relations),
    ("or_filters", .list (groups.map .record)), ("not_filters", .record excluded),
    ("sort_by", .ofText? r.sortBy), ("sort_order", .ofText? (r.sortOrder.map SortOrder.name)),
    ("projection", r.projection), ("cursor_field", .ofText? r.cursorField)]

/-- the filters with which a request is written, and from which it can be read again -/
structure Spelling (r : Request) where
  filters : List (String × Value)
  relations : List (String × Value)
  groups : List (List (String × Value))
  excluded : List (String × Value)
  plainFilters : (Value.record filters).Plain
  plainRelations : (Value.record relations).Plain
  plainGroups : ∀ g ∈ groups, (Value.record g).Plain
  plainExcluded : (Value.record excluded).Plain
  readsFilters : Condition.ofEntries filters = r.filters
  readsRelations : (relations.map fun e => (e.1, Condition.ofRelation e.2)) = r.relationFilters
  readsGroups : groups.map Condition.ofEntries = r.orFilters
  readsExcluded : Condition.ofEntries excluded = r.notFilters
  written : r.toRecord
    = .ok ((r.fieldsWith filters relations groups excluded).filter fun e => !isEmptyField e.2)

theorem plain_groups {groups : List (List (String × Value))}
    (h : ∀ g ∈ groups, (Value.record g).Plain) : (Value.list (groups.map .record)).Plain := by
  refine Value.plainAll_iff.mpr fun v hv => ?_
  obtain ⟨g, hg, rfl⟩ := List.mem_map.mp hv
  exact h g hg

/-! ## filters that are written and read back -/

theorem ofFilters_spelling {v : Value} {cs : List (String × Condition)} (hv : Condition.bare v = true)
    (h : Condition.ofFilters v = .ok cs) :
    ∃ entries, (v.Plain → (Value.record entries).Plain) ∧ Condition.ofEntries entries = cs ∧
      Condition.filtersToValue cs = .ok entries := by
  have hrecord : ∃ source, (v.Plain → (Value.record source).Plain) ∧
      Condition.bareEntries source = true ∧ Condition.ofEntries source = cs := by
    unfold Condition.ofFilters at h
    split at h
    · obtain ⟨source, hsource, h⟩ := Outcome.bind_eq_ok.mp h
      cases h
      cases v with
      | record entries =>
        cases hsource
        exact ⟨_, id, hv, rfl⟩
      | _ => cases hsource
    · cases h
      exact ⟨[], fun _ => ⟨List.nodup_nil, trivial⟩, rfl, rfl⟩
  obtain ⟨source, hplain, hbare, rfl⟩ := hrecord
  exact ⟨Condition.spelledEntries source,
    fun hv => Condition.hereditary_plain.nested (.record source) (hplain hv),
    Condition.ofEntries_spelled source,
    Condition.filtersToValue_ofEntries (Condition.rawEntries_of_bare source hbare)⟩

theorem mapM_ofFilters_spelling {items : List Value} {groups : List (List (String × Condition))}
    (hitems : ∀ v ∈ items, Condition.bare v = true) (h : items.mapM Condition.ofFilters = .ok groups) :
    ∃ spelled : List (List (String × Value)),
      ((∀ v ∈ items, v.Plain) → ∀ g ∈ spelled, (Value.record g).Plain) ∧
      spelled.map Condition.ofEntries = groups ∧
      (groups.mapM fun g => Value.record <$> Condition.filtersToValue g)
        = .ok (spelled.map Value.record) := by
  induction items generalizing groups with
  | nil =>
    cases h
    exact ⟨[], fun _ _ hg => absurd hg List.not_mem_nil, rfl, rfl⟩
  | cons v rest ih =>
    rw [List.forall_mem_cons] at hitems
    obtain ⟨g, others, hv, hrest, rfl⟩ := Outcome.mapM_cons_eq_ok.mp h
    obtain ⟨spelled, hplain, hreads, hwritten⟩ := ih hitems.2 hrest
    obtain ⟨entries, hplain', rfl, hwritten'⟩ := ofFilters_spelling hitems.1 hv
    refine ⟨entries :: spelled, ?_, ?_, ?_⟩
    · intro hitems
      rw [List.forall_mem_cons] at hitems ⊢
      exact ⟨hplain' hitems.1, hplain hitems.2⟩
    · rw [List.map_cons, hreads]
    · rw [List.mapM_cons, hwritten', hwritten]
      rfl

theorem items_bare {v : Value} {items : List Value} (hv : Condition.bare v = true)
    (h : v.items = .ok items) : ∀ w ∈ items, Condition.bare w = true := by
  cases v with
  | list xs | tuple xs | set xs =>
    cases h
    exact Condition.bare_of_mem hv
  | str s =>
    cases h
    intro w hw
    obtain ⟨c, _, rfl⟩ := List.mem_map.mp hw
    rfl
  | record entries =>
    cases h
    intro w hw
    obtain ⟨e, _, rfl⟩ := List.mem_map.mp hw
    rfl
  | pageMeta m =>
    cases h
    intro w hw
    obtain ⟨e, he, rfl⟩ := List.mem_map.mp hw
    simp only [Value.ofPageMeta, List.mem_cons, List.not_mem_nil, or_false] at he
    rcases he with rfl | rfl | rfl | rfl <;> rfl
  | _ => cases h

theorem items_plain {v : Value} {items : List Value} (hv : v.Plain) (h : v.items = .ok items) :
    ∀ w ∈ items, w.Plain := by
  cases v with
  | list xs =>
    cases h
    exact Value.plainAll_iff.mp hv
  | str s =>
    cases h
    intro w hw
    obtain ⟨c, _, rfl⟩ := List.mem_map.mp hw
    exact trivial
  | record entries =>
    cases h
    intro w hw
    obtain ⟨e, _, rfl⟩ := List.mem_map.mp hw
    exact trivial
  | _ => first | exact False.elim hv | cases h

theorem groupsOf_spelling {v : Value} {groups : List (List (String × Condition))}
    (hv : Condition.bare v = true) (h : groupsOf v = .ok groups) :
    ∃ spelled : List (List (String × Value)),
      (v.Plain → ∀ g ∈ spelled, (Value.record g).Plain) ∧
      spelled.map Condition.ofEntries = groups ∧
      (groups.mapM fun g => Value.record <$> Condition.filtersToValue g)
        = .ok (spelled.map Value.record) := by
  unfold groupsOf at h
  split at h
  · split at h
    · rename_i entries htruthy
      have hone : [Value.record entries].mapM Condition.ofFilters = .ok groups := by
        cases h
        unfold Condition.ofFilters
        rw [List.mapM_cons, if_pos htruthy]
        rfl
      obtain ⟨spelled, hplain, hreads, hwritten⟩ :=
        mapM_ofFilters_spelling (fun w hw => List.mem_singleton.mp hw ▸ hv) hone
      exact ⟨spelled, fun hv => hplain fun w hw => List.mem_singleton.mp hw ▸ hv, hreads, hwritten⟩
    · obtain ⟨items, hitems, h⟩ := Outcome.bind_eq_ok.mp h
      obtain ⟨spelled, hplain, hreads, hwritten⟩ := mapM_ofFilters_spelling (items_bare hv hitems) h
      exact ⟨spelled, fun hv => hplain (items_plain hv hitems), hreads, hwritten⟩
  · cases h
    exact ⟨[], fun _ _ hg => absurd hg List.not_mem_nil, rfl, rfl⟩

theorem ofRelationEntries_ne_nil (entries : List (String × Value)) :
    Condition.ofRelationEntries entries ≠ [] := by
  rw [Condition.ofRelationEntries_eq]
  split
  · rename_i h
    rw [Ne, List.map_eq_nil_iff]
    exact h.1
  · exact List.cons_ne_nil _ _

def relationsIn (entries : List (String × Value)) : List (String × List Condition) :=
  (entries.map fun e => (e.1, Condition.ofRelation e.2)).filter fun e => !e.2.isEmpty

def spelledRelation? : String × Value → Option (String × Value)
  | (name, .record entries) => some (name, .record (Condition.spelledRelation entries))
  | _ => none

/-- the filters of relations as they are written: of those without conditions in them only the
mappings ask anything -/
def spelledRelations (entries : List (String × Value)) : List (String × Value) :=
  entries.filterMap spelledRelation?

theorem spelledRelation?_eq_none {e : String × Value} (h : ∀ entries, e.2 ≠ .record entries) :
    spelledRelation? e = none := by
  obtain ⟨name, v⟩ := e
  cases v with
  | record entries => exact absurd rfl (h entries)
  | _ => rfl

theorem relationsIn_cons (e : String × Value) (rest : List (String × Value)) :
    relationsIn (e :: rest) = if (Condition.ofRelation e.2).isEmpty then relationsIn rest
      else (e.1, Condition.ofRelation e.2) :: relationsIn rest := by
  unfold relationsIn
  rw [List.map_cons, List.filter_cons]
  cases (Condition.ofRelation e.2).isEmpty <;> rfl

theorem relationsIn_record (name : String) (entries rest : List (String × Value)) :
    relationsIn ((name, .record entries) :: rest)
      = (name, Condition.ofRelationEntries entries) :: relationsIn rest := by
  have hne : (Condition.ofRelation (.record entries)).isEmpty = false := by
    have hentries := ofRelationEntries_ne_nil entries
    show (Condition.ofRelationEntries entries).isEmpty = false
    simpa using hentries
  rw [relationsIn_cons, hne]
  rfl

theorem relationsIn_other {e : String × Value} (rest : List (String × Value))
    (h : Condition.bare e.2 = true) (hrecord : ∀ entries, e.2 ≠ .record entries) :
    relationsIn (e :: rest) = relationsIn rest := by
  rw [relationsIn_cons, Condition.ofRelation_bare h hrecord]
  rfl

theorem spelledRelations_read {source : List (String × Value)}
    (h : Condition.bareEntries source = true) :
    ((spelledRelations source).map fun e => (e.1, Condition.ofRelation e.2)) = relationsIn source := by
  induction source with
  | nil => rfl
  | cons e rest ih =>
    obtain ⟨name, v⟩ := e
    rw [Condition.bareEntries, Bool.and_eq_true] at h
    by_cases hrecord : ∃ entries, v = .record entries
    · obtain ⟨entries, rfl⟩ := hrecord
      rw [relationsIn_record, ← ih h.2]
      show (name, Condition.ofRelationEntries (Condition.spelledRelation entries)) :: _ = _
      rw [Condition.ofRelation_spelled]
      rfl
    · have hother : ∀ entries, v ≠ .record entries := fun entries hv => hrecord ⟨entries, hv⟩
      rw [relationsIn_other rest h.1 hother, ← ih h.2, spelledRelations,
        List.filterMap_cons_none (spelledRelation?_eq_none hother)]
      rfl

theorem spelledRelations_written {source : List (String × Value)}
    (h : Condition.bareEntries source = true) :
    ((relationsIn source).mapM fun e => do return (e.1, ← relationToValue e.2))
      = (.ok (spelledRelations source) : Outcome (List (String × Value))) := by
  induction source with
  | nil => rfl
  | cons e rest ih =>
    obtain ⟨name, v⟩ := e
    rw [Condition.bareEntries, Bool.and_eq_true] at h
    by_cases hrecord : ∃ entries, v = .record entries
    · obtain ⟨entries, rfl⟩ := hrecord
      have hwrite : relationToValue (Condition.ofRelationEntries entries)
          = .ok (.record (Condition.spelledRelation entries)) :=
        Condition.relationToValue_eq (Condition.rawEntries_of_bare entries h.1)
      rw [relationsIn_record, List.mapM_cons, hwrite, ih h.2]
      rfl
    · have hother : ∀ entries, v ≠ .record entries := fun entries hv => hrecord ⟨entries, hv⟩
      rw [relationsIn_other rest h.1 hother, ih h.2, spelledRelations, spelledRelations,
        List.filterMap_cons_none (spelledRelation?_eq_none hother)]

theorem spelledRelations_names (source : List (String × Value)) :
    ((spelledRelations source).map Prod.fst).Sublist (source.map Prod.fst) := by
  induction source with
  | nil => exact .refl _
  | cons e rest ih =>
    obtain ⟨name, v⟩ := e
    cases v with
    | record entries => exact ih.cons_cons name
    | _ => exact ih.cons name

theorem spelledRelations_kind {P : Value → Prop} (hP : Condition.Hereditary P)
    {source : List (String × Value)} (h : P (.record source)) :
    P (.record (spelledRelations source)) := by
  obtain ⟨hnames, hparts⟩ := hP.record_iff.mp h
  refine hP.record_iff.mpr ⟨hnames.sublist (spelledRelations_names source), fun e he => ?_⟩
  obtain ⟨⟨name, v⟩, hmem, hspelled⟩ := List.mem_filterMap.mp he
  cases v with
  | record entries =>
    cases hspelled
    exact hP.relation (hparts _ hmem)
  | _ => cases hspelled

theorem relationsOf_spelling {v : Value} {relations : List (String × List Condition)}
    (hv : Condition.bare v = true) (h : relationsOf v = .ok relations) :
    ∃ spelled : List (String × Value), (v.Plain → (Value.record spelled).Plain) ∧
      (spelled.map fun e => (e.1, Condition.ofRelation e.2)) = relations ∧
      (relations.mapM fun e => do return (e.1, ← relationToValue e.2))
        = (.ok spelled : Outcome (List (String × Value))) := by
  unfold relationsOf at h
  split at h
  · obtain ⟨source, hsource, h⟩ := Outcome.bind_eq_ok.mp h
    cases h
    cases v with
    | record entries =>
      cases hsource
      exact ⟨spelledRelations source, spelledRelations_kind Condition.hereditary_plain,
        spelledRelations_read hv, spelledRelations_written hv⟩
    | _ => cases hsource
  · cases h
    exact ⟨[], fun _ => ⟨List.nodup_nil, trivial⟩, rfl, rfl⟩

/-- a plain request is written with plain filters -/
theorem Plain.spelling {r : Request} (h : r.Plain) : Nonempty r.Spelling := by
  obtain ⟨v, hv, hread⟩ := h.filters
  obtain ⟨filters, hplain, hreads, hwritten⟩ :=
    ofFilters_spelling (Condition.hereditary_plain.bare v hv) hread
  obtain ⟨w, hw, hread'⟩ := h.relations
  obtain ⟨relations, hplain', hreads', hwritten'⟩ :=
    relationsOf_spelling (Condition.hereditary_plain.bare w hw) hread'
  obtain ⟨x, hx, hread''⟩ := h.groups
  obtain ⟨groups, hplain'', hreads'', hwritten''⟩ :=
    groupsOf_spelling (Condition.hereditary_plain.bare x hx) hread''
  obtain ⟨y, hy, hread'''⟩ := h.excluded
  obtain ⟨excluded, hplain''', hreads''', hwritten'''⟩ :=
    ofFilters_spelling (Condition.hereditary_plain.bare y hy) hread'''
  refine ⟨⟨filters, relations, groups, excluded, hplain hv, hplain' hw, hplain'' hx, hplain''' hy,
    hreads, hreads', hreads'', hreads''', ?_⟩⟩
  unfold toRecord
  rw [hwritten', hwritten, hwritten'', hwritten''']
  rfl

theorem Plain.resolved {r : Request} (h : r.Plain) : r.Resolved := by
  obtain ⟨v, hv, hfilters⟩ := h.filters
  obtain ⟨w, hw, hrelations⟩ := h.relations
  obtain ⟨x, hx, hgroups⟩ := h.groups
  obtain ⟨y, hy, hexcluded⟩ := h.excluded
  have hsound {v : Value} (hv : v.Plain) : Condition.sound v = true :=
    Condition.sound_of_bare v (Condition.hereditary_plain.bare v hv)
  exact {
    filters := Condition.ofFilters_resolved (hsound hv) hfilters
    relations := relationsOf_resolved (hsound hw) hrelations
    groups := groupsOf_resolved (hsound hx) hgroups
    excluded := Condition.ofFilters_resolved (hsound hy) hexcluded }

/-! ## parts that ask the same -/

theorem allMeet_relations (relations : List (String × List Condition)) (row : Value) :
    Condition.allMeet (Predicate.ofRelationList relations) row
      = relations.all fun e => e.2.all (·.meets (row.resolve e.1)) := by
  induction relations with
  | nil => rfl
  | cons e rest ih =>
    obtain ⟨path, cs⟩ := e
    have hhere : Condition.allMeet (cs.map (path, ·)) row = cs.all (·.meets (row.resolve path)) := by
      rw [Condition.allMeet, List.all_map]
      rfl
    show Condition.allMeet (cs.map (path, ·) ++ Predicate.ofRelationList rest) row = _
    rw [Condition.allMeet, List.all_append]
    show (Condition.allMeet (cs.map (path, ·)) row
      && Condition.allMeet (Predicate.ofRelationList rest) row) = _
    rw [hhere, ih, List.all_cons]

structure SameParts (q r : Request) : Prop where
  filters : Condition.allMeet q.filters = Condition.allMeet r.filters
  relations (row : Value) :
    (q.relationFilters.all fun e => e.2.all (·.meets (row.resolve e.1)))
      = r.relationFilters.all fun e => e.2.all (·.meets (row.resolve e.1))
  found (row : Value) : q.found row = r.found row
  groups : (q.orFilters.map fun g => (Condition.constrains g, Condition.allMeet g))
    = r.orFilters.map fun g => (Condition.constrains g, Condition.allMeet g)
  excluded : Condition.allMeet q.notFilters = Condition.allMeet r.notFilters
  constrains : Condition.constrains q.notFilters = Condition.constrains r.notFilters

theorem SameParts.accepts_eq {q r : Request} (h : SameParts q r) (row : Value) :
    q.accepts row = r.accepts row := by
  have hpairs (t : Request) : (!t.orFilters.any Condition.constrains ||
        (t.orFilters.filter Condition.constrains).any fun g => Condition.allMeet g row)
      = (!(t.orFilters.map fun g => (Condition.constrains g, Condition.allMeet g)).any (·.1) ||
          (t.orFilters.map fun g => (Condition.constrains g, Condition.allMeet g)).any
            fun p => p.1 && p.2 row) := by
    rw [List.any_filter, List.any_map, List.any_map]
    rfl
  unfold accepts
  rw [h.found, hpairs q, hpairs r, h.groups, allMeet_relations, allMeet_relations, h.relations,
    h.filters, h.excluded, h.constrains]

theorem SameParts.of_readAlike {q r : Request} (hfilters : Condition.ReadAlike q.filters r.filters)
    (hrelations : ∀ row : Value, (q.relationFilters.all fun e => e.2.all (·.meets (row.resolve e.1)))
      = r.relationFilters.all fun e => e.2.all (·.meets (row.resolve e.1)))
    (hfound : ∀ row, q.found row = r.found row)
    (hgroups : List.Forall₂ Condition.ReadAlike q.orFilters r.orFilters)
    (hexcluded : Condition.ReadAlike q.notFilters r.notFilters) : SameParts q r where
  filters := hfilters.allMeet_eq
  relations := hrelations
  found := hfound
  groups := by
    rw [← List.forall₂_eq_eq_eq, List.forall₂_map_left_iff, List.forall₂_map_right_iff]
    exact hgroups.imp fun _ _ hhere => by rw [hhere.constrains_eq, hhere.allMeet_eq]
  excluded := hexcluded.allMeet_eq
  constrains := hexcluded.constrains_eq

theorem found_congr {q r : Request} (hsearch : q.search.getD "" = r.search.getD "")
    (hfields : q.searchFields = r.searchFields) (hmode : q.searchMode = r.searchMode) (row : Value) :
    q.found row = r.found row := by
  have hterm (t : Request) : t.found row = (t.search.getD "" == "" || t.searchFields.isEmpty ||
      t.searchFields.any fun path =>
        Condition.someItem (t.searchMode.matches (t.search.getD "")) (row.resolve path)) := by
    unfold found
    cases t.search <;> rfl
  rw [hterm q, hterm r, hsearch, hfields, hmode]

/-! ## what JSON keeps of a spelling -/

namespace Spelling

variable {r s : Request}

structure Same (a : Spelling r) (b : Spelling s) : Prop where
  filters : (Value.record a.filters).kept = (Value.record b.filters).kept
  relations : (Value.record a.relations).kept = (Value.record b.relations).kept
  groups : (Value.list (a.groups.map .record)).kept = (Value.list (b.groups.map .record)).kept
  excluded : (Value.record a.excluded).kept = (Value.record b.excluded).kept

theorem readAlike_of_kept {xs ys : List (String × Value)} (hx : (Value.record xs).Plain)
    (hy : (Value.record ys).Plain) (h : (Value.record xs).kept = (Value.record ys).kept) :
    Condition.ReadAlike (Condition.ofEntries xs) (Condition.ofEntries ys) :=
  .entries (Value.Plain.jsonLike _ hx) (Value.reordered_of_kept hx hy h)

theorem groups_readAlike {gs hs : List (List (String × Value))} (hgs : ∀ g ∈ gs, (Value.record g).Plain)
    (hhs : ∀ g ∈ hs, (Value.record g).Plain)
    (h : (Value.list (gs.map .record)).kept = (Value.list (hs.map .record)).kept) :
    List.Forall₂ Condition.ReadAlike (gs.map Condition.ofEntries) (hs.map Condition.ofEntries) := by
  obtain ⟨_, hsame, hitems⟩ := (Value.reordered_of_kept (plain_groups hgs) (plain_groups hhs) h).of_list
  cases hsame
  rw [List.forall₂_map_left_iff, List.forall₂_map_right_iff] at hitems ⊢
  exact ((List.forall₂_and_left _ _).mpr ⟨hgs, hitems⟩).imp fun _ _ hhere =>
    .entries (Value.Plain.jsonLike _ hhere.1) hhere.2

/-- requests of which JSON keeps the same filters, with the same search, ask the same of every row -/
theorem accepts_eq (a : Spelling r) (b : Spelling s) (h : a.Same b)
    (hsearch : r.search.getD "" = s.search.getD "") (hfields : r.searchFields = s.searchFields)
    (hmode : r.searchMode = s.searchMode) (row : Value) : r.accepts row = s.accepts row := by
  have hfilters := readAlike_of_kept a.plainFilters b.plainFilters h.filters
  have hrelations := Value.reordered_of_kept a.plainRelations b.plainRelations h.relations
  have hgroups := groups_readAlike a.plainGroups b.plainGroups h.groups
  have hexcluded := readAlike_of_kept a.plainExcluded b.plainExcluded h.excluded
  rw [a.readsFilters, b.readsFilters] at hfilters
  rw [a.readsGroups, b.readsGroups] at hgroups
  rw [a.readsExcluded, b.readsExcluded] at hexcluded
  refine (SameParts.of_readAlike hfilters (fun row => ?_) (found_congr hsearch hfields hmode) hgroups
    hexcluded).accepts_eq row
  rw [← a.readsRelations, ← b.readsRelations, List.all_map, List.all_map]
  exact hrelations.all_eq (Value.Plain.jsonLike _ a.plainRelations)
    fun _ _ _ hv hvw => Condition.relation_same hvw hv _

end Spelling

end Request

end ListQuery
