import ListQuery.Proofs.Cache.Filters
import ListQuery.Proofs.Condition.Reordered
import ListQuery.Proofs.Json.Reordered
import ListQuery.Proofs.Matching
import ListQuery.Proofs.Value.Overlay

/-!
# Requests with their entries in another order

A request is read from filters in whatever order their entries come, at any depth.  It has the same
key, it asks the same of every row, and so it is answered alike.

* `Request.RelationsAlike`       relation filters read from mappings that say the same;
* `Request.Alike`                requests read from filters with their entries in another order;
* `Request.ofFields_reordered`   such a request is read whenever the other one is;
* `Alike.accepts_eq`             it asks the same of every row;
* `Alike.key_eq`                 it has the same key;
* `Builder.reordered_alike`      it is answered alike.
-/

namespace ListQuery

open Value (JsonLike Reordered SameEntry)

namespace Request

/-! ## reading -/

inductive RelationsAlike : List (String × List Condition) → List (String × List Condition) → Prop
  | entries {xs ys : List (String × Value)} : (Value.record xs).JsonLike →
      (Value.record xs).Reordered (.record ys) → RelationsAlike (relationsIn xs) (relationsIn ys)

structure Alike (q r : Request) : Prop where
  filters : Condition.ReadAlike q.filters r.filters
  relations : RelationsAlike q.relationFilters r.relationFilters
  groups : List.Forall₂ Condition.ReadAlike q.orFilters r.orFilters
  excluded : Condition.ReadAlike q.notFilters r.notFilters
  others : q.SameButFilters r

section
variable {v w : Value}

theorem relationsOf_reordered {relations : List (String × List Condition)} (h : v.Reordered w)
    (hv : v.JsonLike) (hread : relationsOf v = .ok relations) :
    ∃ others, relationsOf w = .ok others ∧ RelationsAlike relations others := by
  have htruthy := (h.comparisons hv).truthy
  unfold relationsOf at hread ⊢
  rw [← htruthy]
  split at hread
  · rename_i hgiven
    rw [if_pos hgiven]
    obtain ⟨xs, hxs, hread⟩ := Outcome.bind_eq_ok.mp hread
    cases hread
    obtain ⟨ys, hys, hlike, hreordered⟩ := h.entries_eq hv hxs
    exact ⟨relationsIn ys, by rw [hys]; rfl, .entries hlike hreordered⟩
  · rename_i hempty
    cases hread
    rw [if_neg hempty]
    exact ⟨[], rfl, @RelationsAlike.entries [] [] ⟨List.nodup_nil, trivial⟩ (.refl _)⟩

theorem mapM_ofFilters_reordered {items others : List Value}
    {groups : List (List (String × Condition))} (h : List.Forall₂ Reordered items others)
    (hitems : ∀ x ∈ items, x.JsonLike) (hread : items.mapM Condition.ofFilters = .ok groups) :
    ∃ groups', others.mapM Condition.ofFilters = .ok groups' ∧
      List.Forall₂ Condition.ReadAlike groups groups' := by
  induction h generalizing groups with
  | nil =>
    cases hread
    exact ⟨[], rfl, .nil⟩
  | cons hhere _ ih =>
    rw [List.forall_mem_cons] at hitems
    obtain ⟨g, rest, hg, hrest, rfl⟩ := Outcome.mapM_cons_eq_ok.mp hread
    obtain ⟨g', hg', halike⟩ := Condition.ofFilters_reordered hhere hitems.1 hg
    obtain ⟨rest', hrest', halikes⟩ := ih hitems.2 hrest
    exact ⟨g' :: rest', Outcome.mapM_cons_eq_ok.mpr ⟨g', rest', hg', hrest', rfl⟩,
      .cons halike halikes⟩

theorem groupsOf_reordered {groups : List (List (String × Condition))} (h : v.Reordered w)
    (hv : v.JsonLike) (hread : groupsOf v = .ok groups) :
    ∃ groups', groupsOf w = .ok groups' ∧ List.Forall₂ Condition.ReadAlike groups groups' := by
  have htruthy := (h.comparisons hv).truthy
  unfold groupsOf at hread ⊢
  rw [← htruthy]
  split at hread
  · rename_i hgiven
    rw [if_pos hgiven]
    split at hread
    · rename_i xs
      cases hread
      obtain ⟨ys, rfl, _⟩ := h.of_record hv
      exact ⟨[Condition.ofEntries ys], rfl, .cons (.entries hv h) .nil⟩
    · rename_i hrecord
      obtain ⟨items, hitems, hread⟩ := Outcome.bind_eq_ok.mp hread
      obtain ⟨others, hothers, hlike, hreordered⟩ := h.items_eq hv hrecord hitems
      obtain ⟨groups', hgroups', halike⟩ := mapM_ofFilters_reordered hreordered hlike hread
      refine ⟨groups', ?_, halike⟩
      split
      · rename_i ys
        obtain ⟨xs, hxs, _⟩ := h.symm.of_record (h.jsonLike hv)
        exact absurd hxs (hrecord xs)
      · rw [hothers]
        exact hgroups'
  · rename_i hempty
    cases hread
    rw [if_neg hempty]
    exact ⟨[], rfl, .nil⟩

end

def filterNames : List String := ["filters", "relation_filters", "or_filters", "not_filters"]

/-- a request is read from filters in whatever order their entries come -/
theorem ofFields_reordered {fs gs : List (String × Value)} {q : Request} (h : ofFields fs = .ok q)
    (hraw : ∀ name ∈ filterNames, (fieldOrNull name fs).JsonLike)
    (hsame : ∀ name ∈ filterNames, (fieldOrNull name fs).Reordered (fieldOrNull name gs))
    (hother : ∀ name ∉ filterNames, Value.field? name fs = Value.field? name gs) :
    ∃ r, ofFields gs = .ok r ∧ q.Alike r := by
  have hread := ofFields_readFrom h
  obtain ⟨filters, hfilters, halike⟩ := Condition.ofFilters_reordered (hsame "filters" (by decide))
    (hraw "filters" (by decide)) hread.filters
  obtain ⟨relations, hrelations, halike'⟩ := relationsOf_reordered
    (hsame "relation_filters" (by decide)) (hraw "relation_filters" (by decide)) hread.relations
  obtain ⟨groups, hgroups, halike''⟩ := groupsOf_reordered (hsame "or_filters" (by decide))
    (hraw "or_filters" (by decide)) hread.groups
  obtain ⟨excluded, hexcluded, halike'''⟩ := Condition.ofFilters_reordered
    (hsame "not_filters" (by decide)) (hraw "not_filters" (by decide)) hread.excluded
  have hfield {α : Type} {name : String} (hname : name ∉ filterNames) {default x : α}
      {check : Value → Checked α} (hx : Field.withDefault name default check fs = .valid x) :
      Field.withDefault name default check gs = .valid x := by
    unfold Field.withDefault at hx ⊢
    rw [← hother name hname]
    exact hx
  have hvalue {name : String} (hname : name ∉ filterNames) :
      fieldOrNull name fs = fieldOrNull name gs :=
    congrArg (fun v : Option Value => v.getD .null) (hother name hname)
  let r : Request := { q with
    filters := filters, relationFilters := relations, orFilters := groups, notFilters := excluded }
  have hr : r.ReadFrom gs := {
    filters := hfilters
    relations := hrelations
    groups := hgroups
    excluded := hexcluded
    projection := hread.projection.trans (hvalue (by decide))
    cursor := hread.cursor.trans (hvalue (by decide))
    model := hfield (by decide) hread.model
    page := hfield (by decide) hread.page
    limit := hfield (by decide) hread.limit
    search := hfield (by decide) hread.search
    searchFields := hfield (by decide) hread.searchFields
    searchMode := hfield (by decide) hread.searchMode
    sortBy := hfield (by decide) hread.sortBy
    sortOrder := hfield (by decide) hread.sortOrder
    cursorField := hfield (by decide) hread.cursorField }
  exact ⟨r, hr.ofFields_eq, halike, halike', halike'', halike''', .filters _ _ _ _⟩

/-! ## rows -/

namespace RelationsAlike

variable {rs ss : List (String × List Condition)}

theorem symm (h : RelationsAlike rs ss) : RelationsAlike ss rs := by
  obtain ⟨hlike, hreordered⟩ := h
  exact .entries (hreordered.jsonLike hlike) hreordered.symm

theorem relationsOf_record (xs : List (String × Value)) :
    relationsOf (.record xs) = .ok (relationsIn xs) := by
  cases xs <;> rfl

theorem resolved (h : RelationsAlike rs ss) :
    ∀ e ∈ rs, e.2 ≠ [] ∧ ∀ c ∈ e.2, c.isRelated = true ∧ c.resolved = true := by
  obtain ⟨hlike, -⟩ := h
  have hbare := Condition.hereditary_jsonLike.bare _ hlike
  exact relationsOf_resolved (Condition.sound_of_bare _ hbare) (relationsOf_record _)

theorem all_relationsIn (xs : List (String × Value)) (row : Value) :
    ((relationsIn xs).all fun e => e.2.all (·.meets (row.resolve e.1)))
      = xs.all fun e => (Condition.ofRelation e.2).all (·.meets (row.resolve e.1)) := by
  induction xs with
  | nil => rfl
  | cons e rest ih =>
    rw [relationsIn_cons, List.all_cons, ← ih]
    cases hempty : Condition.ofRelation e.2 with
    | nil => rfl
    | cons c cs => rfl

theorem all_eq (h : RelationsAlike rs ss) (row : Value) :
    (rs.all fun e => e.2.all (·.meets (row.resolve e.1)))
      = ss.all fun e => e.2.all (·.meets (row.resolve e.1)) := by
  obtain ⟨hlike, hreordered⟩ := h
  rw [all_relationsIn, all_relationsIn]
  exact hreordered.all_eq hlike fun _ _ _ hv hvw => Condition.relation_same hvw hv _

end RelationsAlike

namespace Alike

variable {q r : Request}

theorem symm (h : q.Alike r) : r.Alike q where
  filters := h.filters.symm
  relations := h.relations.symm
  groups := (h.groups.imp fun _ _ => .symm).flip
  excluded := h.excluded.symm
  others := by
    obtain ⟨filters, relations, groups, excluded⟩ := h.others
    exact .filters q.filters q.relationFilters q.orFilters q.notFilters

/-- the requests ask the same of every row -/
theorem accepts_eq (h : q.Alike r) (row : Value) : q.accepts row = r.accepts row := by
  have hfound (row : Value) : q.found row = r.found row := by
    obtain ⟨filters, relations, groups, excluded⟩ := h.others
    rfl
  exact (SameParts.of_readAlike h.filters h.relations.all_eq hfound h.groups h.excluded).accepts_eq row

theorem resolved (h : q.Alike r) : q.Resolved where
  filters := h.filters.resolved
  relations := h.relations.resolved
  groups := ((List.forall₂_and_left _ _).mp (h.groups.imp fun _ _ hhere => ⟨hhere.resolved, hhere⟩)).1
  excluded := h.excluded.resolved

end Alike

/-! ## keys -/

theorem isEmptyField_reordered {v w : Value} (h : v.Reordered w) :
    isEmptyField v = isEmptyField w := by
  by_cases hwhole : v.isWhole = true
  · rw [h.of_whole hwhole]
  cases v with
  | list items =>
    obtain ⟨others, rfl, hitems⟩ := h.of_list
    rw [isEmptyField_list, isEmptyField_list]
    cases hitems <;> rfl
  | record xs =>
    obtain ⟨ys, zs, rfl, hxz, hzy⟩ := h.matched
    rw [isEmptyField_record, isEmptyField_record, ← hzy.isEmpty_eq]
    cases hxz <;> rfl
  | _ => exact absurd rfl hwhole

theorem spelledRelations_same {xs ys : List (String × Value)} (h : List.Forall₂ SameEntry xs ys)
    (hxs : ∀ e ∈ xs, e.2.JsonLike) :
    List.Forall₂ SameEntry (spelledRelations xs) (spelledRelations ys) := by
  induction h with
  | nil => exact .nil
  | @cons d e xs ys hhere _ ih =>
    rw [List.forall_mem_cons] at hxs
    have hrest := ih hxs.2
    obtain ⟨name, v⟩ := d
    obtain ⟨_, w⟩ := e
    cases hhere.name
    have hvw : v.Reordered w := hhere.value
    by_cases hrecord : ∃ entries, v = .record entries
    · obtain ⟨entries, rfl⟩ := hrecord
      obtain ⟨others, rfl, _⟩ := hvw.of_record hxs.1
      exact .cons ⟨rfl, Condition.spelledRelation_reordered hvw hxs.1⟩ hrest
    · have hv : ∀ entries, v ≠ .record entries := fun entries hv => hrecord ⟨entries, hv⟩
      have hw : ∀ entries, w ≠ .record entries := by
        rintro entries rfl
        obtain ⟨others, _, hothers, _⟩ := hvw.symm.matched
        exact hv others hothers
      unfold spelledRelations
      rwa [List.filterMap_cons_none (spelledRelation?_eq_none hv),
        List.filterMap_cons_none (spelledRelation?_eq_none hw)]

theorem RelationsAlike.written {rs ss : List (String × List Condition)} (h : RelationsAlike rs ss) :
    ∃ xs ys, (rs.mapM fun e => do return (e.1, ← relationToValue e.2)) = .ok xs ∧
      (ss.mapM fun e => do return (e.1, ← relationToValue e.2)) = .ok ys ∧
      (Value.record xs).JsonLike ∧ (Value.record xs).Reordered (.record ys) := by
  obtain @⟨xs, ys, hlike, hreordered⟩ := h
  have hwritten {zs : List (String × Value)} (hzs : (Value.record zs).JsonLike) :
      ((relationsIn zs).mapM fun e => do return (e.1, ← relationToValue e.2))
        = (.ok (spelledRelations zs) : Outcome (List (String × Value))) :=
    spelledRelations_written (Condition.hereditary_jsonLike.bare _ hzs)
  refine ⟨_, _, hwritten hlike, hwritten (hreordered.jsonLike hlike),
    spelledRelations_kind Condition.hereditary_jsonLike hlike, ?_⟩
  obtain ⟨_, zs, hys, hxz, hzy⟩ := hreordered.matched
  cases hys
  have hspelled : List.Forall₂ SameEntry (spelledRelations xs) (spelledRelations zs) :=
    spelledRelations_same hxz (Value.jsonLike_record_iff.mp hlike).2
  exact (Reordered.of_entries hspelled).trans (.entries (hzy.filterMap spelledRelation?))

theorem groups_written {gs hs : List (List (String × Condition))}
    (h : List.Forall₂ Condition.ReadAlike gs hs) :
    ∃ xs ys : List (List (String × Value)),
      (gs.mapM fun g => Value.record <$> Condition.filtersToValue g) = .ok (xs.map .record) ∧
      (hs.mapM fun g => Value.record <$> Condition.filtersToValue g) = .ok (ys.map .record) ∧
      (Value.list (xs.map .record)).JsonLike ∧
      List.Forall₂ Reordered (xs.map .record) (ys.map .record) := by
  induction h with
  | nil => exact ⟨[], [], rfl, rfl, trivial, .nil⟩
  | cons hhere _ ih =>
    obtain ⟨x, y, hx, hy, hlike, hreordered⟩ := hhere.written
    obtain ⟨xs, ys, hxs, hys, hlikes, hreordereds⟩ := ih
    refine ⟨x :: xs, y :: ys, ?_, ?_, ⟨hlike, hlikes⟩, .cons hreordered hreordereds⟩
    · rw [List.mapM_cons, hx, hxs]
      rfl
    · rw [List.mapM_cons, hy, hys]
      rfl

theorem filterPart_reordered {q r : Request} {fs fs' rs rs' : List (String × Value)}
    {gs gs' : List (List (String × Value))} {es es' : List (String × Value)}
    (hfilters : (Value.record fs).Reordered (.record fs'))
    (hrelations : (Value.record rs).Reordered (.record rs'))
    (hgroups : (Value.list (gs.map .record)).Reordered (.list (gs'.map .record)))
    (hexcluded : (Value.record es).Reordered (.record es')) :
    (Value.record (CacheKey.filterPart ((q.fieldsWith fs rs gs es).filter
        fun e => !isEmptyField e.2))).Reordered
      (.record (CacheKey.filterPart ((r.fieldsWith fs' rs' gs' es').filter
        fun e => !isEmptyField e.2))) := by
  have hsections : List.Forall₂ SameEntry
      [("filters", Value.record fs), ("relation_filters", .record rs),
        ("or_filters", .list (gs.map .record)), ("not_filters", .record es)]
      [("filters", Value.record fs'), ("relation_filters", .record rs'),
        ("or_filters", .list (gs'.map .record)), ("not_filters", .record es')] :=
    .cons ⟨rfl, hfilters⟩ (.cons ⟨rfl, hrelations⟩ (.cons ⟨rfl, hgroups⟩
      (.cons ⟨rfl, hexcluded⟩ .nil)))
  have hused := List.rel_filter (p := fun e : String × Value => !isEmptyField e.2)
    (q := fun e : String × Value => !isEmptyField e.2)
    (fun d e hde => by simp only [isEmptyField_reordered hde.value]) hsections
  unfold CacheKey.filterPart
  dsimp only
  rw [sections_written, sections_written]
  generalize List.filter _ _ = used at hused ⊢
  generalize List.filter _ _ = used' at hused ⊢
  split
  · rename_i xs
    obtain ⟨⟨_, w⟩, _, hhere, hrest, rfl⟩ := List.forall₂_cons_left_iff.mp hused
    cases hrest
    cases hhere.name
    obtain ⟨ys, _, rfl, _⟩ := Reordered.matched hhere.value
    exact hhere.value
  · rename_i hsections
    split
    · rename_i ys
      obtain ⟨⟨_, v⟩, _, hhere, hrest, rfl⟩ := List.forall₂_cons_right_iff.mp hused
      cases hrest
      cases hhere.name
      obtain ⟨xs, _, rfl, _⟩ := Reordered.matched hhere.value.symm
      exact absurd rfl (hsections xs)
    · exact .of_entries hused

theorem filterPart_jsonLike {q : Request} {fs rs : List (String × Value)}
    {gs : List (List (String × Value))} {es : List (String × Value)}
    (hfilters : (Value.record fs).JsonLike) (hrelations : (Value.record rs).JsonLike)
    (hgroups : (Value.list (gs.map .record)).JsonLike) (hexcluded : (Value.record es).JsonLike) :
    (Value.record (CacheKey.filterPart ((q.fieldsWith fs rs gs es).filter
      fun e => !isEmptyField e.2))).JsonLike := by
  have hsections : (Value.record [("filters", .record fs), ("relation_filters", .record rs),
      ("or_filters", .list (gs.map .record)), ("not_filters", .record es)]).JsonLike :=
    ⟨(by decide : filterNames.Nodup), hfilters, hrelations, hgroups, hexcluded, trivial⟩
  obtain ⟨hnames, hparts⟩ := Value.jsonLike_record_iff.mp hsections
  have hused : (Value.record (List.filter (fun e => !isEmptyField e.2) _)).JsonLike :=
    Value.jsonLike_record_iff.mpr ⟨hnames.sublist (List.filter_sublist.map Prod.fst),
      fun e he => hparts e (List.mem_of_mem_filter he)⟩
  unfold CacheKey.filterPart
  dsimp only
  rw [sections_written]
  generalize List.filter _ _ = used at hused ⊢
  split
  · exact (Value.jsonLike_record_iff.mp hused).2 _ List.mem_cons_self
  · exact hused

namespace Alike

variable {q r : Request}

theorem written (h : q.Alike r) : ∃ xs ys, q.toRecord = .ok xs ∧ r.toRecord = .ok ys ∧
    (Value.record (CacheKey.filterPart xs)).JsonLike ∧
    (Value.record (CacheKey.filterPart xs)).Reordered (.record (CacheKey.filterPart ys)) := by
  obtain ⟨fs, fs', hfs, hfs', hlike₁, hfilters⟩ := h.filters.written
  obtain ⟨rs, rs', hrs, hrs', hlike₂, hrelations⟩ := h.relations.written
  obtain ⟨gs, gs', hgs, hgs', hlike₃, hgroups⟩ := groups_written h.groups
  obtain ⟨es, es', hes, hes', hlike₄, hexcluded⟩ := h.excluded.written
  refine ⟨(q.fieldsWith fs rs gs es).filter fun e => !isEmptyField e.2,
    (r.fieldsWith fs' rs' gs' es').filter fun e => !isEmptyField e.2, ?_, ?_,
    filterPart_jsonLike hlike₁ hlike₂ hlike₃ hlike₄,
    filterPart_reordered hfilters hrelations (.of_items hgroups) hexcluded⟩
  · unfold toRecord
    rw [hrs, hfs, hgs, hes]
    rfl
  · unfold toRecord
    rw [hrs', hfs', hgs', hes']
    rfl

/-- the order of entries in filters does not show in the key, nor in whether there is one -/
theorem key_eq (h : q.Alike r) (config : Config) :
    CacheKey.ofRequest config q = CacheKey.ofRequest config r := by
  obtain ⟨xs, ys, hxs, hys, hlike, hreordered⟩ := h.written
  have htext : JsonStyle.key.render (.record (CacheKey.filterPart xs))
      = JsonStyle.key.render (.record (CacheKey.filterPart ys)) :=
    congrArg (String.ofList <$> ·) (JsonStyle.write_reordered hreordered hlike 0)
  have hlength : (CacheKey.filterPart xs).length = (CacheKey.filterPart ys).length := by
    obtain ⟨_, hsame, hfields⟩ := hreordered.of_record hlike
    cases hsame
    exact hfields.length_eq
  obtain ⟨filters, relations, groups, excluded⟩ := h.others
  unfold CacheKey.ofRequest
  simp only [hxs, hys, Outcome.ok_bind, htext, hlength]
  rfl

end Alike

end Request

/-! ## answers -/

/-- The order of entries in filters does not matter, at any depth.  A request is read from the fields
of another one with the entries of mappings in the filters in another order; the two have the same
key or neither has one, and over a collection of which no row is a fault for them they are answered alike. -/
theorem Builder.reordered_alike {fs gs : List (String × Value)} {q : Request}
    (hq : Request.ofFields fs = .ok q)
    (hraw : ∀ name ∈ Request.filterNames, (Request.fieldOrNull name fs).JsonLike)
    (hsame : ∀ name ∈ Request.filterNames,
      (Request.fieldOrNull name fs).Reordered (Request.fieldOrNull name gs))
    (hother : ∀ name ∉ Request.filterNames, Value.field? name fs = Value.field? name gs) :
    ∃ r, Request.ofFields gs = .ok r ∧ ∀ config,
      CacheKey.ofRequest config q = CacheKey.ofRequest config r ∧
      ∀ {S : Type} (store : S → Store) (w : Logged S), (store w.state).DecidedBy q r →
        (∀ maxLimit, (((base config (.ofStore store)).query q maxLimit).runOn w).1
          = (((base config (.ofStore store)).query r maxLimit).runOn w).1) ∧
        (((base config (.ofStore store)).cursorQuery q).runOn w).1
          = (((base config (.ofStore store)).cursorQuery r).runOn w).1 ∧
        (((base config (.ofStore store)).count q).runOn w).1
          = (((base config (.ofStore store)).count r).runOn w).1 ∧
        ∀ aggregations, (((base config (.ofStore store)).aggregate q aggregations).runOn w).1
          = (((base config (.ofStore store)).aggregate r aggregations).runOn w).1 := by
  obtain ⟨r, hr, halike⟩ := Request.ofFields_reordered hq hraw hsame hother
  refine ⟨r, hr, fun config => ⟨halike.key_eq config, fun store w hdecided => ?_⟩⟩
  have hmodel := halike.others.model
  have hrows := Store.matching_decided halike.resolved halike.symm.resolved hmodel
    halike.accepts_eq hdecided
  rw [← hmodel] at hrows
  exact base_matching store config w (Request.predicate_eq_tree halike.resolved)
    (Request.predicate_eq_tree halike.symm.resolved) halike.others hrows

/-- orders of whole pens from the spring, asked for with all entries turned round -/
theorem Builder.reordered_alike_orders :
    let fs : List (String × Value) :=
      [("model", .str "order"),
        ("filters", .record [("town", .str "A"),
          ("placed", .record [("from", .date ⟨2024, 3, 1⟩), ("to", .date ⟨2024, 5, 31⟩)])]),
        ("relation_filters", .record [("items", .record [
          ("some", .record [("name", .str "pen"),
            ("price", .record [("from", .int 5), ("to", .int 9)])]),
          ("none", .record [("broken", .bool true)])])]),
        ("or_filters", .list [.record [("vip", .bool true)],
          .record [("paid", .bool true), ("sent", .bool true)]]),
        ("not_filters", .record [("closed", .bool true), ("void", .bool true)])]
    let gs : List (String × Value) :=
      [("model", .str "order"),
        ("filters", .record [
          ("placed", .record [("to", .date ⟨2024, 5, 31⟩), ("from", .date ⟨2024, 3, 1⟩)]),
          ("town", .str "A")]),
        ("relation_filters", .record [("items", .record [("none", .record [("broken", .bool true)]),
          ("some", .record [("price", .record [("to", .int 9), ("from", .int 5)]),
            ("name", .str "pen")])])]),
        ("or_filters", .list [.record [("vip", .bool true)],
          .record [("sent", .bool true), ("paid", .bool true)]]),
        ("not_filters", .record [("void", .bool true), ("closed", .bool true)])]
    let order (price : Int) : Value := .record [("town", .str "A"), ("placed", .date ⟨2024, 4, 2⟩),
      ("items", .list [.record [("name", .str "pen"), ("price", .int price),
        ("broken", .bool false)]]), ("paid", .bool true), ("sent", .bool true)]
    let w : Logged Store := ⟨⟨[(.str "order", [order 7, order 12])]⟩, []⟩
    ∃ q r, Request.ofFields fs = .ok q ∧ Request.ofFields gs = .ok r ∧
      CacheKey.ofRequest {} q = CacheKey.ofRequest {} r ∧
      (((base {} (.ofStore id)).count q).runOn w).1 = .ok 1 ∧
      (((base {} (.ofStore id)).count r).runOn w).1 = .ok 1 := by
  intro fs gs order w
  have hraw : ∀ name ∈ Request.filterNames, (Request.fieldOrNull name fs).JsonLike := by decide
  have hsame : ∀ name ∈ Request.filterNames,
      (Request.fieldOrNull name fs).Reordered (Request.fieldOrNull name gs) := by
    have hturned (x y : String × Value) : (Value.record [x, y]).Reordered (.record [y, x]) :=
      .entries (.swap y x [])
    simp only [Request.filterNames, List.forall_mem_cons]
    refine ⟨?_, ?_, ?_, ?_, fun _ h => absurd h List.not_mem_nil⟩
    · exact .trans (hturned _ _) (.entry [] _ "placed" (hturned _ _))
    · exact .entry [] [] "items" (.trans (hturned _ _) (.entry [_] [] "some"
        (.trans (hturned _ _) (.entry [] _ "price" (hturned _ _)))))
    · exact .item [_] [] (hturned _ _)
    · exact hturned _ _
  have hother : ∀ name ∉ Request.filterNames, Value.field? name fs = Value.field? name gs := by
    intro name hname
    show Value.field? name (("model", .str "order") :: fs.tail)
      = Value.field? name (("model", .str "order") :: gs.tail)
    have hfs : name ∉ fs.tail.map Prod.fst := hname
    have hgs : name ∉ gs.tail.map Prod.fst := hname
    rw [Value.field?, Value.field?, Value.field?_eq_none hfs, Value.field?_eq_none hgs]
  have hcomputed : ∀ q r, Request.ofFields fs = .ok q → Request.ofFields gs = .ok r →
      (id w.state : Store).DecidedBy q r ∧
        (((base {} (.ofStore id)).count q).runOn w).1 = .ok 1 := by
    intro q r hq hr
    cases hq
    cases hr
    refine ⟨?_, rfl⟩
    intro rows hrows
    cases hrows
    rw [List.forall_mem_cons, List.forall_mem_cons]
    refine ⟨⟨?_, ?_⟩, ⟨?_, ?_⟩, fun _ h => absurd h List.not_mem_nil⟩
    all_goals
      intro p hp
      cases hp
      exact ⟨_, rfl⟩
  obtain ⟨q, hq⟩ : ∃ q, Request.ofFields fs = .ok q := ⟨_, rfl⟩
  obtain ⟨r, hr, halike⟩ := reordered_alike hq hraw hsame hother
  obtain ⟨hdecided, hone⟩ := hcomputed q r hq hr
  obtain ⟨hkey, hanswers⟩ := halike {}
  obtain ⟨_, _, hcount, _⟩ := hanswers id w hdecided
  exact ⟨q, r, hq, hr, hkey, hone, hcount.symm.trans hone⟩

end ListQuery
