import ListQuery.Cache.Key
import ListQuery.Proofs.Request.Spelled

/-!
# The filters in a cache key

A key has the plain filters of a request on their own where there are no others, and all filters by
their sections where there are.  As long as no plain filter has the name of a section, what JSON keeps
of the part tells the filters of all sections.

* `Spelling.sections`        the filters of a request by section;
* `Spelling.part_flat`, `part_sections`   the two forms of the part;
* `Spelling.same_of_part`    the sections of which the part keeps the same.
-/

namespace ListQuery

/-! ## chosen fields -/

namespace Value

theorem filterMap_field? (keep : Value → Bool) {entries written : List (String × Value)}
    (h : ∀ e ∈ entries, field? e.1 written = (some e.2).filter keep) :
    ((entries.map Prod.fst).filterMap fun name => (field? name written).map (name, ·))
      = entries.filter fun e => keep e.2 := by
  induction entries with
  | nil => rfl
  | cons e rest ih =>
    rw [List.forall_mem_cons] at h
    cases hkeep : keep e.2 with
    | true =>
      have hhere : (field? e.1 written).map (e.1, ·) = some e := by
        rw [h.1, Option.filter_some_pos hkeep]
        rfl
      rw [List.map_cons, List.filterMap_cons, hhere,
        List.filter_cons_of_pos (p := fun e : String × Value => keep e.2) hkeep, ← ih h.2]
    | false =>
      have hhere : (field? e.1 written).map (e.1, ·) = none := by
        rw [h.1, Option.filter_some_neg (by simp [hkeep])]
        rfl
      rw [List.map_cons, List.filterMap_cons, hhere, List.filter_cons_of_neg (by simp [hkeep]),
        ← ih h.2]

end Value

namespace Request

theorem isEmptyField_record (entries : List (String × Value)) :
    isEmptyField (.record entries) = entries.isEmpty := by
  cases entries <;> rfl

theorem isEmptyField_list (items : List Value) : isEmptyField (.list items) = items.isEmpty := by
  cases items <;> rfl

theorem sections_written (r : Request) (filters relations : List (String × Value))
    (groups : List (List (String × Value))) (excluded : List (String × Value)) :
    ["filters", "relation_filters", "or_filters", "not_filters"].filterMap (fun name =>
      (Value.field? name ((r.fieldsWith filters relations groups excluded).filter
        fun e => !isEmptyField e.2)).map (name, ·))
      = [("filters", Value.record filters), ("relation_filters", .record relations),
          ("or_filters", .list (groups.map .record)), ("not_filters", .record excluded)].filter
        fun e => !isEmptyField e.2 := by
  let fields := r.fieldsWith filters relations groups excluded
  have hnames : (fields.map Prod.fst).Nodup := by
    show ["model", "page", "cursor", "limit", "search", "search_fields", "search_mode", "filters",
      "relation_filters", "or_filters", "not_filters", "sort_by", "sort_order", "projection",
      "cursor_field"].Nodup
    decide
  have hfields : ∀ e ∈ (fields.drop 7).take 4,
      Value.field? e.1 (fields.filter fun e => !isEmptyField e.2)
        = (some e.2).filter fun v => !isEmptyField v := by
    intro e he
    have hmem := List.mem_of_mem_drop (List.mem_of_mem_take he)
    rw [Value.field?_filter (fun v => !isEmptyField v) hnames, (Value.field?_eq_some hnames).mpr hmem]
  exact Value.filterMap_field? (fun v => !isEmptyField v) hfields

namespace Spelling

variable {r s : Request}

/-! ## sections -/

def sections (a : Spelling r) : List (String × Value) :=
  [("filters", .record a.filters), ("relation_filters", .record a.relations),
    ("or_filters", .list (a.groups.map .record)), ("not_filters", .record a.excluded)]

def used (a : Spelling r) : List (String × Value) := a.sections.filter fun e => !isEmptyField e.2

def part (a : Spelling r) : List (String × Value) :=
  CacheKey.filterPart ((r.fieldsWith a.filters a.relations a.groups a.excluded).filter
    fun e => !isEmptyField e.2)

theorem sections_nodup (a : Spelling r) : (a.sections.map Prod.fst).Nodup := by
  show ["filters", "relation_filters", "or_filters", "not_filters"].Nodup
  decide

theorem sections_plain (a : Spelling r) : Value.PlainEntries a.sections :=
  ⟨a.plainFilters, a.plainRelations, plain_groups a.plainGroups, a.plainExcluded, trivial⟩

theorem used_nodup (a : Spelling r) : (a.used.map Prod.fst).Nodup :=
  a.sections_nodup.sublist (List.filter_sublist.map Prod.fst)

theorem used_plain (a : Spelling r) : (Value.record a.used).Plain := by
  refine ⟨a.used_nodup, Value.plainEntries_iff.mpr fun e he => ?_⟩
  exact Value.plainEntries_iff.mp a.sections_plain e (List.mem_of_mem_filter he)

theorem field?_used (a : Spelling r) {e : String × Value} (he : e ∈ a.sections) :
    Value.field? e.1 a.used = (some e.2).filter fun v => !isEmptyField v := by
  rw [used, Value.field?_filter (fun v => !isEmptyField v) a.sections_nodup, (Value.field?_eq_some a.sections_nodup).mpr he]

theorem written_used (a : Spelling r) :
    ["filters", "relation_filters", "or_filters", "not_filters"].filterMap (fun name =>
      (Value.field? name ((r.fieldsWith a.filters a.relations a.groups a.excluded).filter
        fun e => !isEmptyField e.2)).map (name, ·)) = a.used := sections_written r _ _ _ _

/-! ## the part -/

/-- there are no filters but the plain ones -/
def Flat (a : Spelling r) : Prop := a.relations = [] ∧ a.groups = [] ∧ a.excluded = []

theorem used_flat (a : Spelling r) (h : a.Flat) :
    a.used = if a.filters = [] then [] else [("filters", .record a.filters)] := by
  unfold used sections
  rw [h.1, h.2.1, h.2.2]
  cases a.filters <;> rfl

theorem part_flat (a : Spelling r) (h : a.Flat) : a.part = a.filters := by
  have hused := used_flat a h
  unfold part CacheKey.filterPart
  dsimp only
  by_cases hempty : a.filters = []
  · rw [written_used, hused, if_pos hempty]
    exact hempty.symm
  · rw [written_used, hused, if_neg hempty]
    rfl

def reserved : List String := ["relation_filters", "or_filters", "not_filters"]

theorem used_reserved (a : Spelling r) (h : ¬a.Flat) : ∃ e ∈ a.used, e.1 ∈ reserved := by
  by_cases hrelations : a.relations = []
  · by_cases hgroups : a.groups = []
    · have hexcluded : a.excluded ≠ [] := fun hexcluded => h ⟨hrelations, hgroups, hexcluded⟩
      refine ⟨("not_filters", .record a.excluded), List.mem_filter.mpr ⟨by simp [sections], ?_⟩,
        by simp [reserved]⟩
      rw [isEmptyField_record]
      simpa using hexcluded
    · refine ⟨("or_filters", .list (a.groups.map .record)), List.mem_filter.mpr ⟨by simp [sections], ?_⟩,
        by simp [reserved]⟩
      rw [isEmptyField_list]
      simpa using hgroups
  · refine ⟨("relation_filters", .record a.relations), List.mem_filter.mpr ⟨by simp [sections], ?_⟩,
      by simp [reserved]⟩
    rw [isEmptyField_record]
    simpa using hrelations

theorem part_sections (a : Spelling r) (h : ¬a.Flat) : a.part = a.used := by
  obtain ⟨e, he, hreserved⟩ := used_reserved a h
  unfold part CacheKey.filterPart
  dsimp only
  rw [written_used]
  split
  · rename_i entries hused
    rw [hused, List.mem_singleton] at he
    subst he
    exact absurd hreserved (by decide : "filters" ∉ reserved)
  · rfl

theorem part_plain (a : Spelling r) : (Value.record a.part).Plain := by
  by_cases h : a.Flat
  · rw [part_flat a h]
    exact a.plainFilters
  · rw [part_sections a h]
    exact a.used_plain

/-! ## what the part tells -/

theorem used_same (a : Spelling r) (b : Spelling s)
    (h : (Value.record a.used).kept = (Value.record b.used).kept) (name : String) {v w empty : Value}
    (hv : (name, v) ∈ a.sections) (hw : (name, w) ∈ b.sections)
    (hempty : isEmptyField v = true → v = empty) (hempty' : isEmptyField w = true → w = empty) :
    v.kept = w.kept := by
  have hentries : JsonStyle.byName (Value.keptEntries a.used) = JsonStyle.byName (Value.keptEntries b.used) :=
    Value.record.inj h
  have hfields := congrArg (Value.field? name) hentries
  rw [Value.field?_kept a.used_nodup, Value.field?_kept b.used_nodup, field?_used a hv,
    field?_used b hw] at hfields
  cases hv' : isEmptyField v with
  | true =>
    rw [Option.filter_some_neg (by simp [hv'])] at hfields
    cases hw' : isEmptyField w with
    | true => rw [hempty hv', hempty' hw']
    | false =>
      rw [Option.filter_some_pos (by simp [hw'])] at hfields
      cases hfields
  | false =>
    rw [Option.filter_some_pos (by simp [hv'])] at hfields
    cases hw' : isEmptyField w with
    | true =>
      rw [Option.filter_some_neg (by simp [hw'])] at hfields
      cases hfields
    | false =>
      rw [Option.filter_some_pos (by simp [hw'])] at hfields
      exact Option.some.inj hfields

theorem record_empty {entries : List (String × Value)} (h : isEmptyField (.record entries) = true) :
    Value.record entries = .record [] := by
  rw [isEmptyField_record, List.isEmpty_iff] at h
  rw [h]

theorem list_empty {items : List Value} (h : isEmptyField (.list items) = true) :
    Value.list items = .list [] := by
  rw [isEmptyField_list, List.isEmpty_iff] at h
  rw [h]

theorem same_of_used (a : Spelling r) (b : Spelling s)
    (h : (Value.record a.used).kept = (Value.record b.used).kept) : a.Same b where
  filters := used_same a b h "filters" (by simp [sections]) (by simp [sections])
    record_empty record_empty
  relations := used_same a b h "relation_filters" (by simp [sections]) (by simp [sections])
    record_empty record_empty
  groups := used_same a b h "or_filters" (by simp [sections]) (by simp [sections])
    list_empty list_empty
  excluded := used_same a b h "not_filters" (by simp [sections]) (by simp [sections])
    record_empty record_empty

/-- plain filters on their own have a name that sections have -/
theorem flat_ne_sections (a : Spelling r) (b : Spelling s) (hb : ¬b.Flat)
    (hnames : ∀ name ∈ r.filters.map Prod.fst, name ∉ reserved) :
    (Value.record a.filters).kept ≠ (Value.record b.used).kept := by
  intro h
  obtain ⟨e, he, hreserved⟩ := used_reserved b hb
  have hentries : JsonStyle.byName (Value.keptEntries a.filters) = JsonStyle.byName (Value.keptEntries b.used) :=
    Value.record.inj h
  have hfields := congrArg (Value.field? e.1) hentries
  rw [Value.field?_kept a.plainFilters.1, Value.field?_kept b.used_nodup,
    (Value.field?_eq_some b.used_nodup).mpr he] at hfields
  obtain ⟨v, hv, _⟩ := Option.map_eq_some_iff.mp hfields
  have hmem := Value.mem_of_field? hv
  refine hnames e.1 ?_ hreserved
  rw [← a.readsFilters, Condition.ofEntries_jsonLike
    (Value.jsonLikeEntries_iff.mp (Value.PlainEntries.jsonLike _ a.plainFilters.2)), List.map_map]
  exact List.mem_map.mpr ⟨_, hmem, rfl⟩

/-- the part tells the sections, unless a plain filter has the name of one -/
theorem same_of_part (a : Spelling r) (b : Spelling s)
    (h : (Value.record a.part).kept = (Value.record b.part).kept)
    (hr : ∀ name ∈ r.filters.map Prod.fst, name ∉ reserved)
    (hs : ∀ name ∈ s.filters.map Prod.fst, name ∉ reserved) : a.Same b := by
  by_cases ha : a.Flat
  · by_cases hb : b.Flat
    · rw [part_flat a ha, part_flat b hb] at h
      obtain ⟨hrelations, hgroups, hexcluded⟩ := ha
      obtain ⟨hrelations', hgroups', hexcluded'⟩ := hb
      refine ⟨h, ?_, ?_, ?_⟩
      · rw [hrelations, hrelations']
      · rw [hgroups, hgroups']
      · rw [hexcluded, hexcluded']
    · rw [part_flat a ha, part_sections b hb] at h
      exact absurd h (flat_ne_sections a b hb hr)
  · by_cases hb : b.Flat
    · rw [part_sections a ha, part_flat b hb] at h
      exact absurd h.symm (flat_ne_sections b a ha hs)
    · rw [part_sections a ha, part_sections b hb] at h
      exact same_of_used a b h

end Spelling

end Request

end ListQuery
