import ListQuery.Proofs.Collection.Groups
import ListQuery.Proofs.Collection.Totals
import ListQuery.Proofs.Value.Plain

/-!
# Grouped aggregations

A grouped aggregation has one row for each group of the matching rows, with the key and the
aggregates of the group.  Over integers the aggregates of the groups make those of all rows.

* `Store.Groupable`          rows and aggregations for which there is an answer;
* `Store.groupBy_eq`         the rows of the answer;
* `Store.groupBy_folds`      what they say, and what they make together;
* `Store.groupBy_overflows`  a mean without a double leaves no answer.
-/

namespace ListQuery

/-! ## what is asked for -/

/-- a grouping by paths, with aggregations by their names and nothing asked of the groups -/
structure Grouping.Asks (g : Grouping) (names : List String) (asks : List Ask) : Prop where
  keys : g.keys = names.map .str
  aggregations : g.aggregations = (Ask.entries asks).map fun entry => (.str entry.1, entry.2)
  having : ∃ v, g.having = .other v

def Grouping.ungrouped (g : Grouping) : Plan :=
  { model := g.model, predicate := g.predicate, aggregations := .named g.aggregations }

theorem Grouping.of_asks {model filters having : Value} {names : List String} {asks : List Ask}
    {g : Grouping} (hg : Grouping.of model (.list (names.map .str)) (.record (Ask.entries asks))
      filters (.other having) = .ok g) : g.model = model ∧ g.Asks names asks := by
  have hof : Grouping.of model (.list (names.map .str)) (.record (Ask.entries asks)) filters
      (.other having) = (Predicate.ofFilters filters >>= fun predicate => .ok
        { model, keys := names.map .str, predicate, having := .other having,
          aggregations := (Ask.entries asks).map fun entry => (.str entry.1, entry.2) }) := by
    cases asks <;> rfl
  rw [hof] at hg
  obtain ⟨predicate, _, hg⟩ := Outcome.bind_eq_ok.mp hg
  cases hg
  exact ⟨rfl, rfl, rfl, having, rfl⟩

namespace Store

/-- rows with keys, and aggregations each under a name of its own, over fields that hold integers or
null in the rows -/
structure Groupable (names : List String) (asks : List Ask) (rows : List Value) : Prop where
  hashable : ∀ row ∈ rows, Value.hashableAll (keyOf names row) = true
  distinct : (asks.map Ask.name).Nodup
  apart : ∀ name ∈ names, name ∉ asks.map Ask.name
  whole : ∀ ask ∈ asks, ask.measure.WholeOn rows

instance (names : List String) (asks : List Ask) (rows : List Value) :
    Decidable (Groupable names asks rows) :=
  decidable_of_iff ((∀ row ∈ rows, Value.hashableAll (keyOf names row) = true) ∧
      (asks.map Ask.name).Nodup ∧ (∀ name ∈ names, name ∉ asks.map Ask.name) ∧
      ∀ ask ∈ asks, ask.measure.WholeOn rows)
    ⟨fun ⟨hhashable, hdistinct, hapart, hwhole⟩ => ⟨hhashable, hdistinct, hapart, hwhole⟩,
      fun h => ⟨h.hashable, h.distinct, h.apart, h.whole⟩⟩

def Answered (names : List String) (asks : List Ask) (rows : List Value) : Prop :=
  ∀ part ∈ opened names [] rows, ∀ ask ∈ asks, ask.measure.AnsweredOn part.2

instance (names : List String) (asks : List Ask) (rows : List Value) :
    Decidable (Answered names asks rows) :=
  inferInstanceAs (Decidable (∀ part ∈ opened names [] rows, ∀ ask ∈ asks, _))

/-! ## the row of a group -/

/-- a key by its names, with the aggregates of the rows -/
def answerOf (names : List String) (asks : List Ask) (part : List Value × List Value) :
    List (String × Value) :=
  Value.overlay (Value.overlay [] (names.zip part.1)) (Value.overlay [] (Ask.answers asks part.2))

section
variable {names : List String} {asks : List Ask} {rows : List Value}

theorem groupRow_aggregate {g : Grouping} (hkeys : g.keys = names.map .str)
    (part : List Value × List Value) :
    groupRow g part.1 part.2 = (ListQuery.aggregate part.2 g.aggregations >>= fun own =>
      .ok (.record (Value.overlay (Value.overlay [] (names.zip part.1)) own))) := by
  have hnamed : ((names.map Value.str).zip part.1).foldlM (fun entries entry =>
      putField entry.1 entry.2 entries) [] = .ok (Value.overlay [] (names.zip part.1)) := by
    rw [List.zip_map_left, List.foldlM_map]
    exact (foldlM_put id (fun entry _ entries => putField_str ..) []).trans (by rw [List.map_id])
  unfold groupRow
  rw [hkeys, hnamed]
  rfl

theorem groupRow_eq {g : Grouping} (hg : g.Asks names asks) {part : List Value × List Value}
    (hwhole : ∀ ask ∈ asks, ask.measure.WholeOn part.2)
    (hanswered : ∀ ask ∈ asks, ask.measure.AnsweredOn part.2) :
    groupRow g part.1 part.2 = .ok (.record (answerOf names asks part)) := by
  rw [groupRow_aggregate hg.keys, hg.aggregations, Ask.aggregate_eq hwhole hanswered]
  rfl

theorem groupRow_overflows {g : Grouping} (hg : g.Asks names asks) {part : List Value × List Value}
    (hwhole : ∀ ask ∈ asks, ask.measure.WholeOn part.2)
    (h : ¬ ∀ ask ∈ asks, ask.measure.AnsweredOn part.2) :
    groupRow g part.1 part.2 = .error .overflow := by
  obtain ⟨bad, hbad, hnot⟩ := not_forall₂.mp h
  rw [groupRow_aggregate hg.keys, hg.aggregations, Ask.aggregate_overflows hwhole ⟨bad, hbad, hnot⟩]
  rfl

theorem names_answers (asks : List Ask) (rows : List Value) :
    (Ask.answers asks rows).map Prod.fst = asks.map Ask.name := by
  rw [Ask.answers, List.map_map]
  rfl

theorem field?_answers (hdistinct : (asks.map Ask.name).Nodup) {ask : Ask} (hask : ask ∈ asks)
    (rows : List Value) :
    Value.field? ask.name (Ask.answers asks rows) = some (ask.measure.answer rows) := by
  rw [Value.field?_eq_some (by rw [names_answers]; exact hdistinct)]
  exact List.mem_map.mpr ⟨ask, hask, rfl⟩

theorem field?_whole (hdistinct : (asks.map Ask.name).Nodup) {ask : Ask} (hask : ask ∈ asks)
    (rows : List Value) : Value.field? ask.name (Value.overlay [] (Ask.answers asks rows))
      = some (ask.measure.answer rows) := by
  rw [Value.field?_overlay (by rw [names_answers]; exact hdistinct), field?_answers hdistinct hask,
    Option.some_or]

/-- the aggregates stand behind the key, or where its names are theirs in its place -/
theorem field?_answerOf (hdistinct : (asks.map Ask.name).Nodup) (name : String)
    (part : List Value × List Value) :
    Value.field? name (answerOf names asks part) = (Value.field? name (Ask.answers asks part.2)).or
      (Value.field? name (Value.overlay [] (names.zip part.1))) := by
  have hempty : (([] : List (String × Value)).map Prod.fst).Nodup := List.nodup_nil
  rw [answerOf, ← Value.field?_overlay_overlay hempty]
  exact Value.field?_overlay (by rw [names_answers]; exact hdistinct) _

theorem field?_key (h : Groupable names asks rows) {part : List Value × List Value}
    (hpart : part ∈ opened names [] rows) :
    ∀ entry ∈ names.zip part.1, Value.field? entry.1 (answerOf names asks part) = some entry.2 := by
  intro entry hentry
  obtain ⟨row, _, hkey, _⟩ := mem_opened hpart
  have hzip : names.zip part.1 = names.map fun name => (name, row.resolve name) := by
    rw [hkey, zip_keyOf]
  rw [hzip] at hentry
  obtain ⟨name, hname, rfl⟩ := List.mem_map.mp hentry
  have hapart : name ∉ (Ask.answers asks part.2).map Prod.fst := by
    rw [names_answers]
    exact h.apart name hname
  rw [field?_answerOf h.distinct, Value.field?_eq_none hapart, Option.none_or, hzip]
  exact Value.field?_overlay_named (fun name => row.resolve name) (.inl hname)

/-! ## the rows of the groups -/

theorem Groupable.part (h : Groupable names asks rows) {part : List Value × List Value}
    (hpart : part ∈ opened names [] rows) : ∀ ask ∈ asks, ask.measure.WholeOn part.2 := by
  have hrows : ∀ row ∈ part.2, row ∈ rows := fun row hrow =>
    (opened_perm h.hashable).mem_iff.mp (List.mem_flatMap.mpr ⟨part, hpart, hrow⟩)
  exact fun ask hask => ask.measure.wholeOn_subset hrows (h.whole ask hask)

/-- groups of which nothing is asked all have their rows -/
theorem groupBy_rows {s : Store} {g : Grouping} (hkeys : g.keys = names.map .str)
    (hhaving : ∃ v, g.having = .other v) (hrows : s.matching g.model g.predicate = .ok rows)
    (h : ∀ row ∈ rows, Value.hashableAll (keyOf names row) = true) :
    s.groupBy g = (opened names [] rows).mapM fun part => groupRow g part.1 part.2 := by
  obtain ⟨v, hhaving⟩ := hhaving
  unfold groupBy
  rw [hrows, Outcome.ok_bind, hkeys, groups_eq h, Outcome.ok_bind]
  refine Outcome.mapM_kept fun part _ => ?_
  rw [hhaving]
  rfl

theorem groupBy_eq {s : Store} {g : Grouping} (hg : g.Asks names asks)
    (hrows : s.matching g.model g.predicate = .ok rows) (h : Groupable names asks rows)
    (hanswered : Answered names asks rows) :
    s.groupBy g = .ok ((opened names [] rows).map fun part => .record (answerOf names asks part)) := by
  rw [groupBy_rows hg.keys hg.having hrows h.hashable]
  exact Outcome.mapM_of_forall fun part hpart =>
    groupRow_eq hg (h.part hpart) (hanswered part hpart)

theorem groupBy_overflows {s : Store} {g : Grouping} (hg : g.Asks names asks)
    (hrows : s.matching g.model g.predicate = .ok rows) (h : Groupable names asks rows)
    (hunanswered : ¬ Answered names asks rows) : s.groupBy g = .error .overflow := by
  obtain ⟨bad, hbad, hnot⟩ := not_forall₂.mp hunanswered
  rw [groupBy_rows hg.keys hg.having hrows h.hashable]
  refine Outcome.mapM_fails (fun part hpart => ?_) ⟨bad, hbad, groupRow_overflows hg (h.part hbad) hnot⟩
  by_cases hanswered : ∀ ask ∈ asks, ask.measure.AnsweredOn part.2
  · exact .inl ⟨_, groupRow_eq hg (h.part hpart) hanswered⟩
  · exact .inr (groupRow_overflows hg (h.part hpart) hanswered)

theorem opened_parts (h : Groupable names asks rows) :
    ((opened names [] rows).map Prod.snd).flatten.Perm rows := by
  rw [← List.flatMap_def]
  exact opened_perm h.hashable

/-- all matching rows taken together have an answer where their groups have -/
theorem aggregate_whole {s : Store} {g : Grouping} (hg : g.Asks names asks)
    (hrows : s.matching g.model g.predicate = .ok rows) (h : Groupable names asks rows)
    (hanswered : Answered names asks rows) :
    s.aggregate g.ungrouped = .ok (Value.overlay [] (Ask.answers asks rows)) := by
  have hwhole : ∀ ask ∈ asks, ask.measure.AnsweredOn rows := fun ask hask =>
    ask.measure.answeredOn_flatten (opened_parts h)
      (List.forall_mem_map.mpr fun part hpart => hanswered part hpart ask hask)
  show (s.matching g.model g.predicate >>= fun rows => _) = _
  rw [hrows, Outcome.ok_bind]
  show ListQuery.aggregate rows g.aggregations = _
  rw [hg.aggregations, Ask.aggregate_eq h.whole hwhole]

end

/-- A grouped aggregation of integers has one row for each group that the matching rows open, with
the key of the group and the aggregates of its rows, and the aggregates of the groups make those of
all matching rows; unless in one of the groups a mean is asked for that no double holds. -/
theorem groupBy_folds {s : Store} {model filters having : Value} {names : List String}
    {asks : List Ask} {g : Grouping} {rows : List Value}
    (hg : Grouping.of model (.list (names.map .str)) (.record (Ask.entries asks)) filters
      (.other having) = .ok g)
    (hrows : s.matching model g.predicate = .ok rows) (h : Groupable names asks rows) :
    (Answered names asks rows →
      ((opened names [] rows).Pairwise fun first second =>
        Value.equalItems first.1 second.1 = false) ∧
      ((opened names [] rows).flatMap Prod.snd).Perm rows ∧
      ∃ (answers : List (List (String × Value))) (whole : List (String × Value)),
        s.groupBy g = .ok (answers.map .record) ∧
        s.aggregate g.ungrouped = .ok whole ∧
        List.Forall₂ (fun part answer =>
          (∀ entry ∈ names.zip part.1, Value.field? entry.1 answer = some entry.2) ∧
          ∃ own, ListQuery.aggregate part.2 g.aggregations = .ok own ∧
            ∀ ask ∈ asks, Value.field? ask.name answer = Value.field? ask.name own)
          (opened names [] rows) answers ∧
        ∀ ask ∈ asks, ∃ (parts : List Value) (v : Value),
          answers.map (Value.field? ask.name) = parts.map some ∧
          Value.field? ask.name whole = some v ∧ ask.measure.Folds parts v) ∧
    (¬ Answered names asks rows → s.groupBy g = .error .overflow) := by
  obtain ⟨rfl, hasks⟩ := Grouping.of_asks hg
  refine ⟨fun hanswered => ⟨opened_apart [] rows, opened_perm h.hashable,
    (opened names [] rows).map (answerOf names asks), _, ?_,
    aggregate_whole hasks hrows h hanswered, ?_, fun ask hask => ?_⟩, groupBy_overflows hasks hrows h⟩
  · rw [groupBy_eq hasks hrows h hanswered, List.map_map]
    rfl
  · rw [List.forall₂_map_right_iff, List.forall₂_same]
    intro part hpart
    refine ⟨field?_key h hpart, Value.overlay [] (Ask.answers asks part.2), ?_, fun ask hask => ?_⟩
    · rw [hasks.aggregations, Ask.aggregate_eq (h.part hpart) (hanswered part hpart)]
    · rw [field?_answerOf h.distinct, field?_answers h.distinct hask, Option.some_or,
        field?_whole h.distinct hask]
  · refine ⟨((opened names [] rows).map Prod.snd).map ask.measure.answer, _, ?_,
      field?_whole h.distinct hask rows, ask.measure.folds (opened_parts h)⟩
    rw [List.map_map, List.map_map, List.map_map]
    refine List.map_congr_left fun part _ => ?_
    show Value.field? ask.name (answerOf names asks part) = some (ask.measure.answer part.2)
    rw [field?_answerOf h.distinct, field?_answers h.distinct hask, Option.some_or]

/-! ## equal keys of different kinds, values that are null and values that are not there -/

def mixedRows : List Value := [
  .record [("k", .int 1), ("x", .int 5)],
  .record [("k", .str "b")],
  .record [("k", .bool true), ("x", .int (-2))],
  .record [("k", .float (.finite false 4503599627370496 (-52))), ("x", .null)]]

def mixed : Store := ⟨[(.str "m", mixedRows)]⟩

def mixedAsks : List Ask := [
  ⟨"_count", .bool true, .rows, .rows (by decide) rfl⟩,
  ⟨"_min", .list [.str "x"], .fields .least ["x"], .fields (by decide) rfl⟩,
  ⟨"_avg", .str "x", .fields .average ["x"], .fields (by decide) rfl⟩]

def mixedGrouping : Grouping where
  model := .str "m"
  keys := [.str "k"]
  aggregations := (Ask.entries mixedAsks).map fun entry => (.str entry.1, entry.2)
  predicate := .unrestricted
  having := .other .null

theorem groupBy_folds_mixed :
    Grouping.of (.str "m") (.list (["k"].map .str)) (.record (Ask.entries mixedAsks)) .null
        (.other .null) = .ok mixedGrouping ∧
      mixed.matching (.str "m") mixedGrouping.predicate = .ok mixedRows ∧
      Groupable ["k"] mixedAsks mixedRows ∧ Answered ["k"] mixedAsks mixedRows ∧
      ∃ (answers : List (List (String × Value))) (whole : List (String × Value)),
        mixed.groupBy mixedGrouping = .ok (answers.map .record) ∧ answers.length = 2 ∧
        ∃ (parts : List Value) (v : Value), answers.map (Value.field? "_min") = parts.map some ∧
          Value.field? "_min" whole = some v ∧ Measure.Folds (.fields .least ["x"]) parts v := by
  have hof : Grouping.of (.str "m") (.list (["k"].map .str)) (.record (Ask.entries mixedAsks)) .null
      (.other .null) = .ok mixedGrouping := rfl
  have hmatching : mixed.matching (.str "m") mixedGrouping.predicate = .ok mixedRows := rfl
  have hgroupable : Groupable ["k"] mixedAsks mixedRows := by decide +kernel
  have hanswered : Answered ["k"] mixedAsks mixedRows := by decide +kernel
  obtain ⟨_, _, answers, whole, hgroups, _, hrows, hfolds⟩ :=
    (groupBy_folds hof hmatching hgroupable).1 hanswered
  exact ⟨hof, hmatching, hgroupable, hanswered, answers, whole, hgroups, hrows.length_eq.symm,
    hfolds ⟨"_min", .list [.str "x"], .fields .least ["x"], .fields (by decide) rfl⟩
      (List.mem_cons_of_mem _ List.mem_cons_self)⟩

/-! ## means that no double holds -/

def great : Nat := Nat.pow 10 200 * Nat.pow 10 200

def apartRows : List Value := [
  .record [("k", .str "a"), ("x", .int great)],
  .record [("k", .str "b"), ("x", .int (-great))]]

def apart : Store := ⟨[(.str "m", apartRows)]⟩

def apartAsks : List Ask := [
  ⟨"_count", .bool true, .rows, .rows (by decide) rfl⟩,
  ⟨"_avg", .str "x", .fields .average ["x"], .fields (by decide) rfl⟩]

def apartGrouping : Grouping where
  model := .str "m"
  keys := [.str "k"]
  aggregations := (Ask.entries apartAsks).map fun entry => (.str entry.1, entry.2)
  predicate := .unrestricted
  having := .other .null

/-- there is no answer by group where there is one for all rows, whose mean is zero -/
theorem groupBy_apart :
    Grouping.of (.str "m") (.list (["k"].map .str)) (.record (Ask.entries apartAsks)) .null
        (.other .null) = .ok apartGrouping ∧
      apart.matching (.str "m") apartGrouping.predicate = .ok apartRows ∧
      Groupable ["k"] apartAsks apartRows ∧
      apart.aggregate apartGrouping.ungrouped
        = .ok [("_count", .int 2), ("_avg", .record [("x", .float .zero)])] ∧
      apart.groupBy apartGrouping = .error .overflow := by
  have hof : Grouping.of (.str "m") (.list (["k"].map .str)) (.record (Ask.entries apartAsks)) .null
      (.other .null) = .ok apartGrouping := rfl
  have hmatching : apart.matching (.str "m") apartGrouping.predicate = .ok apartRows := rfl
  have hgroupable : Groupable ["k"] apartAsks apartRows := by decide +kernel
  have hunanswered : ¬ Answered ["k"] apartAsks apartRows := by decide +kernel
  exact ⟨hof, hmatching, hgroupable, rfl,
    groupBy_overflows (Grouping.of_asks hof).2 hmatching hgroupable hunanswered⟩

end Store

end ListQuery
