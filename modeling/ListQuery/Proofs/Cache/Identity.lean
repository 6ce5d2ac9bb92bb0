import ListQuery.Proofs.Cache.Filters
import ListQuery.Proofs.Cache.Key
import ListQuery.Proofs.Request.SamePage

/-!
# Keys that tell requests apart

The key of a request tells all that a query for a page depends on: requests with the same key are
answered alike.  The parts that are no JSON are written as they are, so this takes that they hold no
colon, that no name of a searched field holds a comma, and that no plain filter has the name of a
section.

* `Config.Typed`         the settings are of the kinds that they are declared with;
* `Request.Keyable`      the parts of the request can be told from its key;
* `CacheKey.samePage`    requests with the same key ask for the same page;
* `CacheKey.identifies`  and are answered alike;
* `CacheKey.collisions`  requests that share a key and are not.
-/

namespace ListQuery

structure Config.Typed (c : Config) : Prop where
  page : ∃ n, c.defaultPage = .int n
  limit : ∃ n, c.defaultLimit = .int n
  sortField : ∃ s, c.defaultSortField = .str s
  sortOrder : ∃ o : SortOrder, c.defaultSortOrder = .str o.name

/-- the parts of the request can be told from its key -/
structure Request.Keyable (r : Request) : Prop where
  plain : r.Plain
  page : ∀ n, r.page = some n → 1 ≤ n
  limit : ∀ n, r.limit = some n → 1 ≤ n
  model : ':' ∉ (r.model.getD "").toList
  search : ':' ∉ (r.search.getD "").toList
  searchFields : ∀ name ∈ r.searchFields, ':' ∉ name.toList ∧ ',' ∉ name.toList
  cursorField : ':' ∉ (r.cursorField.getD "").toList
  filters : ∀ name ∈ r.filters.map Prod.fst, name ∉ Request.Spelling.reserved

namespace CacheKey

variable {config : Config} {q r : Request} {t u : Texts}

/-! ## keys of plain requests -/

theorem reads_of_render {v : Value} (hv : v.Regular) {text : String}
    (h : JsonStyle.key.render v = .ok text) : Json.Reads text.toList v.kept := by
  obtain ⟨cs, hwrite, hreads⟩ := Json.value_reads v hv 0
  unfold JsonStyle.render at h
  rw [hwrite] at h
  cases hshort : v.hasText with
  | true =>
    rw [hshort] at h
    cases h
    rwa [String.toList_ofList]
  | false =>
    rw [hshort] at h
    cases h

/-! ## parts with an end -/

theorem integer_reads (n : Int) : Json.Reads (Value.int n).display.toList (.int n) := by
  have htext : (Value.int n).display.toList = Value.signed n := String.toList_ofList
  rw [htext]
  exact Json.number_reads fun _ => Json.integer_read n

theorem numberOr_display {n : Option Int} {default : Value} {text : String}
    (h : numberOr n default = .ok text) : ((Value.ofInt? n).orElse default).display = text := by
  unfold numberOr at h
  cases htext : ((Value.ofInt? n).orElse default).text with
  | error e =>
    rw [htext] at h
    cases h
  | ok cs =>
    rw [htext] at h
    cases h
    rw [← Value.display_of_text htext, String.ofList_toList]

theorem numberOr_eq {n : Option Int} {default : Value} {text : String}
    (hdefault : ∃ d, default = .int d) (h : ∀ m, n = some m → 1 ≤ m)
    (htext : numberOr n default = .ok text) :
    ∃ d, default = .int d ∧ text = (Value.int (n.getD d)).display := by
  obtain ⟨d, rfl⟩ := hdefault
  refine ⟨d, rfl, ?_⟩
  rw [← numberOr_display htext]
  cases n with
  | none =>
    unfold Value.orElse
    rfl
  | some m =>
    have hpos := h m rfl
    have htruthy : (Value.int m).truthy = true := by
      rw [Value.truthy, decide_eq_true_eq]
      omega
    unfold Value.orElse
    rw [Value.ofInt?, if_pos htruthy]
    rfl

theorem given_eq_some {text x : String} {isGiven : Bool} (h : given text isGiven = some x) :
    x = text := by
  cases isGiven with
  | true => exact (Option.some.inj h).symm
  | false => cases h

theorem mem_optionals {name text : String} :
    (name, text) ∈ optionals r t ↔ name ∈ optionalNames ∧ textOf r t name = some text := by
  unfold optionals
  rw [List.mem_flatMap]
  constructor
  · rintro ⟨other, hother, hmem⟩
    rw [Option.mem_toList, Option.map_eq_some_iff] at hmem
    obtain ⟨x, hx, heq⟩ := hmem
    cases heq
    exact ⟨hother, hx⟩
  · rintro ⟨hname, htext⟩
    refine ⟨name, hname, ?_⟩
    rw [Option.mem_toList, htext]
    rfl

theorem noColon_joined {names : List String} (h : ∀ name ∈ names, ':' ∉ name.toList) :
    ':' ∉ (String.intercalate "," names).toList := by
  rw [String.toList_intercalate]
  induction names with
  | nil => exact List.not_mem_nil
  | cons name rest ih =>
    rw [List.forall_mem_cons] at h
    cases rest with
    | nil => simpa using h.1
    | cons other rest =>
      rw [List.map_cons, List.intercalate_cons_of_ne_nil (by simp)]
      have hrest := ih h.2
      simp only [List.mem_append, not_or]
      exact ⟨⟨h.1, by decide⟩, hrest⟩

theorem noColon_mode (m : SearchMode) : ':' ∉ m.name.toList := by
  cases m <;> decide

theorem noColon_direction (o : SortOrder) : ':' ∉ o.name.toList := by
  cases o <;> decide

theorem filterText (a : r.Spelling) (ht : t.Of config r) : FilterText a.part t.filters := by
  obtain ⟨written, hwritten, hfilters⟩ := ht.filters
  rw [a.written] at hwritten
  cases hwritten
  exact hfilters

theorem FilterText.reads {entries : List (String × Value)} (hplain : (Value.record entries).Plain)
    {text : String} (h : FilterText entries (some text)) :
    Json.Reads text.toList (Value.record entries).kept := reads_of_render hplain.regular h.2

theorem Rendered.reads {v : Value} (hv : v.Regular) {text : String} (h : Rendered v (some text)) :
    Json.Reads text.toList v.kept := reads_of_render hv h.2

/-- the ends of all parts in front of the order can be told -/
theorem inner_closed (hconfig : config.Typed) (hr : r.Keyable) (ht : t.Of config r) :
    ∀ p ∈ inner r t, Closed (p.1, p.2.toList) := by
  rintro ⟨name, text⟩ hp
  rcases List.mem_cons.mp hp with h | hp
  · cases h
    obtain ⟨d, _, hpage⟩ := numberOr_eq hconfig.page hr.page ht.page
    dsimp only
    rw [hpage]
    exact .json (by decide) (by decide) (by decide) (integer_reads _)
  rcases List.mem_cons.mp hp with h | hp
  · cases h
    obtain ⟨d, _, hlimit⟩ := numberOr_eq hconfig.limit hr.limit ht.limit
    dsimp only
    rw [hlimit]
    exact .json (by decide) (by decide) (by decide) (integer_reads _)
  obtain ⟨hname, htext⟩ := mem_optionals.mp hp
  simp only [optionalNames, List.mem_cons, List.not_mem_nil, or_false] at hname
  dsimp only
  rcases hname with rfl | rfl | rfl | rfl | rfl | rfl | rfl
  · have hsearch : given (r.search.getD "") (r.search.getD "" ≠ "") = some text := htext
    rw [given_eq_some hsearch]
    exact .plain (by decide) (by decide) (by decide) hr.search
  · have hfields : given (String.intercalate "," r.searchFields) (r.searchFields ≠ []) = some text := htext
    rw [given_eq_some hfields]
    exact .plain (by decide) (by decide) (by decide) (noColon_joined fun f hf => (hr.searchFields f hf).1)
  · have hmode : given r.searchMode.name (r.searchMode ≠ .contains) = some text := htext
    rw [given_eq_some hmode]
    exact .plain (by decide) (by decide) (by decide) (noColon_mode _)
  · obtain ⟨a⟩ := hr.plain.spelling
    have hfilters := filterText a ht
    have htext' : t.filters = some text := htext
    rw [htext'] at hfilters
    exact .json (by decide) (by decide) (by decide) (hfilters.reads a.part_plain)
  · have hprojection := ht.projection
    have htext' : t.projection = some text := htext
    rw [htext'] at hprojection
    exact .json (by decide) (by decide) (by decide) (hprojection.reads hr.plain.projection.regular)
  · have hcursor := ht.cursor
    have htext' : t.cursor = some text := htext
    rw [htext'] at hcursor
    exact .json (by decide) (by decide) (by decide) (hcursor.reads hr.plain.cursor)
  · have hfield : given (r.cursorField.getD "") (r.cursorField.getD "" ≠ "") = some text := htext
    rw [given_eq_some hfield]
    exact .plain (by decide) (by decide) (by decide) hr.cursorField

/-! ## what the parts tell -/

theorem given_inj {x y : String} (h : given x (x ≠ "") = given y (y ≠ "")) : x = y := by
  by_cases hx : x = ""
  · by_cases hy : y = ""
    · rw [hx, hy]
    · simp [given, hx, hy] at h
  · by_cases hy : y = ""
    · simp [given, hx, hy] at h
    · simpa [given, hx, hy] using h

theorem joined_inj {xs ys : List String} (hx : ∀ x ∈ xs, ',' ∉ x.toList) (hy : ∀ y ∈ ys, ',' ∉ y.toList)
    (h : given (String.intercalate "," xs) (xs ≠ []) = given (String.intercalate "," ys) (ys ≠ [])) :
    xs = ys := by
  have hsplit : ∀ {zs : List String}, (∀ z ∈ zs, ',' ∉ z.toList) → zs ≠ [] →
      (String.intercalate "," zs).toList.splitOn ',' = zs.map String.toList := by
    intro zs hz hne
    have hchars : ∀ l ∈ zs.map String.toList, ',' ∉ l := by
      intro l hl
      obtain ⟨z, hmem, rfl⟩ := List.mem_map.mp hl
      exact hz z hmem
    rw [String.toList_intercalate]
    exact List.splitOn_intercalate ',' hchars (by simpa using hne)
  by_cases hxs : xs = []
  · by_cases hys : ys = []
    · rw [hxs, hys]
    · simp [given, hxs, hys] at h
  · by_cases hys : ys = []
    · simp [given, hxs, hys] at h
    · have htext : String.intercalate "," xs = String.intercalate "," ys := by
        simpa [given, hxs, hys] using h
      have hlists := hsplit hx hxs
      rw [htext, hsplit hy hys] at hlists
      exact (List.map_injective_iff.mpr fun _ _ => String.toList_inj.mp) hlists.symm

theorem mode_inj {m n : SearchMode} (h : given m.name (m ≠ .contains) = given n.name (n ≠ .contains)) :
    m = n := by
  cases m <;> cases n <;> first | rfl | (revert h; decide)

theorem ends_nil : Json.Ends [] := fun _ h => by cases h

theorem kept_eq {v w : Value} {text : String} (hv : Json.Reads text.toList v)
    (hw : Json.Reads text.toList w) : v = w := (hv.unique hw ends_nil ends_nil rfl).1

theorem number_same {m n : Option Int} {default : Value} (hdefault : ∃ d, default = .int d)
    (hm : ∀ k, m = some k → 1 ≤ k) (hn : ∀ k, n = some k → 1 ≤ k) {text : String}
    (h : numberOr m default = .ok text) (h' : numberOr n default = .ok text) :
    ∃ d, default = .int d ∧ m.getD d = n.getD d := by
  obtain ⟨d, hd, htext⟩ := numberOr_eq hdefault hm h
  obtain ⟨d', hd', htext'⟩ := numberOr_eq hdefault hn h'
  cases hd.symm.trans hd'
  have hread := integer_reads (m.getD d)
  rw [← htext, htext'] at hread
  exact ⟨d, hd, Value.int.inj (kept_eq hread (integer_reads (n.getD d)))⟩

theorem FilterText.same {xs ys : List (String × Value)} {text : Option String}
    (hx : (Value.record xs).Plain) (hy : (Value.record ys).Plain) (h : FilterText xs text)
    (h' : FilterText ys text) : (Value.record xs).kept = (Value.record ys).kept := by
  cases text with
  | none =>
    have hempty : xs = [] := h
    have hempty' : ys = [] := h'
    rw [hempty, hempty']
  | some text => exact kept_eq (h.reads hx) (h'.reads hy)

theorem Rendered.same {v w : Value} {text : Option String} (hv : v.Regular) (hw : w.Regular)
    (h : Rendered v text) (h' : Rendered w text) : v.kept = w.kept := by
  cases text with
  | none =>
    have hnull : ∀ {x : Value}, x.isNull = true → x = .null := by
      intro x hx
      cases x <;> first | rfl | cases hx
    rw [hnull h, hnull h']
  | some text => exact kept_eq (h.reads hv) (h'.reads hw)

theorem display_str (s : String) : (Value.str s).display.toList = s.toList := String.toList_ofList

theorem model_display (r : Request) :
    ((Value.ofText? r.model).orElse (.str "unknown")).display.toList
      = (if r.model.getD "" = "" then "unknown" else r.model.getD "").toList := by
  rcases r.model with _ | m
  · rfl
  · by_cases hm : m = ""
    · subst hm
      rfl
    · have htruthy : (Value.str m).truthy = true := by
        rw [Value.truthy, decide_eq_true_eq]
        exact hm
      rw [Value.ofText?, Value.orElse, if_pos htruthy, display_str]
      exact congrArg _ (if_neg hm).symm

theorem noColon_model (hr : r.Keyable) :
    ':' ∉ ((Value.ofText? r.model).orElse (.str "unknown")).display.toList := by
  rw [model_display]
  split
  · decide
  · exact hr.model

theorem sortField_str (hconfig : config.Typed) (r : Request) :
    ∃ x, Plan.sortField config r = .str x := by
  obtain ⟨s, hs⟩ := hconfig.sortField
  unfold Plan.sortField Value.orElse
  rw [hs]
  split
  · cases hsort : r.sortBy with
    | none =>
      rename_i htruthy
      rw [hsort] at htruthy
      cases htruthy
    | some x => exact ⟨x, rfl⟩
  · exact ⟨s, rfl⟩

theorem direction_name (hconfig : config.Typed) (r : Request) :
    ∃ o : SortOrder, Plan.direction config r = .str o.name := by
  obtain ⟨o, ho⟩ := hconfig.sortOrder
  unfold Plan.direction
  rw [ho]
  rcases r.sortOrder with _ | _ | _
  · exact ⟨o, rfl⟩
  · exact ⟨.asc, rfl⟩
  · exact ⟨.desc, rfl⟩

/-! ## requests with the same key -/

theorem same_of_inner (hconfig : config.Typed) (hq : q.Keyable) (hr : r.Keyable) (ht : t.Of config q)
    (hu : u.Of config r) (h : inner q t = inner r u) :
    Plan.pageOf config q = Plan.pageOf config r ∧
      wholeOr (.ofInt? q.limit) config.defaultLimit = wholeOr (.ofInt? r.limit) config.defaultLimit ∧
      (∀ row, q.accepts row = r.accepts row) ∧ q.projection.kept = r.projection.kept := by
  obtain ⟨hpage, hrest⟩ := List.cons.inj h
  obtain ⟨hlimit, hoptionals⟩ := List.cons.inj hrest
  have htexts : ∀ name ∈ optionalNames, textOf q t name = textOf r u name := by
    intro name hname
    apply Option.ext
    intro text
    have hmem : (name, text) ∈ optionals q t ↔ (name, text) ∈ optionals r u := by rw [hoptionals]
    rw [mem_optionals, mem_optionals] at hmem
    exact ⟨fun hx => (hmem.mp ⟨hname, hx⟩).2, fun hx => (hmem.mpr ⟨hname, hx⟩).2⟩
  refine ⟨?_, ?_, ?_, ?_⟩
  · have htext : t.page = u.page := (Prod.mk.inj hpage).2
    obtain ⟨d, hd, hnumber⟩ := number_same hconfig.page hq.page hr.page ht.page (htext ▸ hu.page)
    have hpageOf : ∀ n : Option Int, Plan.unlessNull (.ofInt? n) (.int d) = .int (n.getD d) := by
      intro n
      cases n <;> rfl
    rw [Plan.pageOf, Plan.pageOf, hd, hpageOf, hpageOf, hnumber]
  · have htext : t.limit = u.limit := (Prod.mk.inj hlimit).2
    obtain ⟨d, hd, hnumber⟩ :=
      number_same hconfig.limit hq.limit hr.limit ht.limit (htext ▸ hu.limit)
    rw [hd, wholeOr_ofInt?, wholeOr_ofInt?, hnumber]
  · obtain ⟨a⟩ := hq.plain.spelling
    obtain ⟨b⟩ := hr.plain.spelling
    have hsearch := given_inj (htexts "search" (by decide))
    have hfields := joined_inj (fun f hf => (hq.searchFields f hf).2)
      (fun f hf => (hr.searchFields f hf).2) (htexts "fields" (by decide))
    have hmode := mode_inj (htexts "mode" (by decide))
    have hfilters : t.filters = u.filters := htexts "filters" (by decide)
    have hkept := FilterText.same a.part_plain b.part_plain (filterText a ht)
      (hfilters ▸ filterText b hu)
    have hsame := a.same_of_part b hkept hq.filters hr.filters
    exact a.accepts_eq b hsame hsearch hfields hmode
  · have hprojection : t.projection = u.projection := htexts "projection" (by decide)
    exact Rendered.same hq.plain.projection.regular hr.plain.projection.regular ht.projection
      (hprojection ▸ hu.projection)

theorem model_same (hmodel : q.model = r.model ∨ (q.model.getD "" ≠ "" ∧ r.model.getD "" ≠ ""))
    (h : ((Value.ofText? q.model).orElse (.str "unknown")).display.toList
      = ((Value.ofText? r.model).orElse (.str "unknown")).display.toList) : q.model = r.model := by
  rcases hmodel with hmodel | ⟨hqnamed, hrnamed⟩
  · exact hmodel
  · rw [model_display, model_display, if_neg hqnamed, if_neg hrnamed] at h
    have hname := String.toList_inj.mp h
    cases hm : q.model with
    | none => exact absurd (by rw [hm]; rfl) hqnamed
    | some m =>
      cases hn : r.model with
      | none => exact absurd (by rw [hn]; rfl) hrnamed
      | some n =>
        rw [hm, hn] at hname
        exact congrArg some hname

theorem order_same (hconfig : config.Typed)
    (h : (Plan.sortField config q).display.toList ++ ':' :: (Plan.direction config q).display.toList
      = (Plan.sortField config r).display.toList ++ ':' :: (Plan.direction config r).display.toList) :
    Plan.pageOrder config q = Plan.pageOrder config r := by
  obtain ⟨x, hx⟩ := sortField_str hconfig q
  obtain ⟨y, hy⟩ := sortField_str hconfig r
  obtain ⟨o, ho⟩ := direction_name hconfig q
  obtain ⟨p, hp⟩ := direction_name hconfig r
  rw [hx, hy, ho, hp, display_str, display_str, display_str, display_str] at h
  obtain ⟨hfield, hdirection⟩ := peel_last (noColon_direction o) (noColon_direction p) h
  unfold Plan.pageOrder
  rw [hx, hy, ho, hp, String.toList_inj.mp hfield, String.toList_inj.mp hdirection]

/-- requests for a model each, or for the same, are for the same page if they have the same key -/
theorem samePage (hconfig : config.Typed) (hq : q.Keyable) (hr : r.Keyable)
    (hmodel : q.model = r.model ∨ (q.model.getD "" ≠ "" ∧ r.model.getD "" ≠ "")) {key : String}
    (hkey : ofRequest config q = .ok key) (hkey' : ofRequest config r = .ok key) :
    q.SamePage config r := by
  obtain ⟨t, ht, hqtext⟩ := ofRequest_eq hkey
  obtain ⟨u, hu, hrtext⟩ := ofRequest_eq hkey'
  rw [hqtext] at hrtext
  -- the key is read from its start: the model, the optional parts one by one, then the order
  obtain ⟨hmodels, hrest⟩ := peel (noColon_model hq) (noColon_model hr) hrtext
  have hclosed : ∀ {x : Request} {v : Texts}, x.Keyable → v.Of config x →
      ∀ p ∈ (inner x v).map fun p => (p.1, p.2.toList), Closed p := by
    intro x v hx hv p hp
    obtain ⟨e, he, rfl⟩ := List.mem_map.mp hp
    exact inner_closed hconfig hx hv e he
  obtain ⟨hinner, hlast⟩ := parts_unique (hclosed hq ht) (hclosed hr hu) hrest
  have hparts : inner q t = inner r u := by
    apply List.map_injective_iff.mpr _ hinner
    intro x y hxy
    obtain ⟨hname, htext⟩ := Prod.mk.inj hxy
    exact Prod.ext hname (String.toList_inj.mp htext)
  obtain ⟨hpage, hlimit, hrows, hprojection⟩ := same_of_inner hconfig hq hr ht hu hparts
  exact {
    model := model_same hmodel hmodels
    rows := hrows
    page := hpage
    limit := hlimit
    order := order_same hconfig hlast
    fields := Store.project_alike hq.plain.projection hr.plain.projection hprojection }

/-- Requests with the same key are answered alike from any collections, where none of their
comparisons is a fault: with the same rows and counts, or with the same failure. -/
theorem identifies {S : Type} (store : S → Store) (hconfig : config.Typed) (hq : q.Keyable)
    (hr : r.Keyable)
    (hmodel : q.model = r.model ∨ (q.model.getD "" ≠ "" ∧ r.model.getD "" ≠ "")) {key : String}
    (hkey : ofRequest config q = .ok key) (hkey' : ofRequest config r = .ok key) (w : Logged S)
    (hdecided : (store w.state).DecidedBy q r) (maxLimit : Value) :
    Outcome.Alike PagedResponse.Same
      (((Builder.base config (.ofStore store)).query q maxLimit).runOn w).1
      (((Builder.base config (.ofStore store)).query r maxLimit).runOn w).1 := by
  rw [(Builder.base_query store config q maxLimit w).1, (Builder.base_query store config r maxLimit w).1]
  exact Store.answerPage_alike hq.plain.resolved hr.plain.resolved
    (samePage hconfig hq hr hmodel hkey hkey') hdecided maxLimit

/-- adults of a town, asked for in either order of the filters -/
theorem identifies_reordered :
    let q : Request :=
      { model := some "m", page := some 1
        projection := .record [("select", .record [("name", .bool true), ("age", .bool true)])]
        filters := [("town", .exact (.str "A")), ("age", .range (.int 18) .null)] }
    let r : Request :=
      { model := some "m"
        projection := .record [("select", .record [("age", .bool true), ("name", .bool true)])]
        filters := [("age", .range (.int 18) .null), ("town", .exact (.str "A"))] }
    let rows : List Value := [.record [("name", .str "x"), ("town", .str "A"), ("age", .int 20)],
      .record [("name", .str "y"), ("town", .str "B"), ("age", .int 30)]]
    let w : Logged Store := ⟨⟨[(.str "m", rows)]⟩, []⟩
    (∃ key, ofRequest {} q = .ok key ∧ ofRequest {} r = .ok key) ∧
      Outcome.Alike PagedResponse.Same
        (((Builder.base {} (.ofStore id)).query q .null).runOn w).1
        (((Builder.base {} (.ofStore id)).query r .null).runOn w).1 ∧
      (((Builder.base {} (.ofStore id)).query r .null).runOn w).1
        = .ok { data := [.record [("age", .int 20), ("name", .str "x")]], counts := ⟨1, 1, 10, 1⟩ } := by
  intro q r rows w
  have hconfig : Config.Typed {} := ⟨⟨1, rfl⟩, ⟨10, rfl⟩, ⟨"createdAt", rfl⟩, ⟨.desc, rfl⟩⟩
  have hnone : (Value.record []).Plain := ⟨List.nodup_nil, trivial⟩
  have hq : q.Keyable := {
    plain := {
      filters := ⟨.record [("town", .str "A"), ("age", .record [("from", .int 18)])],
        ⟨by decide, trivial, ⟨by decide, trivial, trivial⟩, trivial⟩, rfl⟩
      relations := ⟨.record [], hnone, rfl⟩
      groups := ⟨.record [], hnone, rfl⟩
      excluded := ⟨.record [], hnone, rfl⟩
      projection := ⟨by decide, ⟨by decide, trivial, trivial, trivial⟩, trivial⟩
      cursor := trivial }
    page := fun n h => by cases h; decide
    limit := fun n h => by cases h
    model := by decide
    search := by decide
    searchFields := fun name h => absurd h List.not_mem_nil
    cursorField := by decide
    filters := by decide }
  have hr : r.Keyable := {
    plain := {
      filters := ⟨.record [("age", .record [("from", .int 18)]), ("town", .str "A")],
        ⟨by decide, ⟨by decide, trivial, trivial⟩, trivial, trivial⟩, rfl⟩
      relations := ⟨.record [], hnone, rfl⟩
      groups := ⟨.record [], hnone, rfl⟩
      excluded := ⟨.record [], hnone, rfl⟩
      projection := ⟨by decide, ⟨by decide, trivial, trivial, trivial⟩, trivial⟩
      cursor := trivial }
    page := fun n h => by cases h
    limit := fun n h => by cases h
    model := by decide
    search := by decide
    searchFields := fun name h => absurd h List.not_mem_nil
    cursorField := by decide
    filters := by decide }
  have hdecided : (id w.state : Store).DecidedBy q r := by
    intro found hfound
    cases hfound
    rw [List.forall_mem_cons, List.forall_mem_cons]
    refine ⟨⟨?_, ?_⟩, ⟨?_, ?_⟩, fun _ h => absurd h List.not_mem_nil⟩
    · intro p hp
      cases hp
      exact ⟨_, rfl⟩
    · intro p hp
      cases hp
      exact ⟨_, rfl⟩
    · intro p hp
      cases hp
      exact ⟨_, rfl⟩
    · intro p hp
      cases hp
      exact ⟨_, rfl⟩
  obtain ⟨key, hkey⟩ : ∃ key, ofRequest {} q = .ok key := ⟨_, rfl⟩
  have hkey' : ofRequest {} r = .ok key := hkey
  exact ⟨⟨key, hkey, hkey'⟩, identifies id hconfig hq hr (.inl rfl) hkey hkey' w hdecided .null, rfl⟩

/-! ## keys that do not tell requests apart -/

/-- the rows that a query shows, if it has an answer -/
def rowsShown (config : Config) (r : Request) (s : Store) : Option (List String) :=
  match (((Builder.base config (.ofStore id)).query r .null).runOn (⟨s, []⟩ : Logged Store)).1 with
  | .ok response => some (response.data.map Value.display)
  | .error _ => none

structure Collide (config : Config) (q r : Request) (s : Store) : Prop where
  key : ∃ key, ofRequest config q = .ok key ∧ ofRequest config r = .ok key
  rows : rowsShown config q s ≠ rowsShown config r s

/-- what is asked of keyable requests, of the settings and of the rows cannot be left out -/
theorem collisions :
    -- the order of the filters decides between an answer and a failure
    Collide {} { model := some "m", filters := [("a", .exact (.int 5)), ("b", .range (.int 1) .null)] }
      { model := some "m", filters := [("b", .range (.int 1) .null), ("a", .exact (.int 5))] }
      ⟨[(.str "m", [.record [("a", .int 6), ("b", .str "x")]])]⟩ ∧
    -- what JSON does not know is written as its text
    Collide {} { model := some "m", filters := [("d", .exact (.date ⟨2024, 1, 2⟩))] }
      { model := some "m", filters := [("d", .exact (.str "2024-01-02"))] }
      ⟨[(.str "m", [.record [("d", .str "2024-01-02")]])]⟩ ∧
    -- a request for no model is written as one for the model `unknown`
    Collide {} {} { model := some "unknown" } ⟨[(.str "unknown", [])]⟩ ∧
    -- a setting is written as its text
    Collide { defaultSortField := .int 5 } { model := some "m" } { model := some "m", sortBy := some "5" }
      ⟨[(.str "m", [.record []])]⟩ ∧
    -- a colon in a text is not marked
    Collide {} { model := some "m", search := some "a:fields:b" }
      { model := some "m", search := some "a", searchFields := ["b"] }
      ⟨[(.str "m", [.record [("b", .str "q")]])]⟩ ∧
    Collide {} { model := some "m", search := some "a", searchFields := ["b:mode:exact"] }
      { model := some "m", search := some "a", searchFields := ["b"], searchMode := .exact }
      ⟨[(.str "m", [.record [("b", .str "a")]])]⟩ ∧
    Collide {} { model := some "m", cursorField := some "a:sort:b", sortBy := some "c" }
      { model := some "m", cursorField := some "a", sortBy := some "b:sort:c" }
      ⟨[(.str "m", [.record [("c", .int 1)], .record [("c", .int 2)]])]⟩ ∧
    Collide {} { model := some "m:page:1:limit:10:sort:a", sortBy := some "b" }
      { model := some "m", sortBy := some "a:page:1:limit:10:sort:b" } ⟨[(.str "m", [])]⟩ ∧
    -- neither is a comma
    Collide {} { model := some "m", search := some "a", searchFields := ["b,c"] }
      { model := some "m", search := some "a", searchFields := ["b", "c"] }
      ⟨[(.str "m", [.record [("b", .str "a")]])]⟩ ∧
    -- nor whether a name is that of a filter or that of a section
    Collide {} { model := some "m", filters := [("or_filters", .oneOf [.record [("a", .int 1)]])] }
      { model := some "m", orFilters := [[("a", .exact (.int 1))]] }
      ⟨[(.str "m", [.record [("a", .int 1)]])]⟩ := by
  refine ⟨⟨⟨_, rfl, rfl⟩, ?_⟩, ⟨⟨_, rfl, rfl⟩, ?_⟩, ⟨⟨_, rfl, rfl⟩, ?_⟩, ⟨⟨_, rfl, rfl⟩, ?_⟩,
    ⟨⟨_, rfl, rfl⟩, ?_⟩, ⟨⟨_, rfl, rfl⟩, ?_⟩, ⟨⟨_, rfl, rfl⟩, ?_⟩, ⟨⟨_, rfl, rfl⟩, ?_⟩,
    ⟨⟨_, rfl, rfl⟩, ?_⟩, ⟨⟨_, rfl, rfl⟩, ?_⟩⟩
  all_goals
    intro h
    cases h

end CacheKey

end ListQuery
