import ListQuery.Proofs.Cache.Identity
import ListQuery.Proofs.Pages

/-!
# Keys and windows

A key shows the page and the limit of a request, and the settings in their place where they are absent
or zero.  A plan takes the settings only where they are absent, and zero as one.  So requests with the
same key have the same window unless a zero stands for one in one of them and for a greater setting in
the other.

* `shownNumber`                   a page or a limit as a key shows it;
* `numbers_of_key`                the same key shows the same page and limit;
* `pageNumber_iff`, `pageSize_iff`   when numbers that are shown alike count alike;
* `sameWindow_iff`                when requests with the same key have the same window;
* `zero_hidden`                   requests with the same key and different windows.
-/

namespace ListQuery

namespace CacheKey

/-! ## numbers in a key -/

/-- a page or a limit as a key shows it, the setting in place of none and of zero -/
def shownNumber (n : Option Int) (default : Int) : Int :=
  if n.getD 0 = 0 then default else n.getD 0

theorem numberOr_int {n : Option Int} {default : Int} {text : String}
    (h : numberOr n (.int default) = .ok text) :
    text = (Value.int (shownNumber n default)).display := by
  rw [← numberOr_display h]
  unfold shownNumber Value.orElse
  cases n with
  | none => rfl
  | some m =>
    by_cases hm : m = 0
    · subst hm
      rfl
    · have htruthy : (Value.int m).truthy = true := by
        rw [Value.truthy, decide_eq_true_eq]
        exact hm
      rw [Value.ofInt?, if_pos htruthy, Option.getD_some, if_neg hm]

theorem shownNumber_inj {m n : Option Int} {default : Int} {text : String}
    (hm : numberOr m (.int default) = .ok text) (hn : numberOr n (.int default) = .ok text) :
    shownNumber m default = shownNumber n default := by
  have hread := integer_reads (shownNumber m default)
  rw [← numberOr_int hm, numberOr_int hn] at hread
  exact Value.int.inj (kept_eq hread (integer_reads (shownNumber n default)))

theorem closed_number {name : String} (hname : name = "page" ∨ name = "limit") {n : Option Int}
    {default : Int} {text : String} (h : numberOr n (.int default) = .ok text) :
    Closed (name, text.toList) := by
  rw [numberOr_int h]
  rcases hname with rfl | rfl
  · exact .json (by decide) (by decide) (by decide) (integer_reads _)
  · exact .json (by decide) (by decide) (by decide) (integer_reads _)

variable {config : Config} {q r : Request} {firstPage default : Int}

/-- requests for one model with the same key have the page and the limit in it alike -/
theorem numbers_of_key (hpage : config.defaultPage = .int firstPage)
    (hlimit : config.defaultLimit = .int default) (hmodel : q.model = r.model) {key : String}
    (hq : ofRequest config q = .ok key) (hr : ofRequest config r = .ok key) :
    shownNumber q.page firstPage = shownNumber r.page firstPage ∧
      shownNumber q.limit default = shownNumber r.limit default := by
  obtain ⟨t, ht, hqtext⟩ := ofRequest_eq hq
  obtain ⟨u, hu, hrtext⟩ := ofRequest_eq hr
  rw [hqtext, hmodel] at hrtext
  have hinner := (List.cons.inj (List.append_cancel_left hrtext)).2
  simp only [inner, List.map_cons, before] at hinner
  have hqpage := hpage ▸ ht.page
  have hrpage := hpage ▸ hu.page
  have hqlimit := hlimit ▸ ht.limit
  have hrlimit := hlimit ▸ hu.limit
  have hfromPage := (List.cons.inj (List.append_cancel_left hinner)).2
  obtain ⟨hpages, hrest⟩ :=
    (closed_number (.inl rfl) hqpage).unique (closed_number (.inl rfl) hrpage) hfromPage
  have hfromLimit := (List.cons.inj (List.append_cancel_left hrest)).2
  obtain ⟨hlimits, _⟩ :=
    (closed_number (.inr rfl) hqlimit).unique (closed_number (.inr rfl) hrlimit) hfromLimit
  exact ⟨shownNumber_inj hqpage (String.toList_inj.mp hpages ▸ hrpage),
    shownNumber_inj hqlimit (String.toList_inj.mp hlimits ▸ hrlimit)⟩

/-! ## numbers in a window -/

theorem getD_eq (n : Option Int) (default : Int) :
    n.getD default = if n = some 0 then 0 else shownNumber n default := by
  unfold shownNumber
  cases n with
  | none => rfl
  | some m => by_cases hm : m = 0 <;> simp [hm]

/-- numbers that are shown alike count alike if both or neither are zero, or if the setting counts as
zero does -/
theorem counted_iff {α : Type} (count : Int → α) {m n : Option Int} {default : Int}
    (h : shownNumber m default = shownNumber n default) :
    count (m.getD default) = count (n.getD default) ↔
      ((m = some 0 ↔ n = some 0) ∨ count 0 = count default) := by
  have hzero : shownNumber (some 0) default = default := rfl
  rw [getD_eq m, getD_eq n]
  by_cases hm : m = some 0
  · by_cases hn : n = some 0
    · simp [hm, hn]
    · rw [if_pos hm, if_neg hn, ← h, hm, hzero]
      simp [hn]
  · by_cases hn : n = some 0
    · rw [if_neg hm, if_pos hn, h, hn, hzero]
      simp [hm, eq_comm]
    · rw [if_neg hm, if_neg hn, h]
      simp [hm, hn]

theorem pageNumber_iff {page other : Option Int} (hpos : 1 ≤ firstPage)
    (h : shownNumber page firstPage = shownNumber other firstPage) :
    pageNumber page firstPage = pageNumber other firstPage ↔
      ((page = some 0 ↔ other = some 0) ∨ firstPage = 1) := by
  have hsetting : max 1 (0 : Int) = max 1 firstPage ↔ firstPage = 1 := by omega
  rw [← hsetting]
  exact counted_iff (max 1) h

theorem pageSize_iff {limit other : Option Int} {most : Int} (hpos : 1 ≤ default) (hmost : 1 ≤ most)
    (h : shownNumber limit default = shownNumber other default) :
    pageSize limit default most = pageSize other default most ↔
      ((limit = some 0 ↔ other = some 0) ∨ default = 1 ∨ most = 1) := by
  have hsetting : min most (max 1 0) = min most (max 1 default) ↔ default = 1 ∨ most = 1 := by omega
  rw [← hsetting]
  exact counted_iff (fun n => min most (max 1 n)) h

/-! ## windows of requests with the same key -/

def SameWindow (p q : Plan) : Prop := p.window.take = q.window.take ∧ p.window.skip = q.window.skip

theorem offset_same_iff {page other size size' : Int} (hpos : 1 ≤ size) :
    (Value.int size = Value.int size' ∧
        Value.int ((page - 1) * size) = Value.int ((other - 1) * size')) ↔
      (size = size' ∧ page = other) := by
  simp only [Value.int.injEq]
  constructor
  · rintro ⟨rfl, hskip⟩
    have hpages := Int.eq_of_mul_eq_mul_right (by omega) hskip
    exact ⟨rfl, by omega⟩
  · rintro ⟨rfl, rfl⟩
    exact ⟨rfl, rfl⟩

theorem atCursor_int (cursor field : Value) (size : Int) :
    Window.atCursor cursor (.int size) field
      = (Window.atCursor cursor (.int 0) field).map fun w => { w with take := .int (size + 1) } := by
  have hadd (n : Int) : (Value.int n).add (.int 1) = .ok (.int (n + 1)) := rfl
  unfold Window.atCursor
  rw [hadd, hadd, Outcome.ok_bind, Outcome.ok_bind]
  split
  · rfl
  split
  · rfl
  · rfl

theorem ofCursor_int {most : Int} {maxLimit : Value} (hlimit : config.defaultLimit = .int default)
    (hmost : Plan.unlessNull maxLimit config.maxLimit = .int most) (r : Request) :
    Plan.ofCursor config r maxLimit = (r.predicate >>= fun predicate =>
      Window.atCursor r.cursor (.int 0) (Plan.cursorField config r) >>= fun window => .ok
        { model := .ofText? r.model, predicate, orderBy := Plan.cursorOrder config r
          window := { window with take := .int (pageSize r.limit default most + 1) }
          projection := r.projection }) := by
  unfold Plan.ofCursor
  rw [hlimit, hmost, normalizeLimit_ofInt?]
  show (r.predicate >>= fun predicate => Window.atCursor r.cursor
    (.int (pageSize r.limit default most)) (Plan.cursorField config r) >>= _) = _
  rw [atCursor_int]
  cases Window.atCursor r.cursor (.int 0) (Plan.cursorField config r) <;> rfl

/-- Requests that differ in their page and limit only and have the same key have the same window
exactly if a zero stands in both or neither, or in place of a setting that is one. -/
theorem sameWindow_iff {most : Int} (config : Config) (maxLimit : Value)
    (hpage : config.defaultPage = .int firstPage) (hfirst : 1 ≤ firstPage)
    (hlimit : config.defaultLimit = .int default) (hdefault : 1 ≤ default)
    (hmost : Plan.unlessNull maxLimit config.maxLimit = .int most) (hpos : 1 ≤ most) (r : Request)
    (page other limit otherLimit : Option Int) {key : String}
    (hkey : ofRequest config { r with page := page, limit := limit } = .ok key)
    (hother : ofRequest config { r with page := other, limit := otherLimit } = .ok key) :
    let SameLimit := (limit = some 0 ↔ otherLimit = some 0) ∨ default = 1 ∨ most = 1
    let SamePage := (page = some 0 ↔ other = some 0) ∨ firstPage = 1
    (∀ p, Plan.ofPage config { r with page := page, limit := limit } maxLimit = .ok p →
      ∃ q, Plan.ofPage config { r with page := other, limit := otherLimit } maxLimit = .ok q ∧
        (SameWindow p q ↔ SameLimit ∧ SamePage)) ∧
    (∀ p, Plan.ofCursor config { r with page := page, limit := limit } maxLimit = .ok p →
      ∃ q, Plan.ofCursor config { r with page := other, limit := otherLimit } maxLimit = .ok q ∧
        (SameWindow p q ↔ SameLimit)) ∧
    (r.Resolved →
      ∃ p, Plan.ofPage config { r with page := page, limit := limit } maxLimit = .ok p) := by
  intro SameLimit SamePage
  have hmodel : ({ r with page := page, limit := limit } : Request).model
      = ({ r with page := other, limit := otherLimit } : Request).model := rfl
  obtain ⟨hpages, hlimits⟩ := numbers_of_key hpage hlimit hmodel hkey hother
  have hpageIff := pageNumber_iff hfirst hpages
  have hlimitIff := pageSize_iff hdefault hpos hlimits
  have hsize := pageSize_pos limit default hpos
  have hsized (n : Option Int) : normalizeLimit (.ofInt? n) config.defaultLimit
      (Plan.unlessNull maxLimit config.maxLimit) = .ok (.int (pageSize n default most)) := by
    rw [hlimit, hmost]
    exact normalizeLimit_ofInt? n default most
  refine ⟨?_, ?_, ?_⟩
  · intro p hp
    rw [Plan.ofPage_window hpage (hsized limit)] at hp
    rw [Plan.ofPage_window hpage (hsized otherLimit)]
    obtain ⟨tree, htree, hp⟩ := Outcome.bind_eq_ok.mp hp
    cases hp
    refine ⟨_, Outcome.bind_eq_ok.mpr ⟨tree, htree, rfl⟩, ?_⟩
    exact (offset_same_iff hsize).trans (and_congr hlimitIff hpageIff)
  · intro p hp
    rw [ofCursor_int hlimit hmost] at hp ⊢
    obtain ⟨tree, htree, hp⟩ := Outcome.bind_eq_ok.mp hp
    obtain ⟨window, hwindow, hp⟩ := Outcome.bind_eq_ok.mp hp
    cases hp
    refine ⟨_, Outcome.bind_eq_ok.mpr ⟨tree, htree, Outcome.bind_eq_ok.mpr ⟨window, hwindow, rfl⟩⟩, ?_⟩
    refine Iff.trans ?_ hlimitIff
    unfold SameWindow
    simp only [Value.int.injEq, and_true]
    exact add_left_inj 1
  · intro hresolved
    rw [Plan.ofPage_window hpage (hsized limit)]
    have htree : ({ r with page := page, limit := limit } : Request).predicate = .ok r.tree :=
      Request.predicate_eq_tree ⟨hresolved.1, hresolved.2, hresolved.3, hresolved.4⟩
    exact ⟨_, Outcome.bind_eq_ok.mpr ⟨r.tree, htree, rfl⟩⟩

theorem unfiltered_plain (model : String) (page limit : Option Int) :
    ({ model := some model, page := page, limit := limit } : Request).Plain :=
  ⟨⟨.null, trivial, rfl⟩, ⟨.null, trivial, rfl⟩, ⟨.null, trivial, rfl⟩, ⟨.null, trivial, rfl⟩, trivial,
    trivial⟩

/-- a request for no rows at a time, which counts as one, and a request that says nothing of it -/
theorem sameWindow_iff_zero :
    let q : Request := { model := some "m", limit := some 0 }
    let r : Request := { model := some "m" }
    ∃ key, ofRequest {} q = .ok key ∧ ofRequest {} r = .ok key ∧
      ∃ p p', Plan.ofPage {} q .null = .ok p ∧ Plan.ofPage {} r .null = .ok p' ∧ ¬SameWindow p p' := by
  intro q r
  obtain ⟨key, hr⟩ : ∃ key, ofRequest {} r = .ok key := ⟨_, rfl⟩
  have hq : ofRequest {} q = .ok key := hr
  obtain ⟨hplans, _, hplanned⟩ := sameWindow_iff {} .null rfl (by decide) rfl (by decide)
    rfl (by decide) r none none (some 0) none hq hr
  obtain ⟨p, hp⟩ := hplanned (unfiltered_plain "m" none none).resolved
  obtain ⟨p', hp', hiff⟩ := hplans p hp
  refine ⟨key, hq, hr, p, p', hp, hp', fun hsame => ?_⟩
  exact absurd (hiff.mp hsame).1 (by decide)

/-- a zero hides in a key: in place of a limit, and in place of a page where pages are counted from
another one than the first -/
theorem zero_hidden :
    let q : Request := { model := some "m", limit := some 0 }
    let r : Request := { model := some "m" }
    (∃ key, ofRequest {} q = .ok key ∧ ofRequest {} r = .ok key ∧
      (Plan.ofPage {} q .null).map (·.window.take.display) = .ok "1" ∧
      (Plan.ofPage {} r .null).map (·.window.take.display) = .ok "10") ∧
    let config : Config := { defaultPage := .int 2 }
    let q : Request := { model := some "m", page := some 0 }
    ∃ key, ofRequest config q = .ok key ∧ ofRequest config r = .ok key ∧
      (Plan.ofPage config q .null).map (·.window.skip.display) = .ok "0" ∧
      (Plan.ofPage config r .null).map (·.window.skip.display) = .ok "10" := by
  intro q r
  refine ⟨?_, ?_⟩
  · obtain ⟨key, hr⟩ : ∃ key, ofRequest {} r = .ok key := ⟨_, rfl⟩
    exact ⟨key, hr, hr, rfl, rfl⟩
  · intro config q
    obtain ⟨key, hr⟩ : ∃ key, ofRequest config r = .ok key := ⟨_, rfl⟩
    exact ⟨key, hr, hr, rfl, rfl⟩

end CacheKey

end ListQuery
