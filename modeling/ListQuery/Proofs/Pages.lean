import Mathlib.Algebra.Order.Floor.Div
import Mathlib.Data.List.Forall2
import ListQuery.Proofs.Answers
import ListQuery.Proofs.Collection.Order
import ListQuery.Proofs.Collection.Window
import ListQuery.Proofs.Number.Nearest
import ListQuery.Proofs.Predicate.Normal

/-!
# Numbered pages

The pages of a request cut its ordered rows into runs of one length, the last of which may be
shorter.  No row is lost or shown twice, and every page tells how many rows and pages there are.

* `pageOf`, `flatMap_pageOf`    a page of a list, and the pages joined again;
* `totalPages_nat`              how many pages hold so many rows;
* `Store.Numbered`              the rows of a request in order, and the size of its pages;
* `Numbered.answerPage_eq`, `answerPage_told`, `answerPages_shown`
                                the answer to a query for a page, and those for all;
* `Builder.pages_partition`     the answers for all pages.
-/

namespace ListQuery

/-! ## pages of a list -/

section
variable {α : Type}

/-- the rows of one page, the first page being the one after none -/
def pageOf (limit earlier : Nat) (rows : List α) : List α := (rows.drop (earlier * limit)).take limit

theorem length_pageOf (limit earlier : Nat) (rows : List α) :
    (pageOf limit earlier rows).length = min limit (rows.length - earlier * limit) := by
  rw [pageOf, List.length_take, List.length_drop]

theorem pageOf_beyond {limit earlier : Nat} {rows : List α} (h : rows.length ≤ earlier * limit) :
    pageOf limit earlier rows = [] := by
  rw [pageOf, List.drop_eq_nil_of_le h, List.take_nil]

theorem pageOf_succ (limit earlier : Nat) (rows : List α) :
    pageOf limit (earlier + 1) rows = pageOf limit earlier (rows.drop limit) := by
  rw [pageOf, pageOf, List.drop_drop, Nat.succ_mul, Nat.add_comm]

theorem flatMap_pageOf {limit pages : Nat} {rows : List α} (h : rows.length ≤ pages * limit) :
    (List.range pages).flatMap (pageOf limit · rows) = rows := by
  induction pages generalizing rows with
  | zero =>
    rw [Nat.zero_mul] at h
    rw [List.length_eq_zero_iff.mp (Nat.le_zero.mp h)]
    rfl
  | succ pages ih =>
    have hrest : (rows.drop limit).length ≤ pages * limit := by
      rw [List.length_drop]
      rw [Nat.succ_mul] at h
      omega
    rw [List.range_succ_eq_map, List.flatMap_cons, List.flatMap_map]
    have hfirst : pageOf limit 0 rows = rows.take limit := by
      rw [pageOf, Nat.zero_mul, List.drop_zero]
    calc pageOf limit 0 rows ++ (List.range pages).flatMap (fun i => pageOf limit (i + 1) rows)
        = rows.take limit ++ (List.range pages).flatMap (pageOf limit · (rows.drop limit)) := by
          simp only [hfirst, pageOf_succ]
      _ = rows := by rw [ih hrest, List.take_append_drop]

end

/-! ## fallible maps -/

theorem Outcome.mapM_eq_ok {α β : Type} {f : α → Outcome β} {xs : List α} {ys : List β} :
    xs.mapM f = .ok ys ↔ List.Forall₂ (fun x y => f x = .ok y) xs ys := by
  induction xs generalizing ys with
  | nil =>
    constructor
    · intro h; cases h; exact .nil
    · intro h; cases h; rfl
  | cons x xs ih =>
    rw [Outcome.mapM_cons_eq_ok]
    constructor
    · rintro ⟨y, rest, hy, hrest, rfl⟩
      exact .cons hy (ih.mp hrest)
    · intro h
      cases h with
      | cons hy hrest => exact ⟨_, _, hy, ih.mpr hrest, rfl⟩

theorem Outcome.mapM_pageOf {α β : Type} {f : α → Outcome β} {xs : List α} {ys : List β}
    (h : xs.mapM f = .ok ys) (limit earlier : Nat) :
    (pageOf limit earlier xs).mapM f = .ok (pageOf limit earlier ys) := by
  rw [Outcome.mapM_eq_ok] at h ⊢
  exact List.forall₂_take _ (List.forall₂_drop _ h)

theorem Outcome.length_of_mapM {α β : Type} {f : α → Outcome β} {xs : List α} {ys : List β}
    (h : xs.mapM f = .ok ys) : ys.length = xs.length :=
  (Outcome.mapM_eq_ok.mp h).length_eq.symm

/-! ## counts -/

theorem Value.div_nat {total limit m : Nat} {e : Int} (hpos : 0 < limit)
    (h : Binary64.ofRatio false total limit = .finite false m e) :
    (Value.int total).div (.int limit) = .ok (.finite false m e) := by
  show Value.quotient total limit = _
  unfold Value.quotient
  have hsigns : ((decide ((total : Int) < 0)) != (decide ((limit : Int) < 0))) = false := by
    rw [decide_eq_false (by omega), decide_eq_false (by omega)]
    rfl
  rw [if_neg (by omega), hsigns, Int.natAbs_natCast, Int.natAbs_natCast, h]

/-- so many rows are on so many pages, rounded up -/
theorem totalPages_nat {total limit : Nat} (htotal : total ≤ 2 ^ 53) (hpos : 1 ≤ limit)
    (hlimit : limit ≤ 2 ^ 53) :
    totalPages (.int total) (.int limit) = .ok (.int (total ⌈/⌉ limit : Nat)) := by
  unfold totalPages
  rw [Value.compares_int, Outcome.ok_bind]
  rcases Nat.eq_zero_or_pos total with hzero | hsome
  · subst hzero
    rw [zero_ceilDiv]
    rfl
  · have hcompare : compare (total : Int) 0 = .gt := Int.compare_eq_gt.mpr (by omega)
    obtain ⟨m, e, hround, -, hceil⟩ := Binary64.ofRatio_quotient htotal hpos hlimit
    rw [hcompare]
    show ((Value.int total).div (.int limit) >>= _) = _
    rw [Value.div_nat hpos hround, Outcome.ok_bind, Binary64.ceil?_value, hceil]
    rfl

def PageMeta.counting (total limit : Nat) (page : Int) : PageMeta :=
  ⟨total, page, limit, (total ⌈/⌉ limit : Nat)⟩

theorem PagedResponse.shape_counting (data : List Value) {total limit : Nat} (page : Int)
    (htotal : total ≤ 2 ^ 53) (hpos : 1 ≤ limit) (hlimit : limit ≤ 2 ^ 53) :
    PagedResponse.shape (.list data) (.int total) (.int page) (.int limit)
      = .ok { data, counts := .counting total limit page } := by
  unfold PagedResponse.shape
  rw [show (Value.list data).items = .ok data from rfl, Outcome.ok_bind,
    totalPages_nat htotal hpos hlimit]
  rfl

/-! ## windows -/

theorem Window.offset_int (page : Int) {limit default most : Value} {size : Int}
    (hsize : normalizeLimit limit default most = .ok (.int size)) :
    Window.offset (.int page) limit default most
      = .ok { take := .int size, skip := .int ((max 1 page - 1) * size) } := by
  unfold Window.offset
  rw [show normalizePage (.int page) Window.defaultPage = .ok (.int (pageNumber (some page) 1)) from
    normalizePage_ofInt? (some page) 1, Outcome.ok_bind, hsize]
  rfl

theorem Store.window_offset (limit earlier : Nat) (rows : List Value) :
    Store.window { take := .int limit, skip := .int (earlier * limit : Nat) } rows
      = .ok (pageOf limit earlier rows) := by
  show Store.between { take := .int limit, skip := .int (earlier * limit : Nat) } rows = _
  unfold Store.between
  dsimp only
  split
  · show Except.ok (Value.takeTo (some (limit : Int))
      (Value.dropTo (some ((earlier * limit : Nat) : Int)) rows)) = _
    rw [Value.dropTo_nat, Value.takeTo_nat]
    rfl
  · rename_i hfalsy
    have hzero : earlier * limit = 0 := by
      have h : ¬ ((earlier * limit : Nat) : Int) ≠ 0 := by
        simpa only [Value.truthy, decide_eq_true_eq] using hfalsy
      omega
    show Except.ok (Value.takeTo (some (limit : Int)) rows) = _
    rw [Value.takeTo_nat, pageOf, hzero, List.drop_zero]

/-! ## plans -/

structure Request.Paged (r : Request) (config : Config) (maxLimit : Value) (firstPage : Int)
    (limit : Nat) : Prop where
  resolved : r.Resolved
  start : config.defaultPage = .int firstPage
  size : normalizeLimit (.ofInt? r.limit) config.defaultLimit
    (Plan.unlessNull maxLimit config.maxLimit) = .ok (.int limit)
  positive : 1 ≤ limit
  narrow : limit ≤ 2 ^ 53

def Request.pagePlan (config : Config) (r : Request) (window : Window) : Plan where
  model := .ofText? r.model
  predicate := r.tree
  orderBy := Plan.pageOrder config r
  window := window
  projection := r.projection

def pagesBefore (page : Option Int) (firstPage : Int) : Nat := (pageNumber page firstPage - 1).toNat

theorem pagesBefore_cast (page : Option Int) (firstPage : Int) :
    ((pagesBefore page firstPage : Nat) : Int) = pageNumber page firstPage - 1 := by
  unfold pagesBefore pageNumber
  omega

theorem Request.Resolved.withPage {r : Request} (h : r.Resolved) (page : Option Int) :
    ({ r with page := page } : Request).Resolved := ⟨h.1, h.2, h.3, h.4⟩

section
variable {config : Config} {r : Request} {maxLimit : Value} {firstPage : Int} {limit : Nat}

theorem Plan.pageOf_int (hstart : config.defaultPage = .int firstPage) (r : Request) :
    Plan.pageOf config r = .int (r.page.getD firstPage) := by
  unfold Plan.pageOf
  rw [hstart]
  cases r.page <;> rfl

theorem Plan.ofPage_window {size : Int} (hstart : config.defaultPage = .int firstPage)
    (hsize : normalizeLimit (.ofInt? r.limit) config.defaultLimit
      (Plan.unlessNull maxLimit config.maxLimit) = .ok (.int size)) :
    Plan.ofPage config r maxLimit = (r.predicate >>= fun predicate => .ok
      { model := .ofText? r.model, predicate, orderBy := Plan.pageOrder config r
        window := { take := .int size, skip := .int ((pageNumber r.page firstPage - 1) * size) }
        projection := r.projection }) := by
  unfold Plan.ofPage
  rw [Plan.pageOf_int hstart, Window.offset_int _ hsize]
  rfl

theorem Plan.ofPage_skips (hresolved : r.Resolved) (hstart : config.defaultPage = .int firstPage)
    (hsize : normalizeLimit (.ofInt? r.limit) config.defaultLimit
      (Plan.unlessNull maxLimit config.maxLimit) = .ok (.int limit)) :
    Plan.ofPage config r maxLimit = .ok (r.pagePlan config
      { take := .int limit, skip := .int (pagesBefore r.page firstPage * limit : Nat) }) := by
  rw [Plan.ofPage_window hstart hsize, Request.predicate_eq_tree hresolved, Outcome.ok_bind,
    Int.natCast_mul, pagesBefore_cast]
  rfl

theorem Request.Paged.ofPage_eq (paged : r.Paged config maxLimit firstPage limit)
    (page : Option Int) :
    Plan.ofPage config { r with page := page } maxLimit = .ok (r.pagePlan config
      { take := .int limit, skip := .int (pagesBefore page firstPage * limit : Nat) }) :=
  Plan.ofPage_skips (paged.resolved.withPage page) paged.start paged.size

end

/-! ## answers -/

namespace Store

section
variable {s : Store} {config : Config} {r : Request} {maxLimit : Value} {firstPage : Int}
  {limit : Nat} {rows ordered : List Value}

theorem find_pagePlan (hmatching : s.matching (.ofText? r.model) r.tree = .ok rows)
    (harranged : sortRows (Plan.pageOrder config r) rows = .ok ordered) {window : Window}
    {shown : List Value} (hshown : Store.window window ordered = .ok shown) :
    s.find (r.pagePlan config window) = shown.mapM (project r.projection) := by
  have hordered : s.arranged (r.pagePlan config window) = .ok ordered :=
    Outcome.bind_eq_ok.mpr ⟨rows, hmatching, harranged⟩
  rw [Store.find_eq, hordered, Outcome.ok_bind]
  show (Store.window window ordered >>= _) = _
  rw [hshown, Outcome.ok_bind]
  rfl

theorem answerPage_shape (hresolved : r.Resolved) (hstart : config.defaultPage = .int firstPage)
    (hsize : normalizeLimit (.ofInt? r.limit) config.defaultLimit
      (Plan.unlessNull maxLimit config.maxLimit) = .ok (.int limit))
    (hmatching : s.matching (.ofText? r.model) r.tree = .ok rows)
    (harranged : sortRows (Plan.pageOrder config r) rows = .ok ordered) :
    s.answerPage config r maxLimit =
      ((pageOf limit (pagesBefore r.page firstPage) ordered).mapM (project r.projection) >>=
        fun data => PagedResponse.shape (.list data) (.int rows.length)
          (.int (pageNumber r.page firstPage)) (.int limit)) := by
  have hcountPlan : Plan.ofCount r = .ok { model := .ofText? r.model, predicate := r.tree } := by
    unfold Plan.ofCount
    rw [Request.predicate_eq_tree hresolved]
    rfl
  have hcount : s.count { model := .ofText? r.model, predicate := r.tree } = .ok rows.length := by
    unfold count
    dsimp only
    rw [hmatching]
    rfl
  have hpage : normalizePage (Plan.pageOf config r) Window.defaultPage
      = .ok (.int (pageNumber r.page firstPage)) := by
    rw [Plan.pageOf_int hstart]
    exact normalizePage_ofInt? (some (r.page.getD firstPage)) 1
  obtain ⟨entry, hentry⟩ := Plan.announcement_ok "offset" (p := r.pagePlan config
    { take := .int limit, skip := .int (pagesBefore r.page firstPage * limit : Nat) })
    (Request.tree_clean hresolved)
  unfold answerPage
  rw [Plan.ofPage_skips hresolved hstart hsize, Outcome.ok_bind, hentry, Outcome.ok_bind, hcountPlan,
    Outcome.ok_bind, find_pagePlan hmatching harranged (window_offset limit _ ordered), hcount]
  unfold Builder.concludePage
  cases (pageOf limit (pagesBefore r.page firstPage) ordered).mapM (project r.projection) with
  | error e => rfl
  | ok data =>
    rw [Outcome.ok_bind, Outcome.ok_bind, hpage, Outcome.ok_bind, Outcome.ok_bind]
    rfl

end

end Store

structure Store.Numbered (s : Store) (config : Config) (r : Request) (rows ordered : List Value) :
    Prop where
  few : rows.length ≤ 2 ^ 53
  matching : s.matching (.ofText? r.model) r.tree = .ok rows
  arranged : sortRows (Plan.pageOrder config r) rows = .ok ordered

namespace Store.Numbered

variable {s : Store} {config : Config} {r : Request} {maxLimit : Value} {firstPage : Int}
  {limit : Nat} {rows ordered : List Value}

theorem length_eq (h : s.Numbered config r rows ordered) : ordered.length = rows.length :=
  (sortRows_perm h.arranged).length_eq

theorem find_eq (h : s.Numbered config r rows ordered) {window : Window} {shown : List Value}
    (hshown : Store.window window ordered = .ok shown) :
    s.find (r.pagePlan config window) = shown.mapM (project r.projection) :=
  find_pagePlan h.matching h.arranged hshown

theorem answerPage_eq (h : s.Numbered config r rows ordered)
    (paged : r.Paged config maxLimit firstPage limit) (page : Option Int) :
    s.answerPage config { r with page := page } maxLimit =
      ((pageOf limit (pagesBefore page firstPage) ordered).mapM (project r.projection) >>= fun data =>
        .ok { data, counts := .counting rows.length limit (pageNumber page firstPage) }) := by
  rw [answerPage_shape (paged.resolved.withPage page) paged.start paged.size h.matching h.arranged]
  refine congrArg _ (funext fun data => ?_)
  exact PagedResponse.shape_counting data _ h.few paged.positive paged.narrow

/-- an answer tells where its page stands, and has the rows that lie on it -/
theorem answerPage_told (h : s.Numbered config r rows ordered)
    (paged : r.Paged config maxLimit firstPage limit) {page : Option Int} {response : PagedResponse}
    (hresponse : s.answerPage config { r with page := page } maxLimit = .ok response) :
    response.counts = .counting rows.length limit (pageNumber page firstPage) ∧
      (response.data.length : Int) = max 0
        (min (limit : Int) (rows.length - (pageNumber page firstPage - 1) * (limit : Int))) := by
  rw [h.answerPage_eq paged] at hresponse
  obtain ⟨data, hdata, hresponse⟩ := Outcome.bind_eq_ok.mp hresponse
  cases hresponse
  refine ⟨rfl, ?_⟩
  show (data.length : Int) = _
  rw [Outcome.length_of_mapM hdata, length_pageOf, h.length_eq, ← pagesBefore_cast, ← Int.natCast_mul]
  omega

theorem length_le (h : s.Numbered config r rows ordered)
    (paged : r.Paged config maxLimit firstPage limit) :
    ordered.length ≤ rows.length ⌈/⌉ limit * limit := by
  rw [h.length_eq, Nat.mul_comm]
  exact (ceilDiv_le_iff_le_mul paged.positive).mp (Nat.le_refl _)

theorem answerPage_beyond (h : s.Numbered config r rows ordered)
    (paged : r.Paged config maxLimit firstPage limit) {page : Int}
    (hpage : ((rows.length ⌈/⌉ limit : Nat) : Int) < page) :
    s.answerPage config { r with page := some page } maxLimit
      = .ok { data := [], counts := .counting rows.length limit page } := by
  have hnumber : pageNumber (some page) firstPage = page := by
    show max 1 page = page
    omega
  have hbefore := pagesBefore_cast (some page) firstPage
  have hempty : pageOf limit (pagesBefore (some page) firstPage) ordered = [] :=
    pageOf_beyond ((h.length_le paged).trans (Nat.mul_le_mul_right limit (by omega)))
  rw [h.answerPage_eq paged, hempty, hnumber]
  rfl

theorem answerPage_shown (h : s.Numbered config r rows ordered)
    (paged : r.Paged config maxLimit firstPage limit) {result : List Value}
    (hresult : ordered.mapM (project r.projection) = .ok result) (page : Option Int) :
    s.answerPage config { r with page := page } maxLimit = .ok
      { data := pageOf limit (pagesBefore page firstPage) result,
        counts := .counting rows.length limit (pageNumber page firstPage) } := by
  rw [h.answerPage_eq paged, Outcome.mapM_pageOf hresult, Outcome.ok_bind]

/-- where every row can be shown, the pages up to the last one together show what is shown without
pages -/
theorem answerPages_shown (h : s.Numbered config r rows ordered)
    (paged : r.Paged config maxLimit firstPage limit) {result : List Value}
    (hresult : ordered.mapM (project r.projection) = .ok result) :
    ∃ shown, (List.range (rows.length ⌈/⌉ limit)).mapM (fun i =>
        s.answerPage config { r with page := some ((i + 1 : Nat) : Int) } maxLimit) = .ok shown ∧
      shown.flatMap (·.data) = result := by
  refine ⟨_, Outcome.mapM_of_forall fun i _ => h.answerPage_shown paged hresult _, ?_⟩
  have hindex (i : Nat) : pagesBefore (some ((i + 1 : Nat) : Int)) firstPage = i := by
    unfold pagesBefore pageNumber
    rw [Option.getD_some]
    omega
  rw [List.flatMap_map]
  simp only [hindex]
  apply flatMap_pageOf
  rw [Outcome.length_of_mapM hresult]
  exact h.length_le paged

end Store.Numbered

/-! ## pages before the first -/

theorem normalizePage_below {page : Int} (h : page < 1) (default : Value) :
    normalizePage (.int page) default = normalizePage (.int 1) default := by
  show Value.atLeast (.int 1) (.int page) = Value.atLeast (.int 1) (.int 1)
  rw [Value.atLeast_int, Value.atLeast_int, Int.max_self, Int.max_eq_left (by omega)]

theorem Builder.preparePage_below {S : Type} {page : Int} (h : page < 1) (config : Config)
    (e : Executor S) (r : Request) (maxLimit : Value) :
    preparePage config e { r with page := some page } maxLimit
      = preparePage config e { r with page := some 1 } maxLimit := by
  have hplan : Plan.ofPage config { r with page := some page } maxLimit
      = Plan.ofPage config { r with page := some 1 } maxLimit := by
    show (r.predicate >>= fun predicate => Window.offset (.int page) (.ofInt? r.limit)
        config.defaultLimit (Plan.unlessNull maxLimit config.maxLimit) >>= _)
      = (r.predicate >>= fun predicate => Window.offset (.int 1) (.ofInt? r.limit)
        config.defaultLimit (Plan.unlessNull maxLimit config.maxLimit) >>= _)
    unfold Window.offset
    rw [normalizePage_below h]
    rfl
  have hconclude (plan : Plan) (rows : Outcome (List Value)) (total : Outcome Nat) :
      concludePage config { r with page := some page } plan rows total
        = concludePage config { r with page := some 1 } plan rows total := by
    show (rows >>= fun rows => total >>= fun total =>
        normalizePage (.int page) Window.defaultPage >>= _)
      = (rows >>= fun rows => total >>= fun total =>
        normalizePage (.int 1) Window.defaultPage >>= _)
    rw [normalizePage_below h]
  unfold preparePage
  rw [hplan]
  simp only [hconclude]
  rfl

theorem Builder.query_below {S : Type} {page : Int} (h : page < 1) (config : Config) (e : Executor S)
    (r : Request) (maxLimit : Value) :
    (base config e).query { r with page := some page } maxLimit
      = (base config e).query { r with page := some 1 } maxLimit :=
  congrArg (· >>= Prepared.complete) (preparePage_below h config e r maxLimit)

/-! ## all pages -/

/-- The pages of a request show its ordered rows once each.  Whatever page is asked for, its answer
tells how many rows there are, which page it is, its size, and how many pages hold all rows, and it
has as many rows as lie on that page.  A page past the last one is empty, and a page before the
first one is the first.  Where every row can be shown, every page has an answer, and the pages from
the first to the last together are what the plan without a window shows. -/
theorem Builder.pages_partition {S : Type} (store : S → Store) (w : Logged S) (config : Config)
    (r : Request) (maxLimit : Value) (firstPage default most : Int) (hresolved : r.Resolved)
    (hfirst : config.defaultPage = .int firstPage) (hdefault : config.defaultLimit = .int default)
    (hmost : Plan.unlessNull maxLimit config.maxLimit = .int most) (hpos : 1 ≤ most)
    (hnarrow : most ≤ 2 ^ 53) :
    ∃ plan, Plan.ofPage config r maxLimit = .ok plan ∧ ∀ rows ordered,
      (store w.state).matching plan.model plan.predicate = .ok rows → rows.length < 2 ^ 53 →
      sortRows plan.orderBy rows = .ok ordered →
      let limit : Nat := (pageSize r.limit default most).toNat
      let pages : Nat := rows.length ⌈/⌉ limit
      let run (page : Option Int) :=
        ((base config (.ofStore store)).query { r with page := page } maxLimit).runOn w
      (∀ page response, (run page).1 = .ok response →
        response.counts.limit = pageSize r.limit default most ∧ 1 ≤ response.counts.page ∧
        response.counts.page = pageNumber page firstPage ∧ response.counts.total = rows.length ∧
        response.counts.totalPages = pages ∧
        (response.data.length : Int) =
          max 0 (min (limit : Int) (rows.length - (response.counts.page - 1) * (limit : Int)))) ∧
      (∀ page : Int, pages < page →
        ∃ response, (run (some page)).1 = .ok response ∧ response.data = []) ∧
      (∀ page : Int, page < 1 → run (some page) = run (some 1)) ∧
      ∀ result, (store w.state).find plan.whole = .ok result →
        (∀ page, ∃ response, (run page).1 = .ok response) ∧
        ∃ shown, (List.range pages).mapM (fun i => (run (some (i + 1 : Nat))).1) = .ok shown ∧
          shown.flatMap (·.data) = result := by
  have hsize := normalizeLimit_ofInt? r.limit default most
  have hpositive := pageSize_pos r.limit default hpos
  have hsmall : pageSize r.limit default most ≤ 2 ^ 53 := (Int.min_le_left _ _).trans hnarrow
  obtain ⟨limit, hlimit⟩ : ∃ limit : Nat, pageSize r.limit default most = limit :=
    ⟨_, (Int.toNat_of_nonneg (by omega)).symm⟩
  rw [hlimit] at hsize hpositive hsmall
  rw [hlimit, Int.toNat_natCast]
  have paged : r.Paged config maxLimit firstPage limit :=
    { resolved := hresolved
      start := hfirst
      size := by rw [hdefault, hmost]; exact hsize
      positive := by omega
      narrow := by omega }
  refine ⟨_, paged.ofPage_eq r.page, ?_⟩
  intro rows ordered hrows hfew hordered limit' pages run
  have numbered : (store w.state).Numbered config r rows ordered := ⟨by omega, hrows, hordered⟩
  have hrun (page : Option Int) :
      (run page).1 = (store w.state).answerPage config { r with page := page } maxLimit :=
    (base_query store config { r with page := page } maxLimit w).1
  refine ⟨?_, ?_, ?_, ?_⟩
  · intro page response hresponse
    rw [hrun] at hresponse
    obtain ⟨hcounts, hlength⟩ := numbered.answerPage_told paged hresponse
    rw [hcounts]
    exact ⟨rfl, Int.le_max_left .., rfl, rfl, rfl, hlength⟩
  · intro page hpage
    exact ⟨_, (hrun _).trans (numbered.answerPage_beyond paged hpage), rfl⟩
  · intro page hpage
    exact congrArg (·.runOn w) (query_below hpage config (.ofStore store) r maxLimit)
  · intro result hresult
    have hshown : ordered.mapM (Store.project r.projection) = .ok result := by
      have hall : Store.window {} ordered = .ok ordered := rfl
      exact (numbered.find_eq hall).symm.trans hresult
    refine ⟨fun page => ⟨_, (hrun page).trans (numbered.answerPage_shown paged hshown page)⟩, ?_⟩
    simp only [hrun]
    exact numbered.answerPages_shown paged hshown

/-- five rows on pages of two -/
theorem Builder.pages_of_five :
    let rows : List Value := [.record [("id", .int 2)], .record [("id", .int 5)],
      .record [("id", .int 3)], .record [("id", .int 1)], .record [("id", .int 4)]]
    let r : Request :=
      { model := some "m", limit := some 2, sortBy := some "id", sortOrder := some .asc }
    let w : Logged Store := ⟨⟨[(.str "m", rows)]⟩, []⟩
    let run (page : Int) := ((base {} (.ofStore id)).query { r with page := some page } .null).runOn w
    (∃ response, (run 3).1 = .ok response ∧ response.data.length = 1 ∧
      response.counts = ⟨5, 3, 2, 3⟩) ∧
    (∃ response, (run 4).1 = .ok response ∧ response.data = []) ∧ run 0 = run 1 ∧
    ∃ shown, (List.range 3).mapM (fun i => (run (i + 1 : Nat)).1) = .ok shown ∧
      shown.flatMap (·.data) = [.record [("id", .int 1)], .record [("id", .int 2)],
        .record [("id", .int 3)], .record [("id", .int 4)], .record [("id", .int 5)]] := by
  intro rows r w run
  have hresolved : r.Resolved := by
    constructor <;> exact fun _ h => absurd h List.not_mem_nil
  obtain ⟨plan, hplan, hpages⟩ := pages_partition id w {} r .null 1 10 100 hresolved rfl rfl rfl
    (by decide) (by decide)
  cases hplan
  have hsize : (pageSize r.limit 10 100).toNat = 2 := by decide
  have hcount : rows.length ⌈/⌉ 2 = 3 := by decide
  obtain ⟨hcounts, hbeyond, hbelow, hall⟩ := hpages rows
    [.record [("id", .int 1)], .record [("id", .int 2)], .record [("id", .int 3)],
      .record [("id", .int 4)], .record [("id", .int 5)]] rfl (by decide) rfl
  rw [hsize, hcount] at hbeyond hcounts hall
  obtain ⟨hanswered, hshown⟩ := hall _ rfl
  refine ⟨?_, hbeyond 4 (by decide), hbelow 0 (by decide), hshown⟩
  obtain ⟨response, hresponse⟩ := hanswered (some 3)
  obtain ⟨hlimit, -, hnumber, htotal, htotalPages, hlength⟩ := hcounts (some 3) response hresponse
  have hnumber' : response.counts.page = 3 := hnumber
  refine ⟨response, hresponse, ?_, ?_⟩
  · rw [hnumber'] at hlength
    have hone : (response.data.length : Int) = 1 := hlength
    omega
  · rcases hmeta : response.counts with ⟨total, page, limit, totalPages⟩
    rw [hmeta] at hlimit hnumber' htotal htotalPages
    dsimp only at hlimit hnumber' htotal htotalPages
    rw [hlimit, hnumber', htotal, htotalPages]
    rfl

end ListQuery
