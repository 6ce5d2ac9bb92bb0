import ListQuery.Proofs.Answers
import ListQuery.Proofs.Collection.Projection
import ListQuery.Proofs.Predicate.Normal
import ListQuery.Proofs.Request.Meaning

/-!
# Requests for the same page

Two requests with the same collection, order, page and limit that ask the same of every row are
answered alike, where none of their comparisons is a fault.  Both the rows and the failures are the
same; only the fields of a row may come in another order.

* `Request.SamePage`        the requests ask for the same page;
* `Request.Decided`         no comparison of the request with a row is a fault;
* `PagedResponse.Same`      the same response, but for the order of the fields of its rows;
* `Store.answerPage_alike`  the answers to requests for the same page.
-/

namespace ListQuery

/-- the same rows, but for the order of their fields, with the same counts -/
structure PagedResponse.Same (a b : PagedResponse) : Prop where
  data : List.Forall₂ Value.Rearranged a.data b.data
  counts : a.counts = b.counts
  metrics : a.metrics = b.metrics

namespace Request

structure SamePage (config : Config) (q r : Request) : Prop where
  model : q.model = r.model
  rows : ∀ row, q.accepts row = r.accepts row
  page : Plan.pageOf config q = Plan.pageOf config r
  limit : wholeOr (.ofInt? q.limit) config.defaultLimit = wholeOr (.ofInt? r.limit) config.defaultLimit
  order : Plan.pageOrder config q = Plan.pageOrder config r
  fields : ∀ row, Outcome.Alike Value.Rearranged (Store.project q.projection row)
    (Store.project r.projection row)

def Decided (r : Request) (row : Value) : Prop :=
  ∀ p, r.predicate = .ok p → ∃ answer, p.evaluate row = .ok answer

theorem Decided.evaluate {r : Request} {row : Value} (h : r.Decided row) (hr : r.Resolved) :
    r.tree.evaluate row = .ok (r.accepts row) := by
  obtain ⟨answer, hanswer⟩ := h r.tree (predicate_eq_tree hr)
  rw [hanswer, (tree_decides hr row).answer hanswer]

end Request

namespace Store

theorem select_eq {p q : Predicate} {rows : List Value}
    (h : ∀ row ∈ rows, p.evaluate row = q.evaluate row) : p.select rows = q.select rows := by
  induction rows with
  | nil => rfl
  | cons row rest ih =>
    rw [List.forall_mem_cons] at h
    rw [Predicate.select, Predicate.select, h.1, ih h.2]

variable {s : Store} {config : Config} {q r : Request}

def DecidedBy (s : Store) (q r : Request) : Prop :=
  ∀ rows, s.rows (.ofText? r.model) = .ok rows → ∀ row ∈ rows, q.Decided row ∧ r.Decided row

theorem matching_decided (hq : q.Resolved) (hr : r.Resolved) (hmodel : q.model = r.model)
    (haccepts : ∀ row, q.accepts row = r.accepts row) (hdecided : s.DecidedBy q r) :
    s.matching (.ofText? q.model) q.tree = s.matching (.ofText? r.model) r.tree := by
  unfold matching
  rw [hmodel]
  cases hrows : s.rows (.ofText? r.model) with
  | error e => rfl
  | ok rows =>
    apply select_eq
    intro row hrow
    obtain ⟨hqrow, hrrow⟩ := hdecided rows hrows row hrow
    rw [hqrow.evaluate hq, hrrow.evaluate hr, haccepts]

def pagePlan (config : Config) (r : Request) (window : Window) : Plan :=
  { model := .ofText? r.model, predicate := r.tree, orderBy := Plan.pageOrder config r, window,
    projection := r.projection }

theorem find_alike (hq : q.Resolved) (hr : r.Resolved) (h : q.SamePage config r)
    (hdecided : s.DecidedBy q r) (window : Window) :
    Outcome.Alike (List.Forall₂ Value.Rearranged) (s.find (pagePlan config q window))
      (s.find (pagePlan config r window)) := by
  show Outcome.Alike _
    (s.matching (.ofText? q.model) q.tree >>= fun matched =>
      sortRows (Plan.pageOrder config q) matched >>= fun ordered =>
        Store.window window ordered >>= fun rows => rows.mapM (project q.projection))
    (s.matching (.ofText? r.model) r.tree >>= fun matched =>
      sortRows (Plan.pageOrder config r) matched >>= fun ordered =>
        Store.window window ordered >>= fun rows => rows.mapM (project r.projection))
  rw [matching_decided hq hr h.model h.rows hdecided, h.order]
  apply Outcome.Alike.after
  intro matched
  apply Outcome.Alike.after
  intro ordered
  apply Outcome.Alike.after
  intro rows
  exact Outcome.Alike.mapM h.fields rows

theorem count_same (hq : q.Resolved) (hr : r.Resolved) (h : q.SamePage config r)
    (hdecided : s.DecidedBy q r) :
    s.count { model := .ofText? q.model, predicate := q.tree }
      = s.count { model := .ofText? r.model, predicate := r.tree } := by
  unfold count
  dsimp only
  rw [matching_decided hq hr h.model h.rows hdecided]

theorem answerPage_compiled {p : Predicate} (hp : r.predicate = .ok p) (maxLimit : Value) :
    s.answerPage config r maxLimit
      = (Window.offset (Plan.pageOf config r) (.ofInt? r.limit) config.defaultLimit
          (Plan.unlessNull maxLimit config.maxLimit) >>= fun window =>
        let plan := { pagePlan config r window with predicate := p }
        Builder.concludePage config r plan (s.find plan)
          (s.count { model := .ofText? r.model, predicate := p })) := by
  unfold answerPage Plan.ofPage Plan.ofCount
  rw [hp]
  cases Window.offset (Plan.pageOf config r) (.ofInt? r.limit) config.defaultLimit
      (Plan.unlessNull maxLimit config.maxLimit) with
  | error e => rfl
  | ok window =>
    let plan := { pagePlan config r window with predicate := p }
    have hclean : plan.predicate.clean = true := Request.predicate_clean hp
    obtain ⟨entry, hentry⟩ := Plan.announcement_ok "offset" hclean
    show (plan.announcement "offset" >>= fun _ =>
      Builder.concludePage config r plan (s.find plan)
        (s.count { model := .ofText? r.model, predicate := p })) = _
    rw [hentry]
    rfl

theorem answerPage_eq (hr : r.Resolved) (maxLimit : Value) :
    s.answerPage config r maxLimit
      = (Window.offset (Plan.pageOf config r) (.ofInt? r.limit) config.defaultLimit
          (Plan.unlessNull maxLimit config.maxLimit) >>= fun window =>
        Builder.concludePage config r (pagePlan config r window) (s.find (pagePlan config r window))
          (s.count { model := .ofText? r.model, predicate := r.tree })) :=
  answerPage_compiled (Request.predicate_eq_tree hr) maxLimit

/-- requests for the same page are answered alike -/
theorem answerPage_alike (hq : q.Resolved) (hr : r.Resolved) (h : q.SamePage config r)
    (hdecided : s.DecidedBy q r) (maxLimit : Value) :
    Outcome.Alike PagedResponse.Same (s.answerPage config q maxLimit) (s.answerPage config r maxLimit) := by
  have hwindow : Window.offset (Plan.pageOf config q) (.ofInt? q.limit) config.defaultLimit
        (Plan.unlessNull maxLimit config.maxLimit)
      = Window.offset (Plan.pageOf config r) (.ofInt? r.limit) config.defaultLimit
        (Plan.unlessNull maxLimit config.maxLimit) := by
    unfold Window.offset normalizeLimit
    rw [h.page, h.limit]
  rw [answerPage_eq hq, answerPage_eq hr, hwindow]
  apply Outcome.Alike.after
  intro window
  unfold Builder.concludePage
  rw [count_same hq hr h hdecided, h.page]
  apply (find_alike hq hr h hdecided window).bind
  intro shown shown' hshown
  apply Outcome.Alike.after
  intro total
  apply Outcome.Alike.after
  intro page
  -- the rows come into the response as they are, and the counts do not depend on them
  unfold PagedResponse.shape
  show Outcome.Alike _ (totalPages _ _ >>= _) (totalPages _ _ >>= _)
  apply Outcome.Alike.after
  intro pages
  apply Outcome.Alike.after
  intro counts
  exact .ok ⟨hshown, rfl, rfl⟩

end Store

end ListQuery
