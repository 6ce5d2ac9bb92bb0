import ListQuery.Builder.Exported
import ListQuery.Proofs.Number.Quotient
import ListQuery.Proofs.Pages

/-!
# Exported rows

An export asks for the page of its request with the greatest number of rows as the size of pages.  So
a request without a page, or for the first one, exports the first rows; one for a later page exports
what is left after the pages before it, each with as many rows as an export may have.

* `totalPages_ok`          a number of rows has a number of pages unless it is beyond all doubles;
* `Store.answerRows`       the rows of an export;
* `Store.answerRows_eq`    they are a page of the ordered rows;
* `pageOf_first`, `pageOf_later`   what is on the first page and on the others;
* `Builder.exports_page`   what is exported;
* `Builder.exports_not_head`   an export without the first rows.
-/

namespace ListQuery

/-! ## counts -/

theorem totalPages_ok {total limit : Nat} (hpos : 1 ≤ limit)
    (h : total < Binary64.tooGreat * limit) :
    ∃ pages, totalPages (.int total) (.int limit) = .ok (.int pages) := by
  obtain ⟨negative, m, e, hquotient⟩ :=
    Value.quotient_finite (m := total) (n := limit) (by omega) h
  obtain ⟨pages, hpages⟩ : ∃ pages, (Binary64.finite negative m e).ceil? = .ok pages := ⟨_, rfl⟩
  have hdiv : (Value.int total).div (.int limit) = .ok (.finite negative m e) := hquotient
  unfold totalPages
  rw [Value.compares_int, Outcome.ok_bind, hdiv, Outcome.ok_bind, hpages]
  split
  · exact ⟨0, rfl⟩
  · exact ⟨pages, rfl⟩

theorem PagedResponse.data_of_shape {data : List Value} {total page limit : Value}
    {response : PagedResponse} (h : shape (.list data) total page limit = .ok response) :
    response.data = data := by
  unfold shape at h
  obtain ⟨rows, hrows, h⟩ := Outcome.bind_eq_ok.mp h
  obtain ⟨pages, _, h⟩ := Outcome.bind_eq_ok.mp h
  obtain ⟨counts, _, h⟩ := Outcome.bind_eq_ok.mp h
  cases hrows
  cases h
  rfl

theorem PagedResponse.shape_ok (data : List Value) {total limit : Nat} (page : Int)
    (hpos : 1 ≤ limit) (h : total < Binary64.tooGreat * limit) :
    ∃ response, shape (.list data) (.int total) (.int page) (.int limit) = .ok response := by
  obtain ⟨pages, hpages⟩ := totalPages_ok hpos h
  refine ⟨{ data, counts := ⟨total, page, limit, pages⟩ }, ?_⟩
  unfold shape
  rw [show (Value.list data).items = .ok data from rfl, Outcome.ok_bind, hpages]
  rfl

/-! ## rows of an export -/

section
variable {config : Config} {r : Request} {firstPage : Int} {maxRows : Nat} {rows ordered : List Value}

/-- the rows of an export of at most so many -/
def Store.answerRows (s : Store) (config : Config) (r : Request) (maxRows : Nat) :
    Outcome (List Value) := do
  let response ← s.answerPage config { r with limit := some maxRows } (.int maxRows)
  return response.data

theorem normalizeLimit_exported (hpos : 1 ≤ maxRows) (default : Value) :
    normalizeLimit (.ofInt? (some maxRows)) default (.int maxRows) = .ok (.int maxRows) := by
  show (Value.atLeast (.int 1) (.int maxRows) >>= Value.atMost (.int maxRows)) = _
  rw [Value.atLeast_int, Outcome.ok_bind, Value.atMost_int, Int.max_eq_right (by omega), Int.min_self]

namespace Store

variable {s : Store}

theorem answerRows_shape (hresolved : r.Resolved) (hstart : config.defaultPage = .int firstPage)
    (hpos : 1 ≤ maxRows) (hmatching : s.matching (.ofText? r.model) r.tree = .ok rows)
    (harranged : sortRows (Plan.pageOrder config r) rows = .ok ordered) :
    s.answerRows config r maxRows =
      ((pageOf maxRows (pagesBefore r.page firstPage) ordered).mapM (project r.projection) >>=
        fun data => PagedResponse.shape (.list data) (.int rows.length)
          (.int (pageNumber r.page firstPage)) (.int maxRows) >>= fun response =>
            .ok response.data) := by
  have hsize : normalizeLimit (.ofInt? (some maxRows)) config.defaultLimit
      (Plan.unlessNull (.int maxRows) config.maxLimit) = .ok (.int maxRows) :=
    normalizeLimit_exported hpos config.defaultLimit
  have hpage := answerPage_shape (hresolved.withLimit (some maxRows)) hstart hsize hmatching harranged
  unfold answerRows
  rw [hpage, bind_assoc]
  rfl

/-- rows that are exported are those of the request's page, in pages of the greatest number of rows -/
theorem page_of_answerRows (hresolved : r.Resolved) (hstart : config.defaultPage = .int firstPage)
    (hpos : 1 ≤ maxRows) (hmatching : s.matching (.ofText? r.model) r.tree = .ok rows)
    (harranged : sortRows (Plan.pageOrder config r) rows = .ok ordered) {data : List Value}
    (h : s.answerRows config r maxRows = .ok data) :
    (pageOf maxRows (pagesBefore r.page firstPage) ordered).mapM (project r.projection)
      = .ok data := by
  rw [answerRows_shape hresolved hstart hpos hmatching harranged] at h
  obtain ⟨projected, hprojected, h⟩ := Outcome.bind_eq_ok.mp h
  obtain ⟨response, hresponse, h⟩ := Outcome.bind_eq_ok.mp h
  cases h
  rw [hprojected, PagedResponse.data_of_shape hresponse]

theorem answerRows_eq (hresolved : r.Resolved) (hstart : config.defaultPage = .int firstPage)
    (hpos : 1 ≤ maxRows) (hmatching : s.matching (.ofText? r.model) r.tree = .ok rows)
    (harranged : sortRows (Plan.pageOrder config r) rows = .ok ordered)
    (hfew : rows.length < Binary64.tooGreat * maxRows) :
    s.answerRows config r maxRows =
      (pageOf maxRows (pagesBefore r.page firstPage) ordered).mapM (project r.projection) := by
  rw [answerRows_shape hresolved hstart hpos hmatching harranged]
  cases (pageOf maxRows (pagesBefore r.page firstPage) ordered).mapM (project r.projection) with
  | error e => rfl
  | ok data =>
    obtain ⟨response, hresponse⟩ :=
      PagedResponse.shape_ok data (pageNumber r.page firstPage) hpos hfew
    rw [Outcome.ok_bind, hresponse, Outcome.ok_bind, PagedResponse.data_of_shape hresponse]

end Store

namespace Builder

variable {S : Type} (store : S → Store)

theorem base_rowsUpTo (config : Config) (hresolved : r.Resolved) (maxRows : Nat) :
    ((base config (.ofStore store)).rowsUpTo r (.int maxRows)).Reads
      fun s => (store s).answerRows config r maxRows := by
  have hmerged : (liftM (r.merged (.record [("limit", .int maxRows)])) : Action S Request)
      = liftM (Except.ok { r with limit := some (maxRows : Int) } : Outcome Request) :=
    congrArg liftM (Request.merged_limit hresolved maxRows)
  unfold rowsUpTo
  rw [hmerged]
  exact (Action.Reads.lift _).bind fun capped =>
    (base_query store config capped (.int maxRows)).bind fun response => .pure response.data

theorem base_exportCsv (config : Config) (hresolved : r.Resolved) (maxRows : Nat) :
    ((base config (.ofStore store)).exportCsv r (.int maxRows)).Reads
      fun s => (store s).answerRows config r maxRows >>= Export.csv :=
  (base_rowsUpTo store config hresolved maxRows).bind fun data => .lift (Export.csv data)

theorem base_exportJson (config : Config) (hresolved : r.Resolved) (maxRows : Nat) (pretty : Bool) :
    ((base config (.ofStore store)).exportJson r (.int maxRows) pretty).Reads
      fun s => (store s).answerRows config r maxRows >>= (Export.json · pretty) :=
  (base_rowsUpTo store config hresolved maxRows).bind fun data => .lift (Export.json data pretty)

end Builder

end

/-! ## which rows -/

section
variable {α : Type} {limit earlier : Nat} {ordered : List α}

theorem pageOf_first (limit : Nat) (ordered : List α) :
    pageOf limit 0 ordered = ordered.take (min ordered.length limit) := by
  rw [pageOf, Nat.zero_mul, List.drop_zero, Nat.min_comm]
  exact List.take_eq_take_min

theorem pageOf_later (h : 1 ≤ earlier) :
    (pageOf limit earlier ordered).Sublist (ordered.drop limit) := by
  have hmore : limit ≤ earlier * limit := Nat.le_mul_of_pos_left limit h
  have hdrop : (ordered.drop (earlier * limit)).Sublist (ordered.drop limit) :=
    List.drop_sublist_drop_left ordered hmore
  exact (List.take_sublist limit _).trans hdrop

end

/-! ## what is exported -/

/-- What an export shows is the page of its request among the ordered rows, in pages of the greatest
number of rows, whatever the request's limit and the settings are.  That is the head of the result for
the first page and nothing of it for any other.  The export fails only if a row cannot be shown, or a
text not be written, or if there are more rows than any double. -/
theorem Builder.exports_page {S : Type} (store : S → Store) (w : Logged S) (config : Config)
    (r : Request) (firstPage : Int) (maxRows : Nat) (hresolved : r.Resolved)
    (hfirst : config.defaultPage = .int firstPage) (hpos : 1 ≤ maxRows) (rows ordered : List Value)
    (hmatching : (store w.state).matching (.ofText? r.model) r.tree = .ok rows)
    (harranged : sortRows (Plan.pageOrder config r) rows = .ok ordered) :
    let page : Int := pageNumber r.page firstPage
    let exported : List Value := pageOf maxRows (page - 1).toNat ordered
    let data : Outcome (List Value) := exported.mapM (Store.project r.projection)
    let csv := ((base config (.ofStore store)).exportCsv r (.int maxRows)).runOn w
    let json (pretty : Bool) :=
      ((base config (.ofStore store)).exportJson r (.int maxRows) pretty).runOn w
    (page = 1 → exported = ordered.take (min ordered.length maxRows)) ∧
    (page ≠ 1 → exported.Sublist (ordered.drop maxRows)) ∧
    (∀ text, csv.1 = .ok text → (data >>= Export.csv) = .ok text) ∧
    (∀ pretty text, (json pretty).1 = .ok text → (data >>= (Export.json · pretty)) = .ok text) ∧
    (rows.length < Binary64.tooGreat * maxRows → csv.1 = (data >>= Export.csv) ∧
      ∀ pretty, (json pretty).1 = (data >>= (Export.json · pretty))) := by
  intro page exported data csv json
  have hcsv : csv.1 = ((store w.state).answerRows config r maxRows >>= Export.csv) :=
    (base_exportCsv store config hresolved maxRows w).1
  have hjson (pretty : Bool) : (json pretty).1
      = ((store w.state).answerRows config r maxRows >>= (Export.json · pretty)) :=
    (base_exportJson store config hresolved maxRows pretty w).1
  have hanswered : ∀ answer, (store w.state).answerRows config r maxRows = .ok answer →
      data = .ok answer := fun _ =>
    Store.page_of_answerRows hresolved hfirst hpos hmatching harranged
  refine ⟨?_, ?_, ?_, ?_, ?_⟩
  · intro hpage
    have hexported : exported = pageOf maxRows (page - 1).toNat ordered := rfl
    rw [hexported, hpage]
    exact pageOf_first maxRows ordered
  · intro hpage
    have hfrom : 1 ≤ page := Int.le_max_left ..
    exact pageOf_later (by omega)
  · intro text htext
    obtain ⟨answer, hanswer, hrendered⟩ := Outcome.bind_eq_ok.mp (hcsv.symm.trans htext)
    exact Outcome.bind_eq_ok.mpr ⟨answer, hanswered answer hanswer, hrendered⟩
  · intro pretty text htext
    obtain ⟨answer, hanswer, hrendered⟩ := Outcome.bind_eq_ok.mp ((hjson pretty).symm.trans htext)
    exact Outcome.bind_eq_ok.mpr ⟨answer, hanswered answer hanswer, hrendered⟩
  · intro hfew
    have heq : (store w.state).answerRows config r maxRows = data :=
      Store.answerRows_eq hresolved hfirst hpos hmatching harranged hfew
    refine ⟨by rw [hcsv, heq], fun pretty => ?_⟩
    rw [hjson, heq]

/-- of three rows two are exported, although a page has one row at most -/
theorem Builder.exports_first_two :
    let rows : List Value := [.record [("id", .int 2)], .record [("id", .int 3)],
      .record [("id", .int 1)]]
    let r : Request :=
      { model := some "m", limit := some 1, sortBy := some "id", sortOrder := some .asc }
    let w : Logged Store := ⟨⟨[(.str "m", rows)]⟩, []⟩
    let b : Builder Store := base { maxLimit := .int 1 } (.ofStore id)
    ((b.exportCsv r (.int 2)).runOn w).1 = .ok "id\n1\n2" := by
  intro rows r w b
  have hresolved : r.Resolved := by
    constructor <;> exact fun _ h => absurd h List.not_mem_nil
  have hall := exports_page id w { maxLimit := .int 1 } r 1 2 hresolved rfl (by decide)
    rows [.record [("id", .int 1)], .record [("id", .int 2)], .record [("id", .int 3)]] rfl rfl
  obtain ⟨hcsv, -⟩ := hall.2.2.2.2 (by decide +kernel)
  exact hcsv

/-- a request for the second page, in pages of one row, exports neither the first two rows nor any
row of that page -/
theorem Builder.exports_not_head :
    let rows : List Value := [.record [("id", .int 2)], .record [("id", .int 3)],
      .record [("id", .int 1)]]
    let r : Request :=
      { model := some "m", page := some 2, limit := some 1, sortBy := some "id"
        sortOrder := some .asc }
    let w : Logged Store := ⟨⟨[(.str "m", rows)]⟩, []⟩
    let b : Builder Store := base {} (.ofStore id)
    ((b.exportCsv r (.int 2)).runOn w).1 = .ok "id\n3" := rfl

end ListQuery
