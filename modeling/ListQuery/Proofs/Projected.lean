import ListQuery.Proofs.Collection.Projection
import ListQuery.Proofs.Walk

/-!
# Cursor windows of projected rows

The cursor to go on from is read from the last row of a window as it is shown.  So a projection
changes nothing about a window but its rows and, where it leaves out the cursor field, the cursor:
this is then null, and the next window is the first one again.

* `Store.Accepts`             a projection that shows every row;
* `CursorResponse.through`    a response with its rows seen through a projection;
* `Store.answerWindow_shown`  the window of a request from that of the request for whole rows;
* `Builder.projected_cursor`  when two projections go on from the same place.
-/

namespace ListQuery

/-! ## rows -/

namespace Store

/-- the projection leaves rows as they are, or selects fields by their names -/
def Accepts (projection : Value) : Prop :=
  ∀ selection, selection? projection = some selection →
    ∃ names : List String, selected selection = .ok (names.map .str)

theorem Keeps.accepts {projection : Value} {field : String} (h : Keeps projection field) :
    Accepts projection := fun selection hsel => (h selection hsel).imp fun _ h => h.1

theorem field?_foldl_put_of_notMem {row : Value} {field : String} {names : List String}
    (h : field ∉ names) (entries : List (String × Value)) :
    Value.field? field (names.foldl (fun entries name => Value.put name (row.member name) entries)
      entries) = Value.field? field entries := by
  induction names generalizing entries with
  | nil => rfl
  | cons name names ih =>
    rw [List.mem_cons, not_or] at h
    rw [List.foldl_cons, ih h.2, Value.field?_put_of_ne h.1]

/-- an accepted projection shows every row: with the field as it is if it keeps the field, else
without it -/
theorem project_accepted {projection : Value} (h : Accepts projection) (field : String) (row : Value) :
    ∃ shown, project projection row = .ok shown ∧
      (Keeps projection field → shown.member field = row.member field) ∧
      (¬ Keeps projection field → shown.member field = .null) := by
  by_cases hkeeps : Keeps projection field
  · obtain ⟨shown, hproject, hmember⟩ := project_keeps hkeeps row
    exact ⟨shown, hproject, fun _ => hmember, fun hnot => absurd hkeeps hnot⟩
  · cases hsel : selection? projection with
    | none => exact absurd (fun _ hsome => by rw [hsel] at hsome; cases hsome) hkeeps
    | some selection =>
      obtain ⟨names, hnames⟩ := h selection hsel
      have hfield : field ∉ names := by
        refine fun hmem => hkeeps fun other hother => ?_
        cases hsel.symm.trans hother
        exact ⟨names, hnames, hmem⟩
      refine ⟨.record (shownFields names row), ?_, fun hyes => absurd hyes hkeeps, fun _ => ?_⟩
      · rw [project_select hsel, hnames, Outcome.ok_bind, foldlM_putField]
        rfl
      · show (Value.field? field (shownFields names row)).getD .null = _
        rw [shownFields, field?_foldl_put_of_notMem hfield]
        rfl

theorem mem_of_fromAnchor? {cursor : Value} {rows found : List Value}
    (h : fromAnchor? cursor rows = .ok (some found)) : ∀ row ∈ found, row ∈ rows := by
  unfold fromAnchor? at h
  split at h
  · obtain ⟨entries, _, h⟩ := Outcome.bind_eq_ok.mp h
    split at h
    · split at h
      · cases h
      · cases h
        exact fun row hrow => (List.dropWhile_sublist _).subset hrow
    · cases h
  · cases h
    exact fun _ hrow => hrow

theorem mem_of_between {w : Window} {rows shown : List Value} (h : between w rows = .ok shown) :
    ∀ row ∈ shown, row ∈ rows := by
  have hend (left : List Value) (h : (if w.take.isNull then pure left else (do
      return Value.takeTo (← w.take.index?) left) : Outcome (List Value)) = .ok shown) :
      ∀ row ∈ shown, row ∈ left := by
    split at h
    · cases h
      exact fun _ hrow => hrow
    · obtain ⟨stop, _, h⟩ := Outcome.bind_eq_ok.mp h
      cases h
      exact fun _ hrow => Value.mem_takeTo hrow
  unfold between at h
  dsimp only at h
  split at h
  · obtain ⟨left, hleft, h⟩ := Outcome.bind_eq_ok.mp h
    obtain ⟨start, _, hleft⟩ := Outcome.bind_eq_ok.mp hleft
    cases hleft
    exact fun row hrow => Value.mem_dropTo (hend _ h row hrow)
  · exact hend rows h

theorem mem_of_window {w : Window} {rows shown : List Value} (h : window w rows = .ok shown) :
    ∀ row ∈ shown, row ∈ rows := by
  unfold window at h
  obtain ⟨found, hfound, h⟩ := Outcome.bind_eq_ok.mp h
  cases found with
  | none =>
    cases h
    exact fun _ hrow => absurd hrow List.not_mem_nil
  | some found => exact fun row hrow => mem_of_fromAnchor? hfound row (mem_of_between h row hrow)

end Store

/-! ## responses -/

namespace CursorPage

/-- the page with its rows as they are shown, and the cursor as the last of them shows it -/
def through (shown : Value → Value) (field : String) (page : CursorPage) : CursorPage where
  data := page.data.map shown
  hasMore := page.hasMore
  nextCursor := (page.data.getLast?.map fun row => (shown row).member field).getD .null

theorem ofRows_map (shown : Value → Value) (field : String) (rows : List Value) (limit : Value) :
    ofRows (.list (rows.map shown)) limit (.str field)
      = (ofRows (.list rows) limit (.str field)).map (through shown field) := by
  have hlast (data : List Value) : lastMember (.str field) (data.map shown)
      = .ok ((data.getLast?.map fun row => (shown row).member field).getD .null) := by
    rw [lastMember_str, List.getLast?_map, Option.map_map]
    rfl
  unfold ofRows
  show ((Value.int (rows.map shown).length).compares .above limit >>= _)
    = ((Value.int rows.length).compares .above limit >>= _).map _
  rw [List.length_map]
  cases (Value.int rows.length).compares .above limit with
  | error e => rfl
  | ok beyond =>
    cases beyond with
    | false =>
      show (lastMember (.str field) (rows.map shown) >>= _)
        = ((lastMember (.str field) rows >>= _ : Outcome CursorPage)).map _
      rw [hlast, lastMember_str]
      rfl
    | true =>
      show ((Value.list (rows.map shown)).firstItems limit >>= _)
        = ((Value.list rows).firstItems limit >>= _ : Outcome CursorPage).map _
      unfold Value.firstItems
      dsimp only
      cases limit.index? with
      | error e => rfl
      | ok stop =>
        rw [Outcome.ok_bind, Outcome.ok_bind, Value.takeTo_map]
        cases Value.takeTo stop rows with
        | nil => rfl
        | cons row rest =>
          rw [pure_bind, pure_bind, if_neg (by simp), if_neg (by simp), hlast, lastMember_str]
          rfl

theorem ofRows_shows {rows : List Value} {limit field : Value} {page : CursorPage}
    (h : ofRows (.list rows) limit field = .ok page) :
    (∀ row ∈ page.data, row ∈ rows) ∧ (page.hasMore = true → page.data ≠ []) := by
  unfold ofRows at h
  obtain ⟨_, _, h⟩ := Outcome.bind_eq_ok.mp h
  obtain ⟨beyond, _, h⟩ := Outcome.bind_eq_ok.mp h
  cases beyond with
  | true =>
    obtain ⟨first, hfirst, h⟩ := Outcome.bind_eq_ok.mp h
    obtain ⟨stop, _, hfirst⟩ := Outcome.bind_eq_ok.mp hfirst
    cases hfirst
    split at h
    · cases h
    · rename_i hsome
      obtain ⟨_, _, h⟩ := Outcome.bind_eq_ok.mp h
      cases h
      exact ⟨fun _ hrow => Value.mem_takeTo hrow, fun _ hnone => hsome (List.isEmpty_iff.mpr hnone)⟩
  | false =>
    obtain ⟨data, hdata, h⟩ := Outcome.bind_eq_ok.mp h
    obtain ⟨_, _, h⟩ := Outcome.bind_eq_ok.mp h
    cases hdata
    cases h
    exact ⟨fun _ hrow => hrow, fun hmore => absurd hmore Bool.false_ne_true⟩

end CursorPage

namespace CursorResponse

def through (shown : Value → Value) (field : String) (r : CursorResponse) : CursorResponse where
  data := r.data.map shown
  nextCursor := (r.data.getLast?.map fun row => (shown row).member field).getD .null
  hasMore := r.hasMore
  limit := r.limit

theorem shape_map (shown : Value → Value) (field : String) (rows : List Value) (limit : Value) :
    shape (.list (rows.map shown)) limit (.str field)
      = (shape (.list rows) limit (.str field)).map (through shown field) := by
  unfold shape
  rw [CursorPage.ofRows_map]
  cases CursorPage.ofRows (.list rows) limit (.str field) with
  | error e => rfl
  | ok page =>
    cases hlimit : ((Field.integer limit).inside "limit").orFault "CursorMeta" with
    | error e => rfl
    | ok limit => rfl

theorem through_nextCursor_iff {response : CursorResponse} {field : String} {f g : Value → Value}
    {keepsF keepsG : Prop}
    (hf : ∀ row, (keepsF → (f row).member field = row.member field) ∧
      (¬ keepsF → (f row).member field = .null))
    (hg : ∀ row, (keepsG → (g row).member field = row.member field) ∧
      (¬ keepsG → (g row).member field = .null))
    (hgiven : ∀ row ∈ response.data, row.member field ≠ .null) :
    (response.through f field).nextCursor = (response.through g field).nextCursor ↔
      response.data = [] ∨ (keepsF ↔ keepsG) := by
  unfold through
  dsimp only
  cases hlast : response.data.getLast? with
  | none => exact ⟨fun _ => .inl (List.getLast?_eq_none_iff.mp hlast), fun _ => rfl⟩
  | some last =>
    have hmem : last ∈ response.data := List.mem_of_getLast? hlast
    have hsome : response.data ≠ [] := List.ne_nil_of_mem hmem
    have hlastGiven := hgiven last hmem
    show (f last).member field = (g last).member field ↔ _
    by_cases hF : keepsF <;> by_cases hG : keepsG
    · rw [(hf last).1 hF, (hg last).1 hG]
      exact ⟨fun _ => .inr ⟨fun _ => hG, fun _ => hF⟩, fun _ => rfl⟩
    · rw [(hf last).1 hF, (hg last).2 hG]
      exact ⟨fun h => absurd h hlastGiven, fun h => absurd (h.resolve_left hsome) fun h => hG (h.mp hF)⟩
    · rw [(hf last).2 hF, (hg last).1 hG]
      exact ⟨fun h => absurd h.symm hlastGiven,
        fun h => absurd (h.resolve_left hsome) fun h => hF (h.mpr hG)⟩
    · rw [(hf last).2 hF, (hg last).2 hG]
      exact ⟨fun _ => .inr ⟨fun h => absurd h hF, fun h => absurd h hG⟩, fun _ => rfl⟩

end CursorResponse

/-! ## windows -/

namespace Store

variable {s : Store} {config : Config} {r : Request} {field : String} {shown : Value → Value}

theorem mapM_project_null (rows : List Value) : rows.mapM (project .null) = .ok (rows.map id) :=
  Outcome.mapM_of_forall fun _ _ => rfl

theorem find_shown (hshown : ∀ row, project r.projection row = .ok (shown row)) (window : Window) :
    s.find (r.cursorPlan config window)
      = (s.find (({ r with projection := .null } : Request).cursorPlan config window)).map
          (List.map shown) := by
  rw [find_eq, find_eq]
  show (s.arranged (r.cursorPlan config window) >>= _)
    = (s.arranged (r.cursorPlan config window) >>= _ : Outcome (List Value)).map _
  cases s.arranged (r.cursorPlan config window) with
  | error e => rfl
  | ok ordered =>
    show (Store.window window ordered >>= fun rows => rows.mapM (project r.projection))
      = (Store.window window ordered >>= fun rows => rows.mapM (project .null)).map _
    cases Store.window window ordered with
    | error e => rfl
    | ok rows =>
      have hprojected : rows.mapM (project r.projection) = .ok (rows.map shown) :=
        Outcome.mapM_of_forall fun row _ => hshown row
      rw [Outcome.ok_bind, Outcome.ok_bind, hprojected, mapM_project_null, List.map_id]
      rfl

/-- a window of shown rows is the window of whole rows, seen through the projection -/
theorem answerWindow_shown (hr : r.Resolved) (hfield : Plan.cursorField config r = .str field)
    (hshown : ∀ row, project r.projection row = .ok (shown row)) :
    s.answerWindow config r
      = (s.answerWindow config { r with projection := .null }).map
          (CursorResponse.through shown field) := by
  have hwhole : ({ r with projection := .null } : Request).Resolved := hr.withProjection .null
  rw [answerWindow_eq hr, answerWindow_eq hwhole]
  show (normalizeLimit (.ofInt? r.limit) config.defaultLimit config.maxLimit >>= _)
    = (normalizeLimit (.ofInt? r.limit) config.defaultLimit config.maxLimit >>= _).map _
  cases normalizeLimit (.ofInt? r.limit) config.defaultLimit config.maxLimit with
  | error e => rfl
  | ok limit =>
    show (Window.atCursor r.cursor limit (Plan.cursorField config r) >>= _)
      = (Window.atCursor r.cursor limit (Plan.cursorField config r) >>= _ : Outcome CursorResponse).map _
    cases Window.atCursor r.cursor limit (Plan.cursorField config r) with
    | error e => rfl
    | ok window =>
      rw [Outcome.ok_bind, Outcome.ok_bind, find_shown hshown]
      cases s.find (({ r with projection := .null } : Request).cursorPlan config window) with
      | error e => rfl
      | ok rows =>
        show ((window.take.orElse (.int 1)).sub (.int 1) >>= _)
          = ((window.take.orElse (.int 1)).sub (.int 1) >>= _ : Outcome CursorResponse).map _
        cases (window.take.orElse (.int 1)).sub (.int 1) with
        | error e => rfl
        | ok limit =>
          show CursorResponse.shape (.list (rows.map shown)) limit (Plan.cursorField config r)
            = (CursorResponse.shape (.list rows) limit (Plan.cursorField config r)).map _
          rw [hfield, CursorResponse.shape_map]

theorem answerWindow_shows (hr : r.Resolved) {response : CursorResponse}
    (h : s.answerWindow config { r with projection := .null } = .ok response) :
    (∃ rows, s.matching (.ofText? r.model) r.tree = .ok rows ∧ ∀ row ∈ response.data, row ∈ rows) ∧
      (response.hasMore = true → response.data ≠ []) := by
  rw [answerWindow_eq (hr.withProjection .null)] at h
  obtain ⟨_, _, h⟩ := Outcome.bind_eq_ok.mp h
  obtain ⟨window, _, h⟩ := Outcome.bind_eq_ok.mp h
  obtain ⟨found, hfind, h⟩ := Outcome.bind_eq_ok.mp h
  obtain ⟨limit, _, h⟩ := Outcome.bind_eq_ok.mp h
  obtain ⟨page, hpage, h⟩ := Outcome.bind_eq_ok.mp h
  obtain ⟨_, _, h⟩ := Outcome.bind_eq_ok.mp h
  cases h
  rw [find_eq] at hfind
  obtain ⟨ordered, harranged, hfind⟩ := Outcome.bind_eq_ok.mp hfind
  obtain ⟨rows, hrows, hsorted⟩ := Outcome.bind_eq_ok.mp harranged
  obtain ⟨cut, hcut, hfind⟩ := Outcome.bind_eq_ok.mp hfind
  have hfound : cut.map id = found := Except.ok.inj ((mapM_project_null cut).symm.trans hfind)
  rw [List.map_id] at hfound
  subst hfound
  obtain ⟨hdata, hmore⟩ := CursorPage.ofRows_shows hpage
  refine ⟨⟨rows, hrows, fun row hrow => ?_⟩, hmore⟩
  exact (sortRows_perm hsorted).mem_iff.mp (mem_of_window hcut row (hdata row hrow))

end Store

/-- Two projections of the same rows change nothing about a window but what its rows show and the
cursor: it has the same number of rows, the same limit, and there are more behind both or behind
neither.  They go on from the same place if both or neither keep the cursor field; a projection
without it loses the place, though there are more. -/
theorem Builder.projected_cursor {S : Type} (store : S → Store) (w : Logged S) (config : Config)
    (r : Request) (field : String) (hresolved : r.Resolved)
    (hfield : Plan.cursorField config r = .str field)
    (hgiven : ∀ rows, (store w.state).matching (.ofText? r.model) r.tree = .ok rows →
      ∀ row ∈ rows, row.member field ≠ .null)
    (p q : Value) (hp : Store.Accepts p) (hq : Store.Accepts q) :
    let run (projection : Value) : Outcome CursorResponse :=
      (((base config (.ofStore store)).cursorQuery { r with projection := projection }).runOn w).1
    Outcome.Alike (fun a b => a.hasMore = b.hasMore ∧ a.limit = b.limit ∧
        a.data.length = b.data.length ∧
        (a.nextCursor = b.nextCursor ↔
          a.data = [] ∨ (Store.Keeps p field ↔ Store.Keeps q field))) (run p) (run q) ∧
      ∀ response, run p = .ok response → response.hasMore = true →
        ∃ whole last, run .null = .ok whole ∧ whole.data.getLast? = some last ∧
          last.member field ≠ .null ∧
          (Store.Keeps p field → response.nextCursor = last.member field) ∧
          (¬ Store.Keeps p field → response.nextCursor = .null) := by
  intro run
  obtain ⟨shownP, hshownP⟩ := Classical.axiomOfChoice (Store.project_accepted hp field)
  obtain ⟨shownQ, hshownQ⟩ := Classical.axiomOfChoice (Store.project_accepted hq field)
  have hrun (projection : Value) : run projection
      = (store w.state).answerWindow config { r with projection := projection } :=
    (base_cursorQuery store config { r with projection := projection } w).1
  have hpeq : run p = (run .null).map (CursorResponse.through shownP field) := by
    rw [hrun, hrun]
    exact Store.answerWindow_shown (hresolved.withProjection p) hfield fun row => (hshownP row).1
  have hqeq : run q = (run .null).map (CursorResponse.through shownQ field) := by
    rw [hrun, hrun]
    exact Store.answerWindow_shown (hresolved.withProjection q) hfield fun row => (hshownQ row).1
  cases hwhole : run .null with
  | error e =>
    rw [hwhole] at hpeq hqeq
    rw [hpeq, hqeq]
    exact ⟨.error e, fun _ h => by cases h⟩
  | ok whole =>
    rw [hwhole] at hpeq hqeq
    rw [hpeq, hqeq]
    obtain ⟨⟨rows, hrows, hdata⟩, hmore⟩ := Store.answerWindow_shows hresolved
      ((hrun .null).symm.trans hwhole)
    have hrowsGiven : ∀ row ∈ whole.data, row.member field ≠ .null :=
      fun row hrow => hgiven rows hrows row (hdata row hrow)
    refine ⟨.ok ⟨rfl, rfl, ?_, ?_⟩, ?_⟩
    · show (whole.data.map shownP).length = (whole.data.map shownQ).length
      rw [List.length_map, List.length_map]
    · show _ ↔ whole.data.map shownP = [] ∨ _
      rw [List.map_eq_nil_iff]
      exact CursorResponse.through_nextCursor_iff (fun row => (hshownP row).2)
        (fun row => (hshownQ row).2) hrowsGiven
    · intro response hresponse hbeyond
      cases hresponse
      obtain ⟨last, hlast⟩ : ∃ last, whole.data.getLast? = some last :=
        ⟨_, List.getLast?_eq_some_getLast (hmore hbeyond)⟩
      have hcursor : (whole.through shownP field).nextCursor = (shownP last).member field := by
        show (whole.data.getLast?.map _).getD _ = _
        rw [hlast]
        rfl
      refine ⟨whole, last, rfl, hlast, hrowsGiven last (List.mem_of_getLast? hlast), ?_, ?_⟩
      · exact fun hkeeps => hcursor.trans ((hshownP last).2.1 hkeeps)
      · exact fun hkeeps => hcursor.trans ((hshownP last).2.2 hkeeps)

/-- rows by their names and their marks: both projections keep the mark, a list or a mapping -/
theorem Builder.projected_cursor_kept :
    let rows : List Value :=
      [.record [("id", .int 1), ("n", .str "a")], .record [("id", .int 2), ("n", .str "b")]]
    let r : Request :=
      { model := some "m", limit := some 1, sortBy := some "id", sortOrder := some .asc }
    let p : Value := .record [("select", .list [.str "id"])]
    let q : Value := .record [("select", .record [("n", .bool true), ("id", .int 1)])]
    let w : Logged Store := ⟨⟨[(.str "m", rows)]⟩, []⟩
    let run (projection : Value) : Outcome CursorResponse :=
      (((base {} (.ofStore id)).cursorQuery { r with projection := projection }).runOn w).1
    ∃ a b, run p = .ok a ∧ run q = .ok b ∧ a.data = [.record [("id", .int 1)]] ∧
      b.data = [.record [("n", .str "a"), ("id", .int 1)]] ∧ a.hasMore = true ∧ b.hasMore = true ∧
      a.nextCursor = b.nextCursor ∧ a.nextCursor = .int 1 := by
  intro rows r p q w run
  have hresolved : r.Resolved := by
    constructor <;> exact fun _ h => absurd h List.not_mem_nil
  have hgiven : ∀ found, w.state.matching (.ofText? r.model) r.tree = .ok found →
      ∀ row ∈ found, row.member "id" ≠ .null := by
    intro found hfound
    have hrows : w.state.matching (.ofText? r.model) r.tree = .ok rows := rfl
    cases hrows.symm.trans hfound
    simp only [rows, List.forall_mem_cons]
    exact ⟨nofun, nofun, fun _ h => absurd h List.not_mem_nil⟩
  have hp : Store.Keeps p "id" := by
    intro selection h
    cases h
    exact ⟨["id"], rfl, List.mem_singleton_self _⟩
  have hq : Store.Keeps q "id" := by
    intro selection h
    cases h
    exact ⟨["n", "id"], rfl, by decide⟩
  obtain ⟨halike, hlast⟩ := projected_cursor id w {} r "id" hresolved rfl hgiven p q
    hp.accepts hq.accepts
  obtain ⟨whole, last, hwhole, hwholeLast, -, hcursor, -⟩ := hlast _ rfl rfl
  cases hwhole
  cases hwholeLast
  refine ⟨_, _, rfl, rfl, rfl, rfl, rfl, rfl, ?_, hcursor hp⟩
  cases halike with
  | ok h => exact h.2.2.2.mpr (.inr ⟨fun _ => hq, fun _ => hp⟩)

/-- a selection without the cursor field loses the place: there are more rows, but the request to
follow is the one just answered -/
theorem Builder.projected_cursor_lost :
    let rows : List Value :=
      [.record [("id", .int 1), ("n", .str "a")], .record [("id", .int 2), ("n", .str "b")]]
    let r : Request :=
      { model := some "m", limit := some 1, sortBy := some "id", sortOrder := some .asc }
    let names : Request := { r with projection := .record [("select", .list [.str "n"])] }
    let w : Logged Store := ⟨⟨[(.str "m", rows)]⟩, []⟩
    let run (r : Request) : Outcome CursorResponse :=
      (((base {} (.ofStore id)).cursorQuery r).runOn w).1
    Marks "id" rows ∧ ∃ response whole, run names = .ok response ∧ run r = .ok whole ∧
      response.hasMore = true ∧ whole.hasMore = true ∧ whole.nextCursor = .int 1 ∧
      response.nextCursor = .null ∧
      names.merged (.record [("cursor", response.nextCursor)]) = .ok names := by
  intro rows r names w run
  have hmarks : Marks "id" rows := by
    refine ⟨?_, ?_, ?_⟩
    · simp only [rows, List.forall_mem_cons]
      exact ⟨⟨rfl, rfl⟩, ⟨rfl, rfl⟩, fun _ h => absurd h List.not_mem_nil⟩
    · simp only [rows, List.forall_mem_cons]
      exact ⟨rfl, rfl, fun _ h => absurd h List.not_mem_nil⟩
    · simp only [rows, List.pairwise_cons, List.forall_mem_cons]
      exact ⟨⟨⟨rfl, rfl⟩, fun _ h => absurd h List.not_mem_nil⟩,
        fun _ h => absurd h List.not_mem_nil, .nil⟩
  have hresolved : names.Resolved := by
    constructor <;> exact fun _ h => absurd h List.not_mem_nil
  exact ⟨hmarks, _, _, rfl, rfl, rfl, rfl, rfl, rfl, Request.merged_cursor hresolved .null⟩

end ListQuery
