import ListQuery.Proofs.Answers
import ListQuery.Proofs.Collection.Order
import ListQuery.Proofs.Collection.Window
import ListQuery.Proofs.Predicate.Normal

/-!
# Cursor walks

A walk asks for one window after the other, each behind the last row of the one before.  When the
cursor field tells the rows apart, the windows together show every row once, in order.

* `windowsFor`             how many windows a walk takes;
* `Store.Walkable`         rows in order, told apart by a field that every window shows;
* `Walkable.window_last`, `window_next`
                           the window after the rows served so far;
* `Walkable.walk`          the windows from there to the end;
* `Builder.walk_complete`  a walk from the first row on.
-/

namespace ListQuery

/-! ## how many windows -/

/-- how many windows of `limit` rows show `n` rows; one is shown even if there are none -/
def windowsFor (limit n : Nat) : Nat := max 1 ((n + limit - 1) / limit)

theorem windowsFor_within {limit n : Nat} (hlimit : 1 ≤ limit) (h : n ≤ limit) :
    windowsFor limit n = 1 := by
  have hle : (n + limit - 1) / limit ≤ 1 := by
    rw [Nat.div_le_iff_le_mul_add_pred (by omega)]
    omega
  unfold windowsFor
  omega

theorem windowsFor_beyond {limit n : Nat} (hlimit : 1 ≤ limit) (h : limit < n) :
    windowsFor limit n = windowsFor limit (n - limit) + 1 := by
  have hsplit : n + limit - 1 = (n - limit + limit - 1) + limit := by omega
  have hdiv : (n + limit - 1) / limit = (n - limit + limit - 1) / limit + 1 := by
    rw [hsplit, Nat.add_div_right _ (by omega)]
  have hpos : 1 ≤ (n - limit + limit - 1) / limit :=
    (Nat.le_div_iff_mul_le (by omega)).mpr (by omega)
  unfold windowsFor
  omega

/-! ## windows -/

/-- the rows of a request in order, told apart by a field that every window shows -/
structure Store.Walkable (s : Store) (config : Config) (r : Request) (limit : Nat) (field : String)
    (ordered : List Value) : Prop where
  resolved : r.Resolved
  positive : 1 ≤ limit
  size : normalizeLimit (.ofInt? r.limit) config.defaultLimit config.maxLimit = .ok (.int limit)
  marked : Plan.cursorField config r = .str field
  arranged : (s.matching (.ofText? r.model) r.tree >>= sortRows (Plan.cursorOrder config r))
    = .ok ordered
  marks : Marks field ordered
  keeps : Store.Keeps r.projection field

def Request.cursorPlan (config : Config) (r : Request) (window : Window) : Plan where
  model := .ofText? r.model
  predicate := r.tree
  orderBy := Plan.cursorOrder config r
  window := window
  projection := r.projection

theorem Store.answerWindow_compiled {s : Store} {config : Config} {r : Request} {p : Predicate}
    (hp : r.predicate = .ok p) :
    s.answerWindow config r = (do
      let limit ← normalizeLimit (.ofInt? r.limit) config.defaultLimit config.maxLimit
      let window ← Window.atCursor r.cursor limit (Plan.cursorField config r)
      let rows ← s.find { r.cursorPlan config window with predicate := p }
      let limit ← (window.take.orElse (.int 1)).sub (.int 1)
      CursorResponse.shape (.list rows) limit (Plan.cursorField config r)) := by
  unfold answerWindow Plan.ofCursor
  rw [hp]
  show ((normalizeLimit (.ofInt? r.limit) config.defaultLimit config.maxLimit >>= _) >>= _) = _
  cases normalizeLimit (.ofInt? r.limit) config.defaultLimit config.maxLimit with
  | error e => rfl
  | ok limit =>
    show ((Window.atCursor r.cursor limit (Plan.cursorField config r) >>= _) >>= _) = _
    rw [Outcome.ok_bind]
    cases Window.atCursor r.cursor limit (Plan.cursorField config r) with
    | error e => rfl
    | ok window =>
      let plan := { r.cursorPlan config window with predicate := p }
      have hclean : plan.predicate.clean = true := Request.predicate_clean hp
      obtain ⟨entry, hentry⟩ := Plan.announcement_ok "cursor" hclean
      show (plan.announcement "cursor" >>= _) = _
      rw [hentry]
      rfl

theorem Store.answerWindow_eq {s : Store} {config : Config} {r : Request} (hr : r.Resolved) :
    s.answerWindow config r = (do
      let limit ← normalizeLimit (.ofInt? r.limit) config.defaultLimit config.maxLimit
      let window ← Window.atCursor r.cursor limit (Plan.cursorField config r)
      let rows ← s.find (r.cursorPlan config window)
      let limit ← (window.take.orElse (.int 1)).sub (.int 1)
      CursorResponse.shape (.list rows) limit (Plan.cursorField config r)) :=
  answerWindow_compiled (Request.predicate_eq_tree hr)

namespace Store.Walkable

variable {s : Store} {config : Config} {r : Request} {limit : Nat} {field : String}
  {ordered served rest : List Value} {cursor : Value}

theorem find_window (walk : s.Walkable config r limit field ordered) {window : Window}
    {rows : List Value} (hrows : Store.window window ordered = .ok rows) :
    s.find (r.cursorPlan config window) = rows.mapM (project r.projection) := by
  have harranged : s.arranged (r.cursorPlan config window) = .ok ordered := walk.arranged
  rw [find_eq, harranged, Outcome.ok_bind]
  show (Store.window window ordered >>= _) = _
  rw [hrows, Outcome.ok_bind]
  rfl

/-- the window of a cursor shows the first of the rows that are left, and looks at one more -/
theorem answerWindow_eq (walk : s.Walkable config r limit field (served ++ rest))
    (hserved : Served field cursor served) {shown : Value → Value}
    (hshown : ∀ row, project r.projection row = .ok (shown row)) :
    s.answerWindow config { r with cursor := cursor }
      = CursorResponse.shape (.list ((rest.take (limit + 1)).map shown)) (.int limit) (.str field) := by
  obtain ⟨window, hwindow, htake, hrows⟩ := window_served limit walk.marks hserved
  have hfind : s.find (r.cursorPlan config window) = .ok ((rest.take (limit + 1)).map shown) := by
    rw [walk.find_window hrows]
    exact Outcome.mapM_of_forall fun row _ => hshown row
  have hlimit : (window.take.orElse (.int 1)).sub (.int 1) = .ok (.int limit) := by
    rw [htake]
    have hpos : (Value.int (limit + 1 : Nat)).truthy = true := by
      rw [Value.truthy, decide_eq_true_eq]
      omega
    have hint : ((limit + 1 : Nat) : Int) - 1 = limit := by omega
    rw [Value.orElse, if_pos hpos]
    show Except.ok (Value.int (((limit + 1 : Nat) : Int) - 1)) = _
    rw [hint]
  rw [Store.answerWindow_eq (walk.resolved.withCursor cursor)]
  show (normalizeLimit (.ofInt? r.limit) config.defaultLimit config.maxLimit >>= _) = _
  rw [walk.size, Outcome.ok_bind]
  show (Window.atCursor cursor (.int limit) (Plan.cursorField config r) >>= _) = _
  rw [walk.marked, hwindow, Outcome.ok_bind]
  show (s.find (r.cursorPlan config window) >>= _) = _
  rw [hfind, Outcome.ok_bind, hlimit, Outcome.ok_bind]
  exact congrArg (CursorResponse.shape _ _) walk.marked

/-- the last window shows all that is left -/
theorem window_last (walk : s.Walkable config r limit field (served ++ rest))
    (hserved : Served field cursor served) {shown : Value → Value}
    (hshown : ∀ row, project r.projection row = .ok (shown row)) (h : rest.length ≤ limit) :
    ∃ next, s.answerWindow config { r with cursor := cursor }
      = .ok ⟨rest.map shown, next, false, limit⟩ := by
  have htake : rest.take (limit + 1) = rest := List.take_of_length_le (by omega)
  have hlength : (rest.map shown).length ≤ limit := by rw [List.length_map]; exact h
  obtain ⟨next, hnext⟩ : ∃ next, CursorPage.ofRows (.list (rest.map shown)) (.int limit) (.str field)
      = .ok ⟨rest.map shown, false, next⟩ := CursorPage.ofRows_within hlength
  refine ⟨next, ?_⟩
  rw [walk.answerWindow_eq hserved hshown, htake, CursorResponse.shape, hnext]
  rfl

/-- any other window shows as many rows as it may, and goes on behind the last of them -/
theorem window_next {earlier : List Value} {last : Value}
    (walk : s.Walkable config r limit field (served ++ rest))
    (hserved : Served field cursor served) {shown : Value → Value}
    (hshown : ∀ row, project r.projection row = .ok (shown row))
    (hmember : ∀ row, (shown row).member field = row.member field)
    (h : limit < rest.length) (hlast : rest.take limit = earlier ++ [last]) :
    s.answerWindow config { r with cursor := cursor }
      = .ok ⟨(rest.take limit).map shown, last.member field, true, limit⟩ := by
  have hlength : limit < ((rest.take (limit + 1)).map shown).length := by
    rw [List.length_map, List.length_take]
    omega
  have htake : ((rest.take (limit + 1)).map shown).take limit = earlier.map shown ++ [shown last] := by
    rw [← List.map_take, List.take_take, Nat.min_eq_left (by omega), hlast, List.map_append]
    rfl
  rw [walk.answerWindow_eq hserved hshown, CursorResponse.shape,
    CursorPage.ofRows_beyond hlength htake, hmember, hlast, List.map_append]
  rfl

/-! ## walks -/

/-- from the rows served so far, a walk shows the others in turn and then ends -/
theorem walk (walk : s.Walkable config r limit field (served ++ rest))
    (hserved : Served field cursor served) {shown : Value → Value}
    (hshown : ∀ row, project r.projection row = .ok (shown row))
    (hmember : ∀ row, (shown row).member field = row.member field)
    {windows : Nat} (hwindows : windowsFor limit rest.length ≤ windows) :
    ∃ pages, s.answerWalk config windows { r with cursor := cursor } = .ok pages ∧
      pages.flatMap (·.data) = rest.map shown ∧
      pages.map (·.hasMore) = List.replicate (windowsFor limit rest.length - 1) true ++ [false] := by
  induction windows generalizing served rest cursor with
  | zero =>
    have hpos : 1 ≤ windowsFor limit rest.length := Nat.le_max_left ..
    omega
  | succ windows ih =>
    rcases Nat.lt_or_ge limit rest.length with hbeyond | hwithin
    · have hpositive := walk.positive
      have htake : (rest.take limit).length = limit := by rw [List.length_take]; omega
      obtain ⟨earlier, last, hlast⟩ : ∃ earlier last, rest.take limit = earlier ++ [last] := by
        have hne : rest.take limit ≠ [] := by
          intro hnil
          rw [hnil, List.length_nil] at htake
          omega
        exact ⟨_, _, (List.dropLast_concat_getLast hne).symm⟩
      have hwindow := walk.window_next hserved hshown hmember hbeyond hlast
      have hcount := windowsFor_beyond hpositive hbeyond
      have hdrop : (rest.drop limit).length = rest.length - limit := List.length_drop
      have hsplit : served ++ rest = (served ++ earlier ++ [last]) ++ rest.drop limit := by
        rw [List.append_assoc served, ← hlast, List.append_assoc, List.take_append_drop]
      have hnext : Served field (last.member field) (served ++ earlier ++ [last]) :=
        .upTo (served ++ earlier) last
      rw [hsplit] at walk
      obtain ⟨pages, hpages, hdata, hmore⟩ := ih walk hnext (by rw [hdrop]; omega)
      have hmerged : ({ r with cursor := cursor } : Request).merged
          (.record [("cursor", last.member field)]) = .ok { r with cursor := last.member field } :=
        Request.merged_cursor (walk.resolved.withCursor cursor) _
      refine ⟨⟨(rest.take limit).map shown, last.member field, true, limit⟩ :: pages, ?_, ?_, ?_⟩
      · unfold answerWalk
        rw [hwindow, Outcome.ok_bind, if_pos rfl, hmerged, Outcome.ok_bind, hpages]
        rfl
      · rw [List.flatMap_cons, hdata, ← List.map_append, List.take_append_drop]
      · rw [List.map_cons, hmore, hdrop, hcount]
        have hpos : 1 ≤ windowsFor limit (rest.length - limit) := Nat.le_max_left ..
        obtain ⟨k, hk⟩ : ∃ k, windowsFor limit (rest.length - limit) = k + 1 :=
          ⟨_, (Nat.sub_add_cancel hpos).symm⟩
        rw [hk]
        rfl
    · obtain ⟨next, hwindow⟩ := walk.window_last hserved hshown hwithin
      refine ⟨[⟨rest.map shown, next, false, limit⟩], ?_, ?_, ?_⟩
      · unfold answerWalk
        rw [hwindow]
        rfl
      · exact List.append_nil _
      · rw [windowsFor_within walk.positive hwithin]
        rfl

end Store.Walkable

/-- A walk from the first row on asks for exactly as many windows as the rows fill.  Together the
windows show what the same plan without a window would, and only the last says that there is no
more. -/
theorem Builder.walk_complete {S : Type} (store : S → Store) (w : Logged S) (config : Config)
    (r : Request) (default most : Int) (field : String) (hresolved : r.Resolved)
    (hcursor : r.cursor = .null)
    (hdefault : config.defaultLimit = .int default) (hmost : config.maxLimit = .int most)
    (hpos : 1 ≤ most) (hfield : Plan.cursorField config r = .str field)
    (hkeeps : Store.Keeps r.projection field) :
    ∃ plan, Plan.ofCursor config r .null = .ok plan ∧ ∀ rows ordered,
      (store w.state).matching plan.model plan.predicate = .ok rows →
      sortRows plan.orderBy rows = .ok ordered → Marks field rows →
      ∃ result, (store w.state).find plan.whole = .ok result ∧
        ∀ windows, windowsFor (pageSize r.limit default most).toNat rows.length ≤ windows →
          ∃ pages, (((base config (.ofStore store)).walk windows r).runOn w).1 = .ok pages ∧
            pages.flatMap (·.data) = result ∧
            pages.length = windowsFor (pageSize r.limit default most).toNat rows.length ∧
            pages.map (·.hasMore) = List.replicate (pages.length - 1) true ++ [false] := by
  have hr : ({ r with cursor := .null } : Request) = r := by rw [← hcursor]
  have hsize := normalizeLimit_ofInt? r.limit default most
  have hpositive := pageSize_pos r.limit default hpos
  obtain ⟨limit, hlimit⟩ : ∃ limit : Nat, pageSize r.limit default most = limit :=
    ⟨_, (Int.toNat_of_nonneg (by omega)).symm⟩
  rw [hlimit] at hsize hpositive
  rw [hlimit, Int.toNat_natCast]
  have hplan : Plan.ofCursor config r .null
      = .ok (r.cursorPlan config { take := .int (limit + 1 : Nat), skip := .int 0 }) := by
    unfold Plan.ofCursor
    rw [Request.predicate_eq_tree hresolved, hcursor, hfield, hdefault, hmost]
    show (normalizeLimit (.ofInt? r.limit) (.int default) (.int most) >>= _) = _
    rw [hsize]
    rfl
  refine ⟨_, hplan, ?_⟩
  intro rows ordered hrows hordered hmarks
  have hperm := sortRows_perm hordered
  have walk : (store w.state).Walkable config r limit field ([] ++ ordered) :=
    { resolved := hresolved
      positive := by omega
      size := by rw [hdefault, hmost]; exact hsize
      marked := hfield
      arranged := by
        show ((store w.state).matching (.ofText? r.model) r.tree >>= _) = _
        rw [show (store w.state).matching (.ofText? r.model) r.tree = .ok rows from hrows]
        exact hordered
      marks := hmarks.perm hperm
      keeps := hkeeps }
  obtain ⟨shown, hproject⟩ := Classical.axiomOfChoice (Store.project_keeps hkeeps)
  have hshown : ∀ row, Store.project r.projection row = .ok (shown row) := fun row => (hproject row).1
  have hmember : ∀ row, (shown row).member field = row.member field := fun row => (hproject row).2
  refine ⟨ordered.map shown, ?_, ?_⟩
  · have harranged : (store w.state).arranged (r.cursorPlan config
        { take := .int (limit + 1 : Nat), skip := .int 0 }) = .ok ordered := walk.arranged
    rw [Store.find_whole, harranged, Outcome.ok_bind]
    exact Outcome.mapM_of_forall fun row _ => hshown row
  · intro windows hwindows
    rw [← hperm.length_eq] at hwindows ⊢
    obtain ⟨pages, hpages, hdata, hmore⟩ := walk.walk .start hshown hmember hwindows
    have hcount : pages.length = windowsFor limit ordered.length := by
      have hpos : 1 ≤ windowsFor limit ordered.length := Nat.le_max_left ..
      have hlength := congrArg List.length hmore
      rw [List.length_map, List.length_append, List.length_replicate, List.length_singleton] at hlength
      omega
    refine ⟨pages, ?_, hdata, hcount, ?_⟩
    · rw [hr] at hpages
      exact (base_walk store config windows r w).1.trans hpages
    · rw [hcount, hmore]

/-- three rows in windows of two -/
theorem Builder.walk_three :
    let rows : List Value :=
      [.record [("id", .int 2)], .record [("id", .int 3)], .record [("id", .int 1)]]
    let r : Request :=
      { model := some "m", limit := some 2, sortBy := some "id", sortOrder := some .asc }
    let w : Logged Store := ⟨⟨[(.str "m", rows)]⟩, []⟩
    ∃ pages, (((base {} (.ofStore id)).walk 2 r).runOn w).1 = .ok pages ∧
      pages.flatMap (·.data)
        = [.record [("id", .int 1)], .record [("id", .int 2)], .record [("id", .int 3)]] ∧
      pages.length = 2 ∧ pages.map (·.hasMore) = [true, false] := by
  intro rows r w
  have hresolved : r.Resolved := by
    constructor <;> exact fun _ h => absurd h List.not_mem_nil
  have hmarks : Marks "id" rows := by
    refine ⟨?_, ?_, ?_⟩
    · simp only [rows, List.forall_mem_cons]
      exact ⟨⟨rfl, rfl⟩, ⟨rfl, rfl⟩, ⟨rfl, rfl⟩, fun _ h => absurd h List.not_mem_nil⟩
    · simp only [rows, List.forall_mem_cons]
      exact ⟨rfl, rfl, rfl, fun _ h => absurd h List.not_mem_nil⟩
    · simp only [rows, List.pairwise_cons, List.forall_mem_cons]
      exact ⟨⟨⟨rfl, rfl⟩, ⟨rfl, rfl⟩, fun _ h => absurd h List.not_mem_nil⟩,
        ⟨⟨rfl, rfl⟩, fun _ h => absurd h List.not_mem_nil⟩,
        fun _ h => absurd h List.not_mem_nil, .nil⟩
  obtain ⟨plan, hplan, hwalk⟩ := walk_complete id w {} r 10 100 "id" hresolved rfl rfl rfl
    (by decide) rfl (fun _ h => by cases h)
  cases hplan
  obtain ⟨result, hresult, hpages⟩ := hwalk rows
    [.record [("id", .int 1)], .record [("id", .int 2)], .record [("id", .int 3)]] rfl rfl hmarks
  cases hresult
  have hcount : windowsFor (pageSize r.limit 10 100).toNat rows.length = 2 := by decide
  rw [hcount] at hpages
  obtain ⟨pages, hrun, hdata, hlength, hmore⟩ := hpages 2 (Nat.le_refl 2)
  refine ⟨pages, hrun, hdata, hlength, ?_⟩
  rw [hmore, hlength]
  rfl

/-- a row whose mark does not equal itself is not found again: the walk ends behind it, although
its marks are all given and no two of them are equal -/
theorem Builder.walk_ends_at_nan :
    let rows : List Value := [.record [("id", .float (.nan 0))], .record [("id", .int 1)]]
    let r : Request :=
      { model := some "m", limit := some 1, sortBy := some "id", sortOrder := some .asc }
    let w : Logged Store := ⟨⟨[(.str "m", rows)]⟩, []⟩
    (∀ row ∈ rows, (row.member "id").isNull = false ∧ (row.member "id").equals (.str "") = false) ∧
    (rows.Pairwise fun a b => (a.member "id").equals (b.member "id") = false ∧
      (b.member "id").equals (a.member "id") = false) ∧
    ∃ plan pages, Plan.ofCursor {} r .null = .ok plan ∧ w.state.find plan.whole = .ok rows ∧
      (((base {} (.ofStore id)).walk (windowsFor 1 2) r).runOn w).1 = .ok pages ∧
      pages.map (·.hasMore) = [true, false] ∧ pages.flatMap (·.data) ≠ rows := by
  intro rows r w
  refine ⟨?_, ?_, _, _, rfl, rfl, rfl, rfl, ?_⟩
  · simp only [rows, List.forall_mem_cons]
    exact ⟨⟨rfl, rfl⟩, ⟨rfl, rfl⟩, fun _ h => absurd h List.not_mem_nil⟩
  · simp only [rows, List.pairwise_cons, List.forall_mem_cons]
    exact ⟨⟨⟨rfl, rfl⟩, fun _ h => absurd h List.not_mem_nil⟩,
      fun _ h => absurd h List.not_mem_nil, .nil⟩
  · intro h
    have hlength := congrArg List.length h
    cases hlength

end ListQuery
