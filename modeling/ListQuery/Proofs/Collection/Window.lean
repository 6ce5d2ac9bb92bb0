import ListQuery.Collection.Store
import ListQuery.Proofs.Value.Integers

/-!
# Windows and projections of rows

A window that starts behind an anchor cuts the rows right behind it, when no row before it has the
anchor's value.  A projection that keeps a field shows it as it is in the row.

* `Plan.whole`             a plan without its window;
* `Store.find_eq`          the answer of a plan from its rows in order;
* `Marks`                  a field that tells the rows apart;
* `Served`                 the rows that a cursor leaves behind;
* `Store.window_served`    the window of a cursor;
* `Store.Keeps`            a projection that keeps a field;
* `Store.project_keeps`    the field in the projected row;
* `CursorPage.ofRows_…`    the rows shown, and the cursor to go on from.
-/

namespace ListQuery

def Plan.whole (p : Plan) : Plan := { p with window := {} }

namespace Store

/-- the rows of a plan in order, before its window is cut -/
def arranged (s : Store) (p : Plan) : Outcome (List Value) := do
  sortRows p.orderBy (← s.matching p.model p.predicate)

theorem find_eq (s : Store) (p : Plan) :
    s.find p = (s.arranged p >>= fun rows => window p.window rows >>= fun shown =>
      shown.mapM (project p.projection)) := by
  unfold find arranged
  rw [bind_assoc]

theorem find_whole (s : Store) (p : Plan) :
    s.find p.whole = (s.arranged p >>= fun rows => rows.mapM (project p.projection)) := by
  rw [find_eq]
  rfl

end Store

/-! ## anchors -/

/-- the field's values in the rows are given, equal to themselves and to no other row's -/
structure Marks (field : String) (rows : List Value) : Prop where
  given : ∀ row ∈ rows,
    (row.member field).isNull = false ∧ (row.member field).equals (.str "") = false
  reflexive : ∀ row ∈ rows, (row.member field).equals (row.member field) = true
  unequal : rows.Pairwise fun a b =>
    (a.member field).equals (b.member field) = false ∧
      (b.member field).equals (a.member field) = false

theorem Marks.perm {field : String} {rows sorted : List Value} (h : Marks field rows)
    (hperm : sorted.Perm rows) : Marks field sorted where
  given row hrow := h.given row (hperm.mem_iff.mp hrow)
  reflexive row hrow := h.reflexive row (hperm.mem_iff.mp hrow)
  unequal := by
    refine (hperm.pairwise_iff ?_).mpr h.unequal
    intro a b hab
    exact ⟨hab.2, hab.1⟩

/-- the rows that a cursor leaves behind: none at the start, else those up to its anchor -/
inductive Served (field : String) : Value → List Value → Prop
  | start : Served field .null []
  | upTo (earlier : List Value) (anchor : Value) :
      Served field (anchor.member field) (earlier ++ [anchor])

namespace Store

theorem window_start (n : Nat) (rows : List Value) :
    window { take := .int n, skip := .int 0 } rows = .ok (rows.take n) := by
  show Except.ok (Value.takeTo (some (n : Int)) rows) = _
  rw [Value.takeTo_nat]

theorem fromAnchor?_record (field : String) (v : Value) (rows : List Value) :
    fromAnchor? (.record [(field, v)]) rows =
      .ok (match rows.dropWhile fun row => !(row.member field).equals v with
        | [] => none
        | found => some found) := by
  show (match rows.dropWhile fun row => !(row.member field).equals v with
    | [] => (Except.ok none : Outcome (Option (List Value)))
    | found => .ok (some found)) = _
  split <;> rfl

theorem window_anchor {field : String} {v anchor : Value} {earlier rest : List Value} (n : Nat)
    (hearlier : ∀ row ∈ earlier, (row.member field).equals v = false)
    (hanchor : (anchor.member field).equals v = true) :
    window { take := .int n, skip := .int 1, cursor := .record [(field, v)] }
      (earlier ++ anchor :: rest) = .ok (rest.take n) := by
  have hdrop : ((earlier ++ anchor :: rest).dropWhile fun row => !(row.member field).equals v)
      = anchor :: rest := by
    rw [List.dropWhile_append_of_pos]
    · rw [List.dropWhile_cons_of_neg]
      simp [hanchor]
    · intro row hrow
      simp [hearlier row hrow]
  unfold window
  show (fromAnchor? (.record [(field, v)]) _ >>= _) = _
  rw [fromAnchor?_record, hdrop, Outcome.ok_bind]
  show Except.ok (Value.takeTo (some (n : Int)) (Value.dropTo (some ((1 : Nat) : Int)) (anchor :: rest))) = _
  rw [Value.dropTo_nat, Value.takeTo_nat]
  rfl

/-- the window of a cursor, among the rows that come after those it leaves behind -/
theorem window_served {field : String} {cursor : Value} {served rest : List Value} (limit : Nat)
    (hmarks : Marks field (served ++ rest)) (hserved : Served field cursor served) :
    ∃ w, Window.atCursor cursor (.int limit) (.str field) = .ok w ∧
      w.take = .int (limit + 1 : Nat) ∧
      window w (served ++ rest) = .ok (rest.take (limit + 1)) := by
  cases hserved with
  | start => exact ⟨_, rfl, rfl, window_start (limit + 1) rest⟩
  | upTo earlier anchor =>
    have hmem : anchor ∈ (earlier ++ [anchor]) ++ rest := by simp
    obtain ⟨hnull, hempty⟩ := hmarks.given anchor hmem
    refine ⟨{ take := .int (limit + 1 : Nat), skip := .int 1,
              cursor := .record [(field, anchor.member field)] }, ?_, rfl, ?_⟩
    · unfold Window.atCursor
      rw [hnull, hempty]
      show Except.ok (Window.mk _ _ (.record [((Value.str field).display, anchor.member field)])) = _
      have hname : (Value.str field).display = field := String.ofList_toList
      rw [hname]
      rfl
    · rw [List.append_assoc]
      refine window_anchor (limit + 1) ?_ (hmarks.reflexive anchor hmem)
      intro row hrow
      have hpair := hmarks.unequal
      rw [List.append_assoc, List.pairwise_append] at hpair
      exact (hpair.2.2 row hrow anchor (by simp)).1

/-! ## projections -/

/-- the fields that a selection names, those of a mapping by what it says of them -/
def selected : Value → Outcome (List Value)
  | .record entries => .ok ((entries.filter (·.2.truthy)).map fun entry => .str entry.1)
  | v => v.items

theorem project_select {projection selection : Value} (h : selection? projection = some selection)
    (row : Value) :
    project projection row = (selected selection >>= fun fields =>
      Value.record <$> fields.foldlM (fun entries field => do
        putField field (← field.lookUp row) entries) []) := by
  unfold project
  rw [h]
  cases selection <;> rfl

/-- the projection leaves rows as they are, or selects the field, all by their names -/
def Keeps (projection : Value) (field : String) : Prop :=
  ∀ selection, selection? projection = some selection →
    ∃ names : List String, selected selection = .ok (names.map .str) ∧ field ∈ names

def shownFields (names : List String) (row : Value) : List (String × Value) :=
  names.foldl (fun entries name => Value.put name (row.member name) entries) []

theorem foldlM_putField (row : Value) (names : List String) (entries : List (String × Value)) :
    (names.map Value.str).foldlM (fun entries field => do
        putField field (← field.lookUp row) entries) entries
      = .ok (names.foldl (fun entries name => Value.put name (row.member name) entries) entries) := by
  induction names generalizing entries with
  | nil => rfl
  | cons name names ih =>
    rw [List.map_cons, List.foldlM_cons, List.foldl_cons]
    have hname : (Value.str name).display = name := String.ofList_toList
    show (Except.ok (Value.put (Value.str name).display (row.member name) entries) >>= _) = _
    rw [hname, Outcome.ok_bind]
    exact ih _

theorem field?_foldl_put {row : Value} {field : String} {names : List String}
    {entries : List (String × Value)}
    (h : field ∈ names ∨ Value.field? field entries = some (row.member field)) :
    Value.field? field (names.foldl (fun entries name => Value.put name (row.member name) entries)
      entries) = some (row.member field) := by
  induction names generalizing entries with
  | nil =>
    rcases h with h | h
    · cases h
    · exact h
  | cons name names ih =>
    rw [List.foldl_cons]
    apply ih
    by_cases hname : field = name
    · subst hname
      exact .inr (Value.field?_put_self ..)
    · rcases h with h | h
      · rcases List.mem_cons.mp h with h | h
        · exact absurd h hname
        · exact .inl h
      · rw [Value.field?_put_of_ne hname]
        exact .inr h

theorem member_shownFields {field : String} {names : List String} (h : field ∈ names) (row : Value) :
    (Value.record (shownFields names row)).member field = row.member field := by
  show (Value.field? field (shownFields names row)).getD .null = _
  rw [shownFields, field?_foldl_put (.inl h)]
  rfl

/-- a projection that keeps a field shows every row, with the field as it is -/
theorem project_keeps {projection : Value} {field : String} (h : Keeps projection field)
    (row : Value) :
    ∃ shown, project projection row = .ok shown ∧ shown.member field = row.member field := by
  cases hsel : selection? projection with
  | none =>
    refine ⟨row, ?_, rfl⟩
    unfold project
    rw [hsel]
    rfl
  | some selection =>
    obtain ⟨names, hnames, hfield⟩ := h selection hsel
    refine ⟨.record (shownFields names row), ?_, member_shownFields hfield row⟩
    rw [project_select hsel, hnames, Outcome.ok_bind, foldlM_putField]
    rfl

end Store

/-! ## rows shown -/

namespace CursorPage

theorem lastMember_str (field : String) (data : List Value) :
    lastMember (.str field) data = .ok ((data.getLast?.map (·.member field)).getD .null) := by
  unfold lastMember
  cases data.getLast? <;> rfl

theorem ofRows_within {rows : List Value} {limit : Nat} {field : String}
    (h : rows.length ≤ limit) :
    ∃ next, ofRows (.list rows) (.int limit) (.str field) = .ok ⟨rows, false, next⟩ := by
  have hcmp : (Value.int rows.length).compares .above (.int limit) = .ok false := by
    rw [Value.compares_int]
    have hne : compare (rows.length : Int) (limit : Int) ≠ .gt := by
      rw [Ne, Int.compare_eq_gt]
      omega
    simp [Value.Relation.holds, hne]
  refine ⟨(rows.getLast?.map (·.member field)).getD .null, ?_⟩
  unfold ofRows
  show ((Value.int (rows.length : Nat)).compares .above (.int limit) >>= fun beyond => _) = _
  rw [hcmp]
  show (lastMember (.str field) rows >>= fun next => _) = _
  rw [lastMember_str]
  rfl

/-- of more rows than the limit only so many are shown, the last of which marks where to go on -/
theorem ofRows_beyond {rows shown : List Value} {last : Value} {limit : Nat} {field : String}
    (h : limit < rows.length) (hshown : rows.take limit = shown ++ [last]) :
    ofRows (.list rows) (.int limit) (.str field)
      = .ok ⟨shown ++ [last], true, last.member field⟩ := by
  have hcmp : (Value.int rows.length).compares .above (.int limit) = .ok true := by
    rw [Value.compares_int]
    have heq : compare (rows.length : Int) (limit : Int) = .gt := by
      rw [Int.compare_eq_gt]
      omega
    rw [heq]
    rfl
  have hfirst : (Value.list rows).firstItems (.int limit) = .ok (shown ++ [last]) := by
    show Except.ok (Value.takeTo (some (limit : Int)) rows) = _
    rw [Value.takeTo_nat, hshown]
  unfold ofRows
  rw [show (Value.list rows).size = .ok rows.length from rfl, Outcome.ok_bind, hcmp, Outcome.ok_bind,
    if_pos rfl, hfirst, Outcome.ok_bind]
  have hnonempty : (shown ++ [last]).isEmpty = false := by simp
  have hlast : lastMember (.str field) (shown ++ [last]) = .ok (last.member field) := by
    rw [lastMember_str, List.getLast?_concat]
    rfl
  dsimp only
  rw [hnonempty, hlast]
  rfl

end CursorPage

end ListQuery
