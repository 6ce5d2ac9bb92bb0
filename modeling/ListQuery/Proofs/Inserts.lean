import Mathlib.Data.List.Perm.Subperm
import ListQuery.Proofs.Collection.Sorted
import ListQuery.Proofs.Predicate.Path
import ListQuery.Proofs.Scope
import ListQuery.Proofs.Walk

/-!
# Cursor walks amid inserts

Rows may be added between the windows of a walk.  The cursor field tells the rows apart and breaks
the ties of the sort field, so that the rows of every window come behind those of the windows before
it, wherever the new rows stand; and no row that was there from the start is passed over.

* `Builder.walkAmid`       a walk with rows added between its windows;
* `Store.answerWalkAmid`   its windows, as a function of the collections;
* `Store.rows_addAll`      added rows come behind those that are there;
* `Tellable`, `walkOrder`  rows that the two fields put in a strict order;
* `Request.Walking`        a request for such a walk;
* `Store.Snapshot`, `Snapshot.split`
                           its rows in that order, at one time, and what a cursor leaves of them;
* `Behind`                 the invariant: what is shown from the row of a cursor on;
* `Request.Walking.walkAmid`
                           a walk from the row of a cursor on;
* `Builder.walk_amid_inserts`
                           a walk from the first row on.
-/

namespace ListQuery

/-! ## walks and inserts -/

structure Addition where
  model : String
  rows : List Value

def Store.addAll (s : Store) (additions : List Addition) : Outcome Store :=
  additions.foldlM (fun s a => s.add (.str a.model) a.rows) s

namespace Builder

def insert (additions : List Addition) : Action Store Unit := do
  let s ← (← Action.read).addAll additions
  Action.update fun _ => s

/-- cursor windows from a request on, each from the cursor of the one before, with rows added before
each but the first: one window more, at most, than there are batches of rows -/
def walkAmid (b : Builder Store) : (batches : List (List Addition)) → Request →
    Action Store (List CursorResponse)
  | [], r => do return [← b.cursorQuery r]
  | batch :: batches, r => do
    let here ← b.cursorQuery r
    if here.hasMore then
      insert batch
      let next ← r.merged (.record [("cursor", here.nextCursor)])
      return here :: (← walkAmid b batches next)
    else return [here]

end Builder

namespace Store

def answerWalkAmid (s : Store) (config : Config) : (batches : List (List Addition)) → Request →
    Outcome (List CursorResponse)
  | [], r => do return [← s.answerWindow config r]
  | batch :: batches, r => do
    let here ← s.answerWindow config r
    if here.hasMore then
      let later ← s.addAll batch
      let next ← r.merged (.record [("cursor", here.nextCursor)])
      return here :: (← answerWalkAmid later config batches next)
    else return [here]

end Store

namespace Builder

theorem insert_bind {α : Type} (additions : List Addition) (f : Unit → Action Store α)
    (w : Logged Store) :
    ((insert additions >>= f).runOn w).1
      = (w.state.addAll additions >>= fun later => ((f ()).runOn ⟨later, w.log⟩).1) := by
  have hrun : (insert additions >>= f).runOn w
      = ((Action.ofOutcome (w.state.addAll additions) : Action Store Store) >>= fun later =>
          Action.update (fun _ => later) >>= f).runOn w := by
    unfold insert
    simp only [bind_assoc]
    rfl
  rw [hrun, Action.runOn_bind, Action.runOn_ofOutcome]
  cases w.state.addAll additions <;> rfl

theorem base_walkAmid (config : Config) (batches : List (List Addition)) (r : Request)
    (w : Logged Store) :
    (((base config (.ofStore id)).walkAmid batches r).runOn w).1
      = w.state.answerWalkAmid config batches r := by
  induction batches generalizing r w with
  | nil =>
    have hwindow := (base_cursorQuery id config r).bind fun here => Action.Reads.pure [here]
    exact (hwindow w).1
  | cons batch batches ih =>
    have hanswer : (((base config (.ofStore id)).cursorQuery r).runOn w).1
        = w.state.answerWindow config r := (base_cursorQuery id config r w).1
    have hstate := (base_cursorQuery id config r w).2
    unfold walkAmid Store.answerWalkAmid
    rw [Action.runOn_bind, ← hanswer]
    rcases hrun : ((base config (.ofStore id)).cursorQuery r).runOn w with ⟨e | here, after⟩
    · rfl
    · rw [hrun] at hstate
      rw [Outcome.ok_bind]
      dsimp only
      cases here.hasMore with
      | false => rfl
      | true =>
        rw [if_pos rfl, if_pos rfl, insert_bind, show after.state = w.state from hstate]
        congr 1
        funext later
        show ((Action.ofOutcome (r.merged (.record [("cursor", here.nextCursor)])) >>= _ :
          Action Store (List CursorResponse)).runOn ⟨later, after.log⟩).1 = _
        rw [Action.runOn_bind, Action.runOn_ofOutcome]
        cases r.merged (.record [("cursor", here.nextCursor)]) with
        | error e => rfl
        | ok next =>
          rw [Outcome.ok_bind, ← ih next ⟨later, after.log⟩]
          dsimp only
          rw [Action.runOn_bind]
          rcases ((base config (.ofStore id)).walkAmid batches next).runOn ⟨later, after.log⟩ with
            ⟨e | rest, last⟩ <;> rfl

end Builder

/-! ## added rows -/

namespace Store

theorem find?_extend {model name : Value} {added rows : List Value}
    {collections : List (Value × List Value)} {collection : Value}
    (h : collections.find? (·.1.equals collection) = some (name, rows)) :
    ∃ more, (extend model added collections).find? (·.1.equals collection) = some (name, rows ++ more) := by
  induction collections with
  | nil => cases h
  | cons first rest ih =>
    obtain ⟨other, old⟩ := first
    rw [extend]
    cases hhere : other.equals collection with
    | true =>
      simp only [List.find?_cons, hhere] at h
      cases h
      split
      · exact ⟨added, by simp only [List.find?_cons, hhere]⟩
      · exact ⟨[], by simp only [List.find?_cons, hhere, List.append_nil]⟩
    | false =>
      simp only [List.find?_cons, hhere] at h
      split
      · exact ⟨[], by simp only [List.find?_cons, hhere, List.append_nil]; exact h⟩
      · obtain ⟨more, hmore⟩ := ih h
        exact ⟨more, by simp only [List.find?_cons, hhere]; exact hmore⟩

theorem rows_add {s : Store} {collection : Value} {rows : List Value}
    (h : s.rows collection = .ok rows) (a : Addition) :
    ∃ later more, s.add (.str a.model) a.rows = .ok later ∧ later.rows collection = .ok (rows ++ more) := by
  refine ⟨⟨extend (.str a.model) a.rows s.collections⟩, ?_⟩
  unfold Store.rows at h ⊢
  cases hhashable : collection.hashable with
  | false => rw [hhashable] at h; cases h
  | true =>
    rw [hhashable] at h
    cases hfound : s.collections.find? (·.1.equals collection) with
    | none => rw [hfound] at h; cases h
    | some entry =>
      obtain ⟨name, old⟩ := entry
      rw [hfound] at h
      cases h
      obtain ⟨more, hmore⟩ := find?_extend hfound
      refine ⟨more, rfl, ?_⟩
      rw [hmore]
      rfl

theorem rows_addAll {s : Store} {collection : Value} {rows : List Value}
    (h : s.rows collection = .ok rows) (additions : List Addition) :
    ∃ later more, s.addAll additions = .ok later ∧ later.rows collection = .ok (rows ++ more) := by
  induction additions generalizing s rows with
  | nil => exact ⟨s, [], rfl, by rw [List.append_nil]; exact h⟩
  | cons a additions ih =>
    obtain ⟨next, more, hnext, hrows⟩ := rows_add h a
    obtain ⟨later, further, hlater, hfurther⟩ := ih hrows
    refine ⟨later, more ++ further, ?_, ?_⟩
    · unfold addAll
      rw [List.foldlM_cons, hnext]
      exact hlater
    · rw [← List.append_assoc]
      exact hfurther

theorem addAll_append (s : Store) (first further : List Addition) :
    s.addAll (first ++ further) = (s.addAll first >>= fun middle => middle.addAll further) :=
  List.foldlM_append

theorem sublist_addAll {s later : Store} {collection : Value} {rows all : List Value}
    {additions : List Addition} (h : s.rows collection = .ok rows)
    (hlater : s.addAll additions = .ok later) (hall : later.rows collection = .ok all) :
    rows.Sublist all := by
  obtain ⟨_, more, hstore, hmore⟩ := rows_addAll h additions
  rw [hlater] at hstore
  cases hstore
  rw [hall] at hmore
  cases hmore
  exact List.sublist_append_left rows more

end Store

/-! ## rows in a strict order -/

/-- The rows have a value of their own under the cursor field, neither null nor the empty text, and
these can be compared; what they have under the sort field is null or can be compared. -/
structure Tellable (sortField field : String) (rows : List Value) : Prop where
  keyed : ∀ row ∈ rows, row.Keyed
  given : ∀ row ∈ rows,
    (row.member field).isNull = false ∧ (row.member field).equals (.str "") = false
  unequal : rows.Pairwise fun a b => (a.member field).equals (b.member field) = false
  comparable : Value.Comparable (rows.map (·.member field))
  sortable : Value.Sortable (rows.map (·.resolve sortField))

/-- the order of a cursor walk: by the sort field, and by the cursor field where that ties -/
def walkOrder (sortField field : String) (direction : Value) : Value → Value → Prop :=
  SortKey.lex (fun _ _ => False) [⟨.str sortField, direction⟩, ⟨.str field, direction⟩]

namespace Tellable

variable {sortField field : String} {direction : Value} {rows others : List Value}

theorem sublist (h : Tellable sortField field rows) (hothers : others.Sublist rows) :
    Tellable sortField field others where
  keyed row hrow := h.keyed row (hothers.mem hrow)
  given row hrow := h.given row (hothers.mem hrow)
  unequal := h.unequal.sublist hothers
  comparable := h.comparable.subset fun _ hv => (hothers.map _).mem hv
  sortable := h.sortable.subset fun _ hv => (hothers.map _).mem hv

theorem unequal_symm (h : Tellable sortField field rows) : rows.Pairwise fun a b =>
    (a.member field).equals (b.member field) = false ∧
      (b.member field).equals (a.member field) = false := by
  refine h.unequal.imp_of_mem fun {a b} ha hb hab => ⟨hab, ?_⟩
  rcases h.comparable.decided _ (List.mem_map_of_mem ha) _ (List.mem_map_of_mem hb) with
    ⟨heq, _⟩ | ⟨_, hba, _⟩
  · rw [hab] at heq; cases heq
  · exact hba

theorem marks (h : Tellable sortField field rows) : Marks field rows where
  given := h.given
  reflexive _ hrow := h.comparable.equals_self (List.mem_map_of_mem hrow)
  unequal := h.unequal_symm

theorem cursor_sorts (h : Tellable sortField field rows) (hdot : '.' ∉ field.toList) :
    SortKey.Sorts ⟨.str field, direction⟩ rows := by
  refine ⟨field, rfl, Value.Comparable.subset h.comparable fun v hv => ?_⟩
  obtain ⟨row, hrow, rfl⟩ := List.mem_map.mp (List.mem_filter.mp hv).1
  rw [(h.keyed row hrow).resolve_eq hdot]
  exact List.mem_map_of_mem hrow

theorem sorts (h : Tellable sortField field rows) (hdot : '.' ∉ field.toList) :
    ∀ k ∈ [(⟨.str sortField, direction⟩ : SortKey), ⟨.str field, direction⟩], k.Sorts rows := by
  simp only [List.forall_mem_cons]
  exact ⟨⟨sortField, rfl, h.sortable⟩, h.cursor_sorts hdot, fun _ h => absurd h List.not_mem_nil⟩

theorem order_trans (h : Tellable sortField field rows) (hdot : '.' ∉ field.toList) {a b c : Value}
    (ha : a ∈ rows) (hb : b ∈ rows) (hc : c ∈ rows) (hab : walkOrder sortField field direction a b)
    (hbc : walkOrder sortField field direction b c) : walkOrder sortField field direction a c :=
  SortKey.lex_trans (h.sorts hdot) ha hb hc (fun h _ => h) hab hbc

theorem order_asymm (h : Tellable sortField field rows) (hdot : '.' ∉ field.toList) {a b : Value}
    (ha : a ∈ rows) (hb : b ∈ rows) (hab : walkOrder sortField field direction a b) :
    ¬ walkOrder sortField field direction b a :=
  SortKey.lex_asymm (h.sorts hdot) ha hb (fun h _ => h) hab

theorem cursor_decides (h : Tellable sortField field rows) (hdot : '.' ∉ field.toList) {a b : Value}
    (ha : a ∈ rows) (hb : b ∈ rows)
    (hunequal : (a.member field).equals (b.member field) = false ∧
      (b.member field).equals (a.member field) = false)
    (hback : SortKey.rowBefore ⟨.str field, direction⟩ b a = false) :
    SortKey.rowBefore ⟨.str field, direction⟩ a b = true := by
  have hsortable : Value.Sortable (rows.map (·.member field)) :=
    h.comparable.subset fun _ hv => (List.mem_filter.mp hv).1
  have hmem {row : Value} (hrow : row ∈ rows) : row.member field ∈ rows.map (·.member field) :=
    List.mem_map_of_mem hrow
  have hagrees {row : Value} (hrow : row ∈ rows) (w : Value) :
      (row.member field).agrees w = (row.member field).equals w :=
    Value.agrees_of_equals_self (h.comparable.equals_self (hmem hrow)) w
  rw [SortKey.rowBefore_eq rfl, (h.keyed a ha).resolve_eq hdot, (h.keyed b hb).resolve_eq hdot] at hback ⊢
  cases hdescends : SortKey.descends ⟨.str field, direction⟩ with
  | true =>
    rw [hdescends] at hback
    exact hsortable.comesBefore_of_not (hmem hb) (hmem ha) ((hagrees hb _).trans hunequal.2) hback
  | false =>
    rw [hdescends] at hback
    exact hsortable.comesBefore_of_not (hmem ha) (hmem hb) ((hagrees ha _).trans hunequal.1) hback

theorem ordered_strictly (h : Tellable sortField field rows) (hdot : '.' ∉ field.toList)
    {config : Config} {r : Request} (hfield : Plan.cursorField config r = .str field)
    (hsort : Plan.sortField config r = .str sortField) :
    ∃ ordered, sortRows (Plan.cursorOrder config r) rows = .ok ordered ∧
      ordered.Pairwise (walkOrder sortField field (Plan.direction config r)) := by
  have hsorts : ∀ k ∈ [(⟨.str sortField, Plan.direction config r⟩ : SortKey),
      ⟨.str field, Plan.direction config r⟩], k.Sorts rows := h.sorts hdot
  have htrue : rows.Pairwise fun _ _ => True := List.pairwise_of_forall fun _ _ => trivial
  by_cases hsame : field = sortField
  · subst hsame
    have horder : Plan.cursorOrder config r = [⟨.str field, Plan.direction config r⟩] := by
      unfold Plan.cursorOrder Plan.pageOrder
      rw [hfield, hsort]
      exact if_pos (by simp [Value.equals])
    rw [List.forall_mem_cons] at hsorts
    obtain ⟨ordered, hordered, hweak⟩ := SortKey.sortRows_pairwise hsorts.2 htrue
    have hperm := sortRows_perm hordered
    refine ⟨ordered, horder ▸ hordered,
      (hweak.and (h.marks.perm hperm).unequal).imp_of_mem ?_⟩
    rintro a b ha hb ⟨hab | ⟨hba, _⟩, hunequal⟩
    · exact .inl hab
    · exact .inl (h.cursor_decides hdot (hperm.mem_iff.mp ha) (hperm.mem_iff.mp hb) hunequal hba)
  · have horder : Plan.cursorOrder config r
        = [⟨.str sortField, Plan.direction config r⟩, ⟨.str field, Plan.direction config r⟩] := by
      unfold Plan.cursorOrder Plan.pageOrder
      rw [hfield, hsort]
      exact if_neg (by simpa [Value.equals] using hsame)
    obtain ⟨ordered, hordered, hweak⟩ := SortKey.sortRows_pairwise hsorts htrue
    have hperm := sortRows_perm hordered
    refine ⟨ordered, horder ▸ hordered,
      (hweak.and (h.marks.perm hperm).unequal).imp_of_mem ?_⟩
    rintro a b ha hb ⟨hab | ⟨hba, hab | ⟨htied, _⟩⟩, hunequal⟩
    · exact .inl hab
    · exact .inr ⟨hba, .inl hab⟩
    · exact .inr ⟨hba, .inl
        (h.cursor_decides hdot (hperm.mem_iff.mp ha) (hperm.mem_iff.mp hb) hunequal htied)⟩

end Tellable

/-! ## snapshots -/

theorem Predicate.select_holds {p : Predicate} {rows : List Value}
    (h : ∀ row ∈ rows, ∃ answer, p.evaluate row = .ok answer) :
    p.select rows = .ok (rows.filter p.holds) := by
  induction rows with
  | nil => rfl
  | cons row rest ih =>
    rw [List.forall_mem_cons] at h
    obtain ⟨answer, hanswer⟩ := h.1
    have hholds : p.holds row = answer := by rw [holds, hanswer]
    rw [select, hanswer, Outcome.ok_bind, ih h.2, Outcome.ok_bind, List.filter_cons, hholds]
    rfl

/-- a request for whole rows, ordered by two fields, one of which is a plain name -/
structure Request.Walking (r : Request) (config : Config) (limit : Nat) (sortField field : String) :
    Prop where
  resolved : r.Resolved
  positive : 1 ≤ limit
  size : normalizeLimit (.ofInt? r.limit) config.defaultLimit config.maxLimit = .ok (.int limit)
  marked : Plan.cursorField config r = .str field
  sorted : Plan.sortField config r = .str sortField
  undotted : '.' ∉ field.toList
  unprojected : r.projection = .null

/-- the rows of a request at one time, in the order of a walk -/
structure Store.Snapshot (s : Store) (config : Config) (r : Request) (limit : Nat)
    (sortField field : String) (rows ordered : List Value) : Prop where
  walkable : s.Walkable config r limit field ordered
  mem_iff : ∀ row, row ∈ ordered ↔ row ∈ rows ∧ r.tree.holds row = true
  strictly : ordered.Pairwise (walkOrder sortField field (Plan.direction config r))

variable {s : Store} {config : Config} {r : Request} {limit : Nat} {sortField field : String}
  {rows all ordered : List Value}

namespace Request.Walking

theorem project_eq (h : r.Walking config limit sortField field) (row : Value) :
    Store.project r.projection row = .ok row := by
  rw [h.unprojected]
  rfl

theorem snapshot (h : r.Walking config limit sortField field)
    (hrows : s.rows (.ofText? r.model) = .ok rows) (htell : Tellable sortField field rows)
    (hevaluates : ∀ row ∈ rows, ∃ answer, r.tree.evaluate row = .ok answer) :
    ∃ ordered, s.Snapshot config r limit sortField field rows ordered := by
  have hmatched := htell.sublist (List.filter_sublist (p := r.tree.holds))
  obtain ⟨ordered, hordered, hstrictly⟩ := hmatched.ordered_strictly h.undotted h.marked h.sorted
  have hperm := sortRows_perm hordered
  refine ⟨ordered, ?_, ?_, hstrictly⟩
  · exact {
      resolved := h.resolved
      positive := h.positive
      size := h.size
      marked := h.marked
      arranged := by
        unfold Store.matching
        rw [hrows, Outcome.ok_bind, Predicate.select_holds hevaluates]
        exact hordered
      marks := hmatched.marks.perm hperm
      keeps := by
        intro selection hselection
        rw [h.unprojected] at hselection
        cases hselection }
  · intro row
    rw [hperm.mem_iff, List.mem_filter]

end Request.Walking

/-- the row of a cursor: a row that was shown, or none yet -/
def cursorOf (field : String) : Option Value → Value
  | none => .null
  | some anchor => anchor.member field

theorem Store.Snapshot.split (h : s.Snapshot config r limit sortField field rows ordered)
    (htell : Tellable sortField field rows) (hdot : '.' ∉ field.toList) {anchor : Option Value}
    (hanchor : ∀ a ∈ anchor, a ∈ ordered) :
    ∃ served rest, ordered = served ++ rest ∧ Served field (cursorOf field anchor) served ∧
      (∀ row ∈ rest, ∀ a ∈ anchor, walkOrder sortField field (Plan.direction config r) a row) ∧
      ∀ row ∈ ordered, (∀ a ∈ anchor, walkOrder sortField field (Plan.direction config r) a row) →
        row ∈ rest := by
  cases anchor with
  | none =>
    refine ⟨[], ordered, rfl, .start, ?_, fun _ hrow _ => hrow⟩
    intro _ _ _ ha
    cases ha
  | some a =>
    obtain ⟨earlier, rest, rfl⟩ := List.append_of_mem (hanchor a rfl)
    have hstrictly := h.strictly
    rw [List.pairwise_append, List.pairwise_cons] at hstrictly
    obtain ⟨_, ⟨hrest, _⟩, hearlier⟩ := hstrictly
    refine ⟨earlier ++ [a], rest, by simp, .upTo earlier a, ?_, ?_⟩
    · intro row hrow b hb
      cases hb
      exact hrest row hrow
    · intro row hrow hafter
      have harow := hafter a rfl
      have hmem {row : Value} (hrow : row ∈ earlier ++ a :: rest) : row ∈ rows :=
        ((h.mem_iff row).mp hrow).1
      have hamem := hmem (hanchor a rfl)
      rcases List.mem_append.mp hrow with hbefore | hbehind
      · exact absurd harow (htell.order_asymm hdot (hmem hrow) hamem
          (hearlier row hbefore a List.mem_cons_self))
      · rcases List.mem_cons.mp hbehind with rfl | hrest
        · exact absurd harow (htell.order_asymm hdot hamem hamem harow)
        · exact hrest

/-! ## a walk -/

/-- rows shown from the row of a cursor on: in order, all behind that row, and, if it is the `whole`,
every row behind it that was there and meets the request -/
structure Behind (order : Value → Value → Prop) (meets : Value → Bool) (rows all : List Value)
    (anchor : Option Value) (shown : List Value) (whole : Prop) : Prop where
  known : ∀ row ∈ shown, row ∈ all
  strictly : shown.Pairwise order
  behind : ∀ row ∈ shown, ∀ a ∈ anchor, order a row
  complete (hwhole : whole) : ∀ row ∈ rows, meets row = true → (∀ a ∈ anchor, order a row) →
    row ∈ shown

namespace Behind

variable {order : Value → Value → Prop} {meets : Value → Bool} {later : List Value}
  {anchor : Option Value} {earlier shown left further : List Value} {last : Value} {whole : Prop}

theorem first (h : Behind order meets rows all anchor (shown ++ left) True) :
    Behind order meets rows all anchor shown (left = []) where
  known row hrow := h.known row (List.mem_append_left left hrow)
  strictly := h.strictly.sublist (List.sublist_append_left shown left)
  behind row hrow := h.behind row (List.mem_append_left left hrow)
  complete hleft row hrow hmeets hafter := by
    have hmem := h.complete trivial row hrow hmeets hafter
    rwa [hleft, List.append_nil] at hmem

/-- after the first rows come those behind the last of them, whatever was added in the meantime -/
theorem append (h : Behind order meets rows all anchor (earlier ++ [last] ++ left) True)
    (htrans : ∀ a ∈ all, ∀ b ∈ all, ∀ c ∈ all, order a b → order b c → order a c)
    (hanchor : ∀ a ∈ anchor, a ∈ all) (hgrown : ∀ row ∈ rows, row ∈ later)
    (hfurther : Behind order meets later all (some last) further whole) :
    Behind order meets rows all anchor (earlier ++ [last] ++ further) whole := by
  have hlast : last ∈ earlier ++ [last] ++ left := by simp
  have hstrictly := h.strictly
  rw [List.pairwise_append, List.pairwise_append] at hstrictly
  obtain ⟨⟨hearlier, _, hbefore⟩, _, hbeyond⟩ := hstrictly
  have hlastFurther : ∀ row ∈ further, order last row := fun row hrow => hfurther.behind row hrow last rfl
  refine ⟨?_, ?_, ?_, ?_⟩
  · intro row hrow
    rcases List.mem_append.mp hrow with hrow | hrow
    · exact h.known row (List.mem_append_left left hrow)
    · exact hfurther.known row hrow
  · refine List.pairwise_append.mpr ⟨?_, hfurther.strictly, ?_⟩
    · exact h.strictly.sublist (List.sublist_append_left _ left)
    · intro x hx y hy
      rcases List.mem_append.mp hx with hx' | hx'
      · exact htrans x (h.known x (by simp [hx'])) last (h.known last hlast) y (hfurther.known y hy)
          (hbefore x hx' last (by simp)) (hlastFurther y hy)
      · rw [List.mem_singleton.mp hx']
        exact hlastFurther y hy
  · intro row hrow a ha
    rcases List.mem_append.mp hrow with hrow | hrow
    · exact h.behind row (List.mem_append_left left hrow) a ha
    · exact htrans a (hanchor a ha) last (h.known last hlast) row (hfurther.known row hrow)
        (h.behind last hlast a ha) (hlastFurther row hrow)
  · intro hwhole row hrow hmeets hafter
    rcases List.mem_append.mp (h.complete trivial row hrow hmeets hafter) with hshown | hleft
    · exact List.mem_append_left further hshown
    · refine List.mem_append_right _ (hfurther.complete hwhole row (hgrown row hrow) hmeets ?_)
      intro b hb
      cases hb
      exact hbeyond last (by simp) row hleft

end Behind

theorem Store.Walkable.window {served rest : List Value} {cursor : Value}
    (walkable : s.Walkable config r limit field (served ++ rest)) (hserved : Served field cursor served)
    (hproject : ∀ row, project r.projection row = .ok row) :
    ∃ shown left next more, rest = shown ++ left ∧
      s.answerWindow config { r with cursor := cursor } = .ok ⟨shown, next, more, limit⟩ ∧
      (more = false → left = []) ∧
      (more = true → ∃ earlier last, shown = earlier ++ [last] ∧ next = last.member field) := by
  rcases Nat.lt_or_ge limit rest.length with hbeyond | hwithin
  · have hpositive := walkable.positive
    have hne : rest.take limit ≠ [] := by
      intro hnil
      have hlength := congrArg List.length hnil
      rw [List.length_take, List.length_nil] at hlength
      omega
    have hlast := (List.dropLast_concat_getLast hne).symm
    have hwindow := walkable.window_next hserved hproject (fun _ => rfl) hbeyond hlast
    rw [List.map_id'] at hwindow
    refine ⟨rest.take limit, rest.drop limit, _, true, (List.take_append_drop limit rest).symm, hwindow,
      ?_, fun _ => ⟨_, _, hlast, rfl⟩⟩
    intro h
    cases h
  · obtain ⟨next, hwindow⟩ := walkable.window_last hserved hproject hwithin
    rw [List.map_id'] at hwindow
    refine ⟨rest, [], next, false, (List.append_nil rest).symm, hwindow, fun _ => rfl, ?_⟩
    intro h
    cases h

/-- the window of a cursor, among the rows that are there and behind its row -/
theorem Request.Walking.window (walking : r.Walking config limit sortField field)
    (htell : Tellable sortField field all)
    (hevaluates : ∀ row ∈ all, ∃ answer, r.tree.evaluate row = .ok answer)
    (hrows : s.rows (.ofText? r.model) = .ok rows) (hgrown : rows.Sublist all) {anchor : Option Value}
    (hanchor : ∀ a ∈ anchor, a ∈ rows ∧ r.tree.holds a = true) :
    ∃ shown left next more,
      s.answerWindow config { r with cursor := cursorOf field anchor } = .ok ⟨shown, next, more, limit⟩ ∧
      Behind (walkOrder sortField field (Plan.direction config r)) r.tree.holds rows all anchor
        (shown ++ left) True ∧
      (more = false → left = []) ∧
      (more = true → ∃ earlier last, shown = earlier ++ [last] ∧ next = last.member field ∧
        last ∈ rows ∧ r.tree.holds last = true) := by
  obtain ⟨ordered, snapshot⟩ := walking.snapshot hrows (htell.sublist hgrown)
    fun row hrow => hevaluates row (hgrown.mem hrow)
  obtain ⟨served, rest, rfl, hserved, hbehind, hleft⟩ :=
    snapshot.split (htell.sublist hgrown) walking.undotted
      fun a ha => (snapshot.mem_iff a).mpr (hanchor a ha)
  obtain ⟨shown, left, next, more, rfl, hwindow, hends, hgoes⟩ :=
    snapshot.walkable.window hserved walking.project_eq
  have hmem {row : Value} (hrow : row ∈ shown ++ left) : row ∈ rows ∧ r.tree.holds row = true :=
    (snapshot.mem_iff row).mp (List.mem_append_right served hrow)
  refine ⟨shown, left, next, more, hwindow, ⟨?_, ?_, hbehind, ?_⟩, hends, ?_⟩
  · exact fun row hrow => hgrown.mem (hmem hrow).1
  · exact snapshot.strictly.sublist (List.sublist_append_right served _)
  · exact fun _ row hrow hmeets hafter => hleft row ((snapshot.mem_iff row).mpr ⟨hrow, hmeets⟩) hafter
  · intro hmore
    obtain ⟨earlier, last, rfl, hnext⟩ := hgoes hmore
    have hlast : last ∈ earlier ++ [last] ++ left := by simp
    exact ⟨earlier, last, rfl, hnext, hmem hlast⟩

def ended (pages : List CursorResponse) : Prop := ∃ last ∈ pages.getLast?, last.hasMore = false

theorem ended_cons {page : CursorResponse} {pages : List CursorResponse} (h : pages ≠ []) :
    ended (page :: pages) = ended pages := by
  unfold ended
  rw [List.getLast?_cons_of_ne_nil h]

/-- one window shows what it shows, and all that is left if it says that there is no more -/
theorem Behind.only {order : Value → Value → Prop} {meets : Value → Bool} {anchor : Option Value}
    {page : CursorResponse} {left : List Value}
    (h : Behind order meets rows all anchor (page.data ++ left) True)
    (hends : page.hasMore = false → left = []) :
    Behind order meets rows all anchor ([page].flatMap (·.data)) (ended [page]) := by
  rw [List.flatMap_singleton]
  refine ⟨h.first.known, h.first.strictly, h.first.behind, ?_⟩
  rintro ⟨_, hlast, hmore⟩
  cases hlast
  exact h.first.complete (hends hmore)

/-- from the row of a cursor on, a walk amid inserts shows what is behind that row -/
theorem Request.Walking.walkAmid (walking : r.Walking config limit sortField field)
    (htell : Tellable sortField field all)
    (hevaluates : ∀ row ∈ all, ∃ answer, r.tree.evaluate row = .ok answer)
    {batches : List (List Addition)} {later : Store} (hrows : s.rows (.ofText? r.model) = .ok rows)
    (hlater : s.addAll batches.flatten = .ok later) (hall : later.rows (.ofText? r.model) = .ok all)
    {anchor : Option Value} (hanchor : ∀ a ∈ anchor, a ∈ rows ∧ r.tree.holds a = true) :
    ∃ pages, s.answerWalkAmid config batches { r with cursor := cursorOf field anchor } = .ok pages ∧
      pages ≠ [] ∧
      (ended pages ∨ batches.length < (pages.flatMap (·.data)).length) ∧
      Behind (walkOrder sortField field (Plan.direction config r)) r.tree.holds rows all anchor
        (pages.flatMap (·.data)) (ended pages) := by
  induction batches generalizing s rows anchor with
  | nil =>
    obtain ⟨shown, left, next, more, hwindow, hbehind, hends, hgoes⟩ :=
      walking.window htell hevaluates hrows (Store.sublist_addAll hrows hlater hall) hanchor
    refine ⟨[⟨shown, next, more, limit⟩], ?_, by simp, ?_, hbehind.only hends⟩
    · unfold Store.answerWalkAmid
      rw [hwindow]
      rfl
    · cases more with
      | false => exact .inl ⟨_, rfl, rfl⟩
      | true => obtain ⟨earlier, last, rfl, _⟩ := hgoes rfl; exact .inr (by simp)
  | cons batch batches ih =>
    have hgrown := Store.sublist_addAll hrows hlater hall
    obtain ⟨shown, left, next, more, hwindow, hbehind, hends, hgoes⟩ :=
      walking.window htell hevaluates hrows hgrown hanchor
    unfold Store.answerWalkAmid
    rw [hwindow, Outcome.ok_bind]
    cases more with
    | false =>
      exact ⟨[⟨shown, next, false, limit⟩], rfl, by simp, .inl ⟨_, rfl, rfl⟩, hbehind.only hends⟩
    | true =>
      obtain ⟨earlier, last, rfl, rfl, hlast⟩ := hgoes rfl
      obtain ⟨middle, added, hmiddle, hadded⟩ := Store.rows_addAll hrows batch
      rw [List.flatten_cons, Store.addAll_append, hmiddle, Outcome.ok_bind] at hlater
      have hnext : ∀ a ∈ some last, a ∈ rows ++ added ∧ r.tree.holds a = true := by
        intro a ha
        cases ha
        exact ⟨List.mem_append_left added hlast.1, hlast.2⟩
      obtain ⟨pages, hpages, hne, hlong, hfurther⟩ := ih hadded hlater hnext
      refine ⟨⟨earlier ++ [last], last.member field, true, limit⟩ :: pages, ?_, by simp, ?_, ?_⟩
      · have hmerged : ({ r with cursor := cursorOf field anchor } : Request).merged
            (.record [("cursor", last.member field)])
            = .ok { r with cursor := cursorOf field (some last) } :=
          Request.merged_cursor (walking.resolved.withCursor _) _
        rw [if_pos rfl, hmiddle, Outcome.ok_bind, hmerged, Outcome.ok_bind, hpages]
        rfl
      · rw [ended_cons hne, List.flatMap_cons, List.length_append, List.length_cons]
        refine hlong.imp_right fun hlong => ?_
        have hshown : 0 < (earlier ++ [last]).length := by simp
        dsimp only
        omega
      · rw [ended_cons hne, List.flatMap_cons]
        refine hbehind.append ?_ (fun a ha => hgrown.mem (hanchor a ha).1)
          (fun row hrow => List.mem_append_left added hrow) hfurther
        intro a ha b hb c hc
        exact htell.order_trans walking.undotted ha hb hc

/-- A walk whose windows other rows are added between, anywhere.  If the rows that are there at its
end can be told apart and ordered, it shows rows in a strict order, each of them once.  It comes to a
window that says that there is no more, at the latest after as many windows as there are rows then;
and it has then shown every row that matched at its start. -/
theorem Builder.walk_amid_inserts (w : Logged Store) (config : Config) (r : Request)
    (default most : Int) (sortField field : String) (hresolved : r.Resolved)
    (hcursor : r.cursor = .null) (hprojection : r.projection = .null)
    (hdefault : config.defaultLimit = .int default) (hmost : config.maxLimit = .int most)
    (hpos : 1 ≤ most) (hfield : Plan.cursorField config r = .str field)
    (hsort : Plan.sortField config r = .str sortField) (hdot : '.' ∉ field.toList) :
    ∃ plan, Plan.ofCursor config r .null = .ok plan ∧
      ∀ (batches : List (List Addition)) (later : Store) (rows all : List Value),
        w.state.rows plan.model = .ok rows → w.state.addAll batches.flatten = .ok later →
        later.rows plan.model = .ok all → Tellable sortField field all →
        (∀ row ∈ all, ∃ answer, plan.predicate.evaluate row = .ok answer) →
        ∃ matched pages, w.state.matching plan.model plan.predicate = .ok matched ∧
          (((base config (.ofStore id)).walkAmid batches r).runOn w).1 = .ok pages ∧
          (pages.flatMap (·.data)).Pairwise
            (walkOrder sortField field (Plan.direction config r)) ∧
          (pages.flatMap (·.data)).Nodup ∧
          (all.length ≤ batches.length → ended pages) ∧
          (ended pages → ∀ row ∈ matched, row ∈ pages.flatMap (·.data)) := by
  have hr : ({ r with cursor := .null } : Request) = r := by rw [← hcursor]
  have hsize := normalizeLimit_ofInt? r.limit default most
  have hpositive := pageSize_pos r.limit default hpos
  obtain ⟨limit, hlimit⟩ : ∃ limit : Nat, pageSize r.limit default most = limit :=
    ⟨_, (Int.toNat_of_nonneg (by omega)).symm⟩
  rw [hlimit] at hsize hpositive
  have walking : r.Walking config limit sortField field :=
    { resolved := hresolved
      positive := by omega
      size := by rw [hdefault, hmost]; exact hsize
      marked := hfield
      sorted := hsort
      undotted := hdot
      unprojected := hprojection }
  have hplan : Plan.ofCursor config r .null
      = .ok (r.cursorPlan config { take := .int (limit + 1 : Nat), skip := .int 0 }) := by
    unfold Plan.ofCursor
    rw [Request.predicate_eq_tree hresolved, hcursor, hfield, hdefault, hmost]
    show (normalizeLimit (.ofInt? r.limit) (.int default) (.int most) >>= _) = _
    rw [hsize]
    rfl
  refine ⟨_, hplan, ?_⟩
  intro batches later rows all hrows hlater hall htell hevaluates
  have hgrown := Store.sublist_addAll hrows hlater hall
  have hmatching : w.state.matching (.ofText? r.model) r.tree = .ok (rows.filter r.tree.holds) := by
    unfold Store.matching
    rw [show w.state.rows (.ofText? r.model) = .ok rows from hrows, Outcome.ok_bind]
    exact Predicate.select_holds fun row hrow => hevaluates row (hgrown.mem hrow)
  have hanchor : ∀ a ∈ (none : Option Value), a ∈ rows ∧ r.tree.holds a = true := by
    intro a ha
    cases ha
  obtain ⟨pages, hpages, _, hlong, hshown⟩ :=
    walking.walkAmid htell hevaluates hrows hlater hall hanchor
  have hnodup : (pages.flatMap (·.data)).Nodup := by
    refine hshown.strictly.imp_of_mem fun {a b} ha hb hab => ?_
    rintro rfl
    exact htell.order_asymm hdot (hshown.known a ha) (hshown.known a ha) hab hab
  refine ⟨rows.filter r.tree.holds, pages, hmatching, ?_, hshown.strictly, hnodup, ?_, ?_⟩
  · rw [base_walkAmid, ← hr]
    exact hpages
  · intro henough
    have hfew : (pages.flatMap (·.data)).length ≤ all.length :=
      (hnodup.subperm hshown.known).length_le
    exact hlong.resolve_right (by omega)
  · intro hended row hrow
    obtain ⟨hrow, hmeets⟩ := List.mem_filter.mp hrow
    refine hshown.complete hended row hrow hmeets ?_
    intro a ha
    cases ha

/-- a row that is added between the two rows of a walk makes it longer, and hides none of them -/
theorem Builder.walk_amid_one :
    let row (n : Int) : Value := .record [("id", .int n)]
    let r : Request :=
      { model := some "m", limit := some 1, sortBy := some "id", sortOrder := some .asc }
    let w : Logged Store := ⟨⟨[(.str "m", [row 3, row 1])]⟩, []⟩
    let batches : List (List Addition) := [[⟨"m", [row 2]⟩], [], []]
    Tellable "id" "id" [row 3, row 1, row 2] ∧
    ∃ pages, (((base {} (.ofStore id)).walkAmid batches r).runOn w).1 = .ok pages ∧
      ended pages ∧ (pages.flatMap (·.data)).Nodup ∧
      row 3 ∈ pages.flatMap (·.data) ∧ row 1 ∈ pages.flatMap (·.data) := by
  intro row r w batches
  have hresolved : r.Resolved := by
    constructor <;> exact fun _ h => absurd h List.not_mem_nil
  have htell : Tellable "id" "id" [row 3, row 1, row 2] := by
    refine ⟨?_, ?_, ?_, Value.comparable_ints [3, 1, 2], Value.comparable_ints [3, 1, 2]⟩
    · simp only [List.forall_mem_cons]
      exact ⟨⟨_, .inl rfl⟩, ⟨_, .inl rfl⟩, ⟨_, .inl rfl⟩, fun _ h => absurd h List.not_mem_nil⟩
    · simp only [List.forall_mem_cons]
      exact ⟨⟨rfl, rfl⟩, ⟨rfl, rfl⟩, ⟨rfl, rfl⟩, fun _ h => absurd h List.not_mem_nil⟩
    · simp only [List.pairwise_cons, List.forall_mem_cons]
      exact ⟨⟨rfl, rfl, fun _ h => absurd h List.not_mem_nil⟩,
        ⟨rfl, fun _ h => absurd h List.not_mem_nil⟩, fun _ h => absurd h List.not_mem_nil, .nil⟩
  obtain ⟨plan, hplan, hwalk⟩ := walk_amid_inserts w {} r 10 100 "id" "id" hresolved rfl rfl rfl rfl
    (by decide) rfl rfl (by decide)
  cases hplan
  obtain ⟨matched, pages, hmatched, hpages, _, hnodup, hends, hall⟩ := hwalk batches _ [row 3, row 1]
    [row 3, row 1, row 2] rfl rfl rfl htell fun _ _ => ⟨true, rfl⟩
  cases hmatched
  have hended : ended pages := hends (by decide)
  refine ⟨htell, pages, hpages, hended, hnodup, hall hended _ ?_, hall hended _ ?_⟩ <;> simp

end ListQuery
