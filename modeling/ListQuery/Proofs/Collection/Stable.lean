import ListQuery.Proofs.Collection.Sorted

/-!
# The stable lexicographic sort

Rows are sorted by the least significant key first and by the most significant one last, each time
stably.  What comes out is the one arrangement of the rows that several keys and their first order
determine: the first key that tells two rows apart decides, and rows that no key tells apart stand as
they stood.

* `stableSort_filter`             rows that are not sorted apart keep their order;
* `eq_of_arranged`                an order and the order of ties determine an arrangement;
* `SortKey.Ahead`, `ties`         two rows under one key;
* `SortKey.InFront`, `tiedOn`     two rows under several keys;
* `SortKey.Arranged`              the rows in the order of several keys, stably;
* `SortKey.sortRows_stable`       rows that no key tells apart;
* `SortKey.sortRows_iff`          what sorting comes to.
-/

namespace ListQuery

/-! ## stable sorting -/

section
variable {α : Type} {before : α → α → Bool}

theorem insertInto_filter {p : α → Bool} {x : α} {xs : List α}
    (h : ∀ y ∈ xs, p x = true → p y = true → before y x = false) :
    (insertInto before x xs).filter p = (x :: xs).filter p := by
  induction xs with
  | nil => rfl
  | cons y rest ih =>
    rw [List.forall_mem_cons] at h
    rw [insertInto]
    split
    · rename_i hyx
      rw [List.filter_cons, ih h.2, List.filter_cons, List.filter_cons, List.filter_cons]
      -- `x` goes behind `y`, so not both of them are kept
      cases hx : p x with
      | false => rfl
      | true =>
        cases hy : p y with
        | false => rfl
        | true => rw [h.1 hx hy] at hyx; cases hyx
    · rfl

/-- items of which none comes before another keep their order -/
theorem stableSort_filter {p : α → Bool} {xs : List α}
    (h : ∀ x ∈ xs, ∀ y ∈ xs, p x = true → p y = true → before y x = false) :
    (stableSort before xs).filter p = xs.filter p := by
  induction xs with
  | nil => rfl
  | cons x rest ih =>
    have hrest : (stableSort before rest).filter p = rest.filter p :=
      ih fun y hy z hz => h y (List.mem_cons_of_mem _ hy) z (List.mem_cons_of_mem _ hz)
    have hinsert : (insertInto before x (stableSort before rest)).filter p
        = (x :: stableSort before rest).filter p := by
      refine insertInto_filter fun y hy => h x List.mem_cons_self y (List.mem_cons_of_mem _ ?_)
      exact (stableSort_perm before rest).mem_iff.mp hy
    rw [stableSort, hinsert, List.filter_cons, hrest, ← List.filter_cons]

variable {front : α → α → Prop} {tied : α → α → Bool}

/-- Two arrangements of the same items are one if an order decides between all items but those that
tie, and ties stand in one order. -/
theorem eq_of_arranged {xs ys : List α} (hperm : xs.Perm ys)
    (hself : ∀ a ∈ xs, tied a a = true)
    (hfront : ∀ a ∈ xs, ∀ b ∈ xs, front a b → ¬ (front b a ∨ tied b a = true))
    (hxs : xs.Pairwise fun a b => front a b ∨ tied a b = true)
    (hys : ys.Pairwise fun a b => front a b ∨ tied a b = true)
    (hties : ∀ a ∈ xs, xs.filter (tied a) = ys.filter (tied a)) : xs = ys := by
  induction xs generalizing ys with
  | nil => exact hperm.nil_eq
  | cons x xs ih =>
    obtain _ | ⟨y, ys⟩ := ys
    · exact absurd hperm.eq_nil (List.cons_ne_nil x xs)
    obtain ⟨hx, hxrest⟩ := List.pairwise_cons.mp hxs
    obtain ⟨hy, hyrest⟩ := List.pairwise_cons.mp hys
    have hyx : y ∈ x :: xs := hperm.mem_iff.mpr List.mem_cons_self
    have hhead : x = y := by
      rcases List.mem_cons.mp hyx with heq | hlater
      · exact heq.symm
      rcases List.mem_cons.mp (hperm.mem_iff.mp List.mem_cons_self) with heq | hbehind
      · exact heq
      -- each stands in front of the other one, so they tie, and the first of the ties is one item
      have htied : tied x y = true := by
        rcases hx y hlater with hfirst | htied
        · exact absurd (hy x hbehind) (hfront x List.mem_cons_self y hyx hfirst)
        · exact htied
      have hfilter := hties x List.mem_cons_self
      rw [List.filter_cons_of_pos (hself x List.mem_cons_self), List.filter_cons_of_pos htied] at hfilter
      exact (List.cons.inj hfilter).1
    subst hhead
    rw [List.forall_mem_cons] at hself
    refine congrArg (x :: ·) (ih hperm.cons_inv hself.2 ?_ hxrest hyrest ?_)
    · exact fun a ha b hb => hfront a (List.mem_cons_of_mem _ ha) b (List.mem_cons_of_mem _ hb)
    · intro a ha
      have hfilter := hties a (List.mem_cons_of_mem _ ha)
      rw [List.filter_cons, List.filter_cons] at hfilter
      split at hfilter
      · exact (List.cons.inj hfilter).2
      · exact hfilter

end

/-! ## values -/

namespace Value

def Lower (v w : Value) : Prop := v.equals w = false ∧ v.compares .below w = .ok true

theorem equals_null {v : Value} (h : v.isNull = false) :
    v.equals .null = false ∧ Value.null.equals v = false := by
  cases v <;> first | exact ⟨rfl, rfl⟩ | cases h

namespace Sortable

variable {values : List Value} {v w : Value}

/-- the lower one of two values comes first, and any value before a null -/
theorem comesBefore_iff (h : Sortable values) (hv : v ∈ values) (hw : w ∈ values) :
    v.comesBefore w = true ↔
      v.isNull = false ∧ (w.isNull = true ∨ (w.isNull = false ∧ v.Lower w)) := by
  unfold comesBefore
  cases hvn : v.isNull with
  | true =>
    rw [eq_null hvn, precedes_null]
    simp
  | false =>
    cases hwn : w.isNull with
    | true =>
      rw [eq_null hwn, null_last hvn]
      simp
    | false =>
      rw [h.precedes_eq hv hvn hwn, Lower]
      rcases h.decided v (mem_given hv hvn) w (mem_given hw hwn) with
        ⟨hvw, _⟩ | ⟨hvw, _, ⟨hlt, _⟩ | ⟨hge, _⟩⟩
      · simp [hvw]
      · simp [hvw, hlt]
      · simp [hvw, hge]

theorem equals_iff (h : Sortable values) (hv : v ∈ values) (hw : w ∈ values) :
    v.equals w = true ↔ v.comesBefore w = false ∧ w.comesBefore v = false := by
  unfold comesBefore
  cases hvn : v.isNull with
  | true =>
    cases hwn : w.isNull with
    | true =>
      rw [eq_null hvn, eq_null hwn, precedes_null]
      exact ⟨fun _ => ⟨rfl, rfl⟩, fun _ => rfl⟩
    | false =>
      rw [eq_null hvn, precedes_null, null_last hwn, (equals_null hwn).2]
      simp
  | false =>
    cases hwn : w.isNull with
    | true =>
      rw [eq_null hwn, precedes_null, null_last hvn, (equals_null hvn).1]
      simp
    | false =>
      rw [h.precedes_eq hv hvn hwn, h.precedes_eq hw hwn hvn]
      rcases h.decided v (mem_given hv hvn) w (mem_given hw hwn) with
        ⟨hvw, hwv⟩ | ⟨hvw, hwv, ⟨hlt, hge⟩ | ⟨hge, hlt⟩⟩
      · simp [hvw, hwv]
      · simp [hvw, hwv, hlt]
      · simp [hvw, hwv, hlt]

end Sortable

end Value

/-! ## rows -/

namespace SortKey

def valueIn (k : SortKey) (row : Value) : Value :=
  match k.field.path with
  | .ok path => row.resolve path
  | .error _ => .null

/-- The first row stands in front of the second under a key: an ascending key has the lower value
first and nulls last, a descending one the greater value first and nulls in front. -/
def Ahead (k : SortKey) (a b : Value) : Prop :=
  if k.direction.equals (.str "desc") then
    (k.valueIn b).isNull = false ∧ ((k.valueIn a).isNull = true ∨
      ((k.valueIn a).isNull = false ∧ (k.valueIn b).Lower (k.valueIn a)))
  else
    (k.valueIn a).isNull = false ∧ ((k.valueIn b).isNull = true ∨
      ((k.valueIn b).isNull = false ∧ (k.valueIn a).Lower (k.valueIn b)))

def ties (k : SortKey) (a b : Value) : Bool := (k.valueIn a).equals (k.valueIn b)

/-- the first key that tells two rows apart has the first one in front -/
def InFront : List SortKey → Value → Value → Prop
  | [], _, _ => False
  | k :: keys, a, b => k.Ahead a b ∨ (k.ties a b = true ∧ InFront keys a b)

def tiedOn (keys : List SortKey) (a b : Value) : Bool := keys.all (·.ties a b)

/-- the rows in the order of several keys; those that no key tells apart stand as they stood -/
structure Arranged (keys : List SortKey) (rows sorted : List Value) : Prop where
  perm : sorted.Perm rows
  ordered : sorted.Pairwise fun a b => InFront keys a b ∨ tiedOn keys a b = true
  stable : ∀ row ∈ rows, sorted.filter (tiedOn keys row) = rows.filter (tiedOn keys row)

variable {k : SortKey} {keys : List SortKey} {rows sorted : List Value} {a b c : Value}

theorem tiedOn_cons (k : SortKey) (keys : List SortKey) (a b : Value) :
    tiedOn (k :: keys) a b = (k.ties a b && tiedOn keys a b) := rfl

theorem Sorts.ahead_iff (h : k.Sorts rows) (ha : a ∈ rows) (hb : b ∈ rows) :
    k.Ahead a b ↔ k.rowBefore a b = true := by
  obtain ⟨path, hpath, hsortable⟩ := h
  have hmem {row : Value} (hrow : row ∈ rows) : row.resolve path ∈ rows.map (·.resolve path) :=
    List.mem_map_of_mem hrow
  have hvalue (row : Value) : k.valueIn row = row.resolve path := by rw [valueIn, hpath]
  rw [rowBefore_eq hpath, Ahead, hvalue, hvalue]
  show (if k.descends then _ else _) ↔ _
  cases k.descends with
  | true => exact (hsortable.comesBefore_iff (hmem hb) (hmem ha)).symm
  | false => exact (hsortable.comesBefore_iff (hmem ha) (hmem hb)).symm

theorem Sorts.ties_iff (h : k.Sorts rows) (ha : a ∈ rows) (hb : b ∈ rows) :
    k.ties a b = true ↔ k.rowBefore a b = false ∧ k.rowBefore b a = false := by
  obtain ⟨path, hpath, hsortable⟩ := h
  have hmem {row : Value} (hrow : row ∈ rows) : row.resolve path ∈ rows.map (·.resolve path) :=
    List.mem_map_of_mem hrow
  have hvalue (row : Value) : k.valueIn row = row.resolve path := by rw [valueIn, hpath]
  rw [rowBefore_eq hpath, rowBefore_eq hpath, ties, hvalue, hvalue,
    hsortable.equals_iff (hmem ha) (hmem hb)]
  cases k.descends with
  | true => exact and_comm
  | false => exact Iff.rfl

theorem Sorts.ties_self (h : k.Sorts rows) (ha : a ∈ rows) : k.ties a a = true := by
  rw [h.ties_iff ha ha, and_self]
  cases hself : k.rowBefore a a with
  | false => rfl
  | true => exact hself.symm.trans (h.orders.asymm ha ha hself)

theorem Sorts.before_eq_false_of_ties (h : k.Sorts rows) (ha : a ∈ rows) (hb : b ∈ rows) (hc : c ∈ rows)
    (hca : k.ties c a = true) (hcb : k.ties c b = true) : k.rowBefore b a = false := by
  rw [h.ties_iff hc ha] at hca
  rw [h.ties_iff hc hb] at hcb
  exact h.orders.trans ha hc hb hca.1 hcb.2

/-- one key breaks the ties of the others as the order of the values under it does -/
theorem Sorts.brokenBy_iff (h : k.Sorts rows) (ha : a ∈ rows) (hb : b ∈ rows)
    {others : Value → Value → Prop} :
    brokenBy k.rowBefore others a b ↔ k.Ahead a b ∨ (k.ties a b = true ∧ others a b) := by
  rw [brokenBy, h.ahead_iff ha hb, h.ties_iff ha hb]
  cases k.rowBefore a b <;> simp

/-- several keys, and at last `others`, order two rows as the values under the keys do -/
theorem lex_iff (hkeys : ∀ k ∈ keys, k.Sorts rows) (ha : a ∈ rows) (hb : b ∈ rows)
    {others : Value → Value → Prop} :
    lex others keys a b ↔ InFront keys a b ∨ (tiedOn keys a b = true ∧ others a b) := by
  induction keys with
  | nil => simp [lex, InFront, tiedOn]
  | cons k keys ih =>
    rw [List.forall_mem_cons] at hkeys
    rw [lex, hkeys.1.brokenBy_iff ha hb, ih hkeys.2, InFront, tiedOn_cons, Bool.and_eq_true, and_or_left,
      or_assoc, and_assoc]

theorem tiedOn_self (hkeys : ∀ k ∈ keys, k.Sorts rows) (ha : a ∈ rows) : tiedOn keys a a = true :=
  List.all_eq_true.mpr fun k hk => (hkeys k hk).ties_self ha

theorem inFront_asymm (hkeys : ∀ k ∈ keys, k.Sorts rows) (ha : a ∈ rows) (hb : b ∈ rows)
    (hab : InFront keys a b) : ¬ (InFront keys b a ∨ tiedOn keys b a = true) := by
  induction keys with
  | nil => cases hab
  | cons k keys ih =>
    rw [List.forall_mem_cons] at hkeys
    have hlater := ih hkeys.2
    rw [InFront, hkeys.1.ahead_iff ha hb, hkeys.1.ties_iff ha hb] at hab
    rw [InFront, hkeys.1.ahead_iff hb ha, tiedOn_cons, Bool.and_eq_true, hkeys.1.ties_iff hb ha]
    rcases hab with hab | ⟨⟨hab, hba⟩, hrest⟩
    · simp [hab, hkeys.1.orders.asymm ha hb hab]
    · simpa [hab, hba] using hlater hrest

theorem sortRows_stable (hkeys : ∀ k ∈ keys, k.Sorts rows) (h : sortRows keys rows = .ok sorted)
    (hc : c ∈ rows) : sorted.filter (tiedOn keys c) = rows.filter (tiedOn keys c) := by
  induction keys generalizing sorted with
  | nil => cases h; rfl
  | cons k keys ih =>
    rw [List.forall_mem_cons] at hkeys
    rw [sortRows_cons] at h
    obtain ⟨lesser, hlesser, h⟩ := Outcome.bind_eq_ok.mp h
    have hmem : ∀ row ∈ lesser, row ∈ rows := fun row => (sortRows_perm hlesser).mem_iff.mp
    rw [(hkeys.1.subset hmem).sort_eq] at h
    cases h
    have hsplit (xs : List Value) : xs.filter (tiedOn (k :: keys) c)
        = (xs.filter (tiedOn keys c)).filter (k.ties c) := by
      rw [List.filter_filter]
      rfl
    have hkeep : (stableSort k.rowBefore lesser).filter (tiedOn (k :: keys) c)
        = lesser.filter (tiedOn (k :: keys) c) := by
      refine stableSort_filter fun a ha b hb hca hcb => ?_
      rw [tiedOn_cons, Bool.and_eq_true] at hca hcb
      exact hkeys.1.before_eq_false_of_ties (hmem a ha) (hmem b hb) hc hca.1 hcb.1
    rw [hkeep, hsplit, ih hkeys.2 hlesser, ← hsplit]

/-- Rows whose values under every key are null or can be compared are sorted without a fault, and what
comes out is their one arrangement by the keys in turn, the most significant first, that is stable. -/
theorem sortRows_iff (hkeys : ∀ k ∈ keys, k.Sorts rows) :
    (∃ sorted, sortRows keys rows = .ok sorted) ∧
      ∀ sorted, sortRows keys rows = .ok sorted ↔ Arranged keys rows sorted := by
  have htrue : rows.Pairwise fun _ _ => True := List.pairwise_of_forall fun _ _ => trivial
  obtain ⟨sorted, hsorted, hpairwise⟩ := sortRows_pairwise hkeys htrue
  have hperm := sortRows_perm hsorted
  have harranged : Arranged keys rows sorted := by
    refine ⟨hperm, hpairwise.imp_of_mem fun {a b} ha hb hab => ?_, fun row => sortRows_stable hkeys hsorted⟩
    rw [lex_iff hkeys (hperm.mem_iff.mp ha) (hperm.mem_iff.mp hb)] at hab
    exact hab.imp_right And.left
  refine ⟨⟨sorted, hsorted⟩, fun other => ⟨fun hother => ?_, fun hother => ?_⟩⟩
  · rw [hsorted] at hother
    cases hother
    exact harranged
  · have hmem : ∀ row ∈ sorted, row ∈ rows := fun row => hperm.mem_iff.mp
    have heq : sorted = other := by
      refine eq_of_arranged (hperm.trans hother.perm.symm) ?_ ?_ harranged.ordered hother.ordered ?_
      · exact fun row hrow => tiedOn_self hkeys (hmem row hrow)
      · exact fun a ha b hb => inFront_asymm hkeys (hmem a ha) (hmem b hb)
      · intro row hrow
        rw [harranged.stable row (hmem row hrow), hother.stable row (hmem row hrow)]
    rw [hsorted, heq]

/-- by one key downwards and by another one upwards, with a tie and a row without each of them -/
theorem sortRows_mixed :
    let row (id : String) (entries : List (String × Value)) : Value := .record (("id", .str id) :: entries)
    let keys : List SortKey := [⟨.str "a", .str "desc"⟩, ⟨.str "b", .str "asc"⟩]
    let rows := [row "first" [("a", .int 1), ("b", .int 2)], row "higher" [("a", .int 2), ("b", .int 1)],
      row "second" [("a", .int 1), ("b", .int 2)], row "without a" [("b", .int 5)],
      row "without b" [("a", .int 1)]]
    let sorted := [row "without a" [("b", .int 5)], row "higher" [("a", .int 2), ("b", .int 1)],
      row "first" [("a", .int 1), ("b", .int 2)], row "second" [("a", .int 1), ("b", .int 2)],
      row "without b" [("a", .int 1)]]
    (∀ k ∈ keys, k.Sorts rows) ∧ sortRows keys rows = .ok sorted ∧ Arranged keys rows sorted := by
  intro row keys rows sorted
  have hkeys : ∀ k ∈ keys, k.Sorts rows := by
    simp only [keys, List.forall_mem_cons]
    exact ⟨⟨"a", rfl, Value.comparable_ints [1, 2, 1, 1]⟩, ⟨"b", rfl, Value.comparable_ints [2, 1, 2, 5]⟩,
      fun _ h => absurd h List.not_mem_nil⟩
  exact ⟨hkeys, rfl, ((sortRows_iff hkeys).2 sorted).mp rfl⟩

end SortKey

end ListQuery
