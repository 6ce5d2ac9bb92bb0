import ListQuery.Proofs.Collection.Order
import ListQuery.Proofs.Value.Integers

/-!
# Sorted rows

Rows whose values under every key are null or can be compared are sorted without a fault: by the
first key, ties by the next one, and the last ties by where the rows stood.

* `brokenBy`, `OrdersUpToTies`   an order with its ties broken by another one;
* `stableSort_pairwise`          what the stable sort comes to;
* `Value.Comparable`, `Sortable` values with an order among them, and such values and nulls;
* `SortKey.rowBefore`, `lex`     rows by one key, and by several;
* `sortRows_pairwise`            rows sorted under several keys;
* `SortKey.lex_trans`, `lex_asymm`
                                 several keys order rows as one does.
-/

namespace ListQuery

/-! ## orders with ties -/

section
variable {α β : Type}

/-- the first item comes before the second, or neither comes before the other and `ties` has it so -/
def brokenBy (before : α → α → Bool) (ties : α → α → Prop) (a b : α) : Prop :=
  before a b = true ∨ (before b a = false ∧ ties a b)

/-- the items are ordered, some of them side by side -/
structure OrdersUpToTies (before : α → α → Bool) (xs : List α) : Prop where
  asymm {a b : α} (ha : a ∈ xs) (hb : b ∈ xs) (h : before a b = true) : before b a = false
  trans {a b c : α} (ha : a ∈ xs) (hb : b ∈ xs) (hc : c ∈ xs) (hab : before b a = false)
    (hbc : before c b = false) : before c a = false

variable {before : α → α → Bool} {ties : α → α → Prop} {xs ys : List α}

theorem OrdersUpToTies.subset (h : OrdersUpToTies before xs) (hys : ∀ y ∈ ys, y ∈ xs) :
    OrdersUpToTies before ys where
  asymm ha hb hab := h.asymm (hys _ ha) (hys _ hb) hab
  trans ha hb hc hab hbc := h.trans (hys _ ha) (hys _ hb) (hys _ hc) hab hbc

theorem OrdersUpToTies.before_of_before_of_not {a b c : α} (h : OrdersUpToTies before xs)
    (ha : a ∈ xs) (hb : b ∈ xs) (hc : c ∈ xs) (hab : before a b = true) (hbc : before c b = false) :
    before a c = true := by
  cases hac : before a c with
  | true => rfl
  | false =>
    have hback := h.trans hb hc ha hbc hac
    rw [hab] at hback
    cases hback

theorem OrdersUpToTies.before_of_not_of_before {a b c : α} (h : OrdersUpToTies before xs)
    (ha : a ∈ xs) (hb : b ∈ xs) (hc : c ∈ xs) (hab : before b a = false) (hbc : before b c = true) :
    before a c = true := by
  cases hac : before a c with
  | true => rfl
  | false =>
    have hback := h.trans hc ha hb hac hab
    rw [hbc] at hback
    cases hback

theorem brokenBy_trans (h : OrdersUpToTies before xs) {a b c : α} (ha : a ∈ xs) (hb : b ∈ xs)
    (hc : c ∈ xs) (hties : ties a b → ties b c → ties a c) (hab : brokenBy before ties a b)
    (hbc : brokenBy before ties b c) : brokenBy before ties a c := by
  rcases hab with hab | ⟨hab, tab⟩
  · rcases hbc with hbc | ⟨hbc, _⟩
    · exact .inl (h.before_of_before_of_not ha hb hc hab (h.asymm hb hc hbc))
    · exact .inl (h.before_of_before_of_not ha hb hc hab hbc)
  · rcases hbc with hbc | ⟨hbc, tbc⟩
    · exact .inl (h.before_of_not_of_before ha hb hc hab hbc)
    · exact .inr ⟨h.trans ha hb hc hab hbc, hties tab tbc⟩

theorem brokenBy_asymm (h : OrdersUpToTies before xs) {a b : α} (ha : a ∈ xs) (hb : b ∈ xs)
    (hties : ties a b → ¬ ties b a) (hab : brokenBy before ties a b) : ¬ brokenBy before ties b a := by
  rintro (hba | ⟨hba, tba⟩)
  · rcases hab with hab | ⟨hab, _⟩
    · rw [h.asymm ha hb hab] at hba; cases hba
    · rw [hab] at hba; cases hba
  · rcases hab with hab | ⟨_, tab⟩
    · rw [hab] at hba; cases hba
    · exact hties tab tba

/-! ## stable sorting -/

theorem mem_insertInto {x y : α} : y ∈ insertInto before x xs ↔ y = x ∨ y ∈ xs := by
  rw [(insertInto_perm before x xs).mem_iff, List.mem_cons]

theorem insertInto_pairwise {x : α} (h : OrdersUpToTies before (x :: xs)) (hx : ∀ y ∈ xs, ties x y)
    (hxs : xs.Pairwise (brokenBy before ties)) :
    (insertInto before x xs).Pairwise (brokenBy before ties) := by
  induction xs with
  | nil => exact List.pairwise_singleton _ x
  | cons y rest ih =>
    obtain ⟨hy, hrest⟩ := List.pairwise_cons.mp hxs
    rw [List.forall_mem_cons] at hx
    have hself : x ∈ x :: y :: rest := List.mem_cons_self
    have hfirst : y ∈ x :: y :: rest := List.mem_cons_of_mem _ List.mem_cons_self
    rw [insertInto]
    split
    · rename_i hyx
      have hsubset : ∀ z ∈ x :: rest, z ∈ x :: y :: rest := by
        intro z hz
        rcases List.mem_cons.mp hz with rfl | hz
        · exact hself
        · exact List.mem_cons_of_mem _ (List.mem_cons_of_mem _ hz)
      refine List.pairwise_cons.mpr ⟨?_, ih (h.subset hsubset) hx.2 hrest⟩
      intro z hz
      rcases mem_insertInto.mp hz with rfl | hz
      · exact .inl hyx
      · exact hy z hz
    · rename_i hyx
      have hle : before y x = false := by simpa using hyx
      refine List.pairwise_cons.mpr ⟨?_, hxs⟩
      intro z hz
      rcases List.mem_cons.mp hz with rfl | hz
      · exact .inr ⟨hle, hx.1⟩
      · -- what follows the first item that is not before `x` is not before `x` either
        have hmem : z ∈ x :: y :: rest := List.mem_cons_of_mem _ (List.mem_cons_of_mem _ hz)
        have hzy : before z y = false := by
          rcases hy z hz with hyz | ⟨hzy, _⟩
          · exact h.asymm hfirst hmem hyz
          · exact hzy
        exact .inr ⟨h.trans hself hfirst hmem hle hzy, hx.2 z hz⟩

theorem stableSort_pairwise (h : OrdersUpToTies before xs) (hxs : xs.Pairwise ties) :
    (stableSort before xs).Pairwise (brokenBy before ties) := by
  induction xs with
  | nil => exact List.Pairwise.nil
  | cons x rest ih =>
    obtain ⟨hx, hrest⟩ := List.pairwise_cons.mp hxs
    have hperm := stableSort_perm before rest
    have hsubset : ∀ y ∈ x :: stableSort before rest, y ∈ x :: rest := by
      intro y hy
      exact ((hperm.cons x).mem_iff).mp hy
    refine insertInto_pairwise (h.subset hsubset) ?_ (ih (h.subset fun y => List.mem_cons_of_mem x) hrest)
    intro y hy
    exact hx y (hperm.mem_iff.mp hy)

theorem insertInto_map (before : β → β → Bool) (f : α → β) (x : α) (xs : List α) :
    insertInto before (f x) (xs.map f) = (insertInto (fun a b => before (f a) (f b)) x xs).map f := by
  induction xs with
  | nil => rfl
  | cons y rest ih =>
    rw [List.map_cons, insertInto, insertInto, ih]
    split <;> rfl

theorem stableSort_map (before : β → β → Bool) (f : α → β) (xs : List α) :
    stableSort before (xs.map f) = (stableSort (fun a b => before (f a) (f b)) xs).map f := by
  induction xs with
  | nil => rfl
  | cons x rest ih =>
    rw [List.map_cons, stableSort, stableSort, ih, insertInto_map]

end

/-! ## values -/

namespace Value

def NotAbove (v w : Value) : Prop := v.equals w = true ∨ v.compares .below w = .ok true

/-- every two of the values are equal, or unequal and one of them below the other; and a value that
is not above one is not above what that is not above -/
structure Comparable (values : List Value) : Prop where
  decided : ∀ v ∈ values, ∀ w ∈ values,
    (v.equals w = true ∧ w.equals v = true) ∨
    (v.equals w = false ∧ w.equals v = false ∧
      ((v.compares .below w = .ok true ∧ w.compares .below v = .ok false) ∨
        (v.compares .below w = .ok false ∧ w.compares .below v = .ok true)))
  trans : ∀ u ∈ values, ∀ v ∈ values, ∀ w ∈ values, u.NotAbove v → v.NotAbove w → u.NotAbove w

/-- the values are null or can be compared -/
def Sortable (values : List Value) : Prop := Comparable (values.filter fun v => !v.isNull)

theorem Comparable.subset {values others : List Value} (h : Comparable values)
    (hothers : ∀ v ∈ others, v ∈ values) : Comparable others where
  decided v hv w hw := h.decided v (hothers v hv) w (hothers w hw)
  trans u hu v hv w hw := h.trans u (hothers u hu) v (hothers v hv) w (hothers w hw)

theorem Sortable.subset {values others : List Value} (h : Sortable values)
    (hothers : ∀ v ∈ others, v ∈ values) : Sortable others := by
  refine Comparable.subset h fun v hv => ?_
  rw [List.mem_filter] at hv ⊢
  exact ⟨hothers v hv.1, hv.2⟩

theorem Comparable.equals_self {values : List Value} (h : Comparable values) {v : Value}
    (hv : v ∈ values) : v.equals v = true := by
  rcases h.decided v hv v hv with ⟨heq, _⟩ | ⟨_, _, ⟨hlt, hge⟩ | ⟨hge, hlt⟩⟩
  · exact heq
  · rw [hlt] at hge; cases hge
  · rw [hlt] at hge; cases hge

theorem agrees_of_equals_self {v : Value} (h : v.equals v = true) (w : Value) :
    v.agrees w = v.equals w := by
  have hnumber : sameNaN v w = false := by
    cases v with
    | float x =>
      cases x with
      | nan payload => cases h
      | _ => cases w with
        | float y => cases y <;> rfl
        | _ => rfl
    | _ => rfl
  rw [agrees, hnumber, Bool.false_or]

theorem notAbove_int {m n : Int} : (Value.int m).NotAbove (.int n) ↔ m ≤ n := by
  rw [NotAbove, equals_int, compares_int]
  rcases Int.lt_trichotomy m n with h | rfl | h
  · rw [Int.compare_eq_lt.mpr h]
    exact ⟨fun _ => Int.le_of_lt h, fun _ => .inr rfl⟩
  · rw [Int.compare_eq_eq.mpr rfl]
    exact ⟨fun _ => Int.le_refl m, fun _ => .inl rfl⟩
  · rw [Int.compare_eq_gt.mpr h]
    constructor
    · rintro (h | h) <;> cases h
    · intro hle; omega

theorem comparable_ints (ns : List Int) : Comparable (ns.map .int) where
  decided v hv w hw := by
    obtain ⟨m, _, rfl⟩ := List.mem_map.mp hv
    obtain ⟨n, _, rfl⟩ := List.mem_map.mp hw
    rw [equals_int, equals_int, compares_int, compares_int]
    rcases Int.lt_trichotomy m n with h | rfl | h
    · rw [Int.compare_eq_lt.mpr h, Int.compare_eq_gt.mpr h]
      exact .inr ⟨rfl, rfl, .inl ⟨rfl, rfl⟩⟩
    · rw [Int.compare_eq_eq.mpr rfl]
      exact .inl ⟨rfl, rfl⟩
    · rw [Int.compare_eq_lt.mpr h, Int.compare_eq_gt.mpr h]
      exact .inr ⟨rfl, rfl, .inr ⟨rfl, rfl⟩⟩
  trans u hu v hv w hw huv hvw := by
    obtain ⟨l, _, rfl⟩ := List.mem_map.mp hu
    obtain ⟨m, _, rfl⟩ := List.mem_map.mp hv
    obtain ⟨n, _, rfl⟩ := List.mem_map.mp hw
    rw [notAbove_int] at huv hvw ⊢
    exact Int.le_trans huv hvw

def comesBefore (v w : Value) : Bool :=
  match v.precedes w with
  | .ok answer => answer
  | .error _ => false

theorem precedes_given {v w : Value} (hv : v.isNull = false) (hw : w.isNull = false) :
    v.precedes w = if v.agrees w then .ok false else v.compares .below w := by
  unfold precedes
  split
  · cases hv
  · cases hw
  · rfl

theorem eq_null {v : Value} (h : v.isNull = true) : v = .null := by
  cases v with
  | null => rfl
  | _ => cases h

theorem precedes_null (w : Value) : Value.null.precedes w = .ok false := rfl

theorem null_last {v : Value} (hv : v.isNull = false) : v.precedes .null = .ok true := by
  unfold precedes
  split
  · cases hv
  · rfl
  · rename_i h; exact absurd rfl h

namespace Sortable

variable {values : List Value} {u v w : Value}

theorem mem_given (hv : v ∈ values) (hgiven : v.isNull = false) :
    v ∈ values.filter fun v => !v.isNull :=
  List.mem_filter.mpr ⟨hv, by rw [hgiven]; rfl⟩

theorem precedes_eq (h : Sortable values) (hv : v ∈ values) (hvn : v.isNull = false)
    (hwn : w.isNull = false) :
    v.precedes w = if v.equals w then .ok false else v.compares .below w := by
  rw [precedes_given hvn hwn, agrees_of_equals_self (h.equals_self (mem_given hv hvn))]

theorem precedes_cases (h : Sortable values) (hv : v ∈ values) (hw : w ∈ values) :
    (v.precedes w = .ok false ∧ w.precedes v = .ok false ∧ v.agrees w = true) ∨
      (v.precedes w = .ok true ∧ w.precedes v = .ok false) ∨
      (v.precedes w = .ok false ∧ w.precedes v = .ok true) := by
  cases hvn : v.isNull with
  | true =>
    rw [eq_null hvn]
    cases hwn : w.isNull with
    | true => rw [eq_null hwn]; exact .inl ⟨rfl, rfl, rfl⟩
    | false => exact .inr (.inr ⟨rfl, null_last hwn⟩)
  | false =>
    cases hwn : w.isNull with
    | true => rw [eq_null hwn]; exact .inr (.inl ⟨null_last hvn, rfl⟩)
    | false =>
      have hvg := mem_given hv hvn
      rw [h.precedes_eq hv hvn hwn, h.precedes_eq hw hwn hvn,
        agrees_of_equals_self (h.equals_self hvg)]
      rcases h.decided v hvg w (mem_given hw hwn) with ⟨hvw, hwv⟩ | ⟨hvw, hwv, hlt | hlt⟩
      · rw [hvw, hwv]; exact .inl ⟨rfl, rfl, rfl⟩
      · rw [hvw, hwv]; exact .inr (.inl hlt)
      · rw [hvw, hwv]; exact .inr (.inr hlt)

theorem ordered (h : Sortable values) (hv : v ∈ values) (hw : w ∈ values) :
    v.ordered w = true := by
  unfold Value.ordered
  rcases h.precedes_cases hv hw with ⟨hvw, hwv, hagrees⟩ | ⟨hvw, hwv⟩ | ⟨hvw, hwv⟩
  · rw [hvw, hwv, hagrees]; rfl
  · rw [hvw, hwv]; rfl
  · rw [hvw, hwv]; rfl

theorem comesBefore_asymm (h : Sortable values) (hv : v ∈ values) (hw : w ∈ values)
    (hvw : v.comesBefore w = true) : w.comesBefore v = false := by
  unfold comesBefore at hvw ⊢
  rcases h.precedes_cases hv hw with ⟨_, hwv, _⟩ | ⟨_, hwv⟩ | ⟨hfalse, _⟩
  · rw [hwv]
  · rw [hwv]
  · rw [hfalse] at hvw; cases hvw

theorem comesBefore_of_not (h : Sortable values) (hv : v ∈ values) (hw : w ∈ values)
    (hties : v.agrees w = false) (hwv : w.comesBefore v = false) : v.comesBefore w = true := by
  unfold comesBefore at hwv ⊢
  rcases h.precedes_cases hv hw with ⟨_, _, hagrees⟩ | ⟨hvw, _⟩ | ⟨_, htrue⟩
  · rw [hties] at hagrees; cases hagrees
  · rw [hvw]
  · rw [htrue] at hwv; cases hwv

/-- a value does not come before another exactly when it is null, or the other is not above it -/
theorem comesBefore_eq_false (h : Sortable values) (hv : v ∈ values) (hw : w ∈ values) :
    w.comesBefore v = false ↔ w.isNull = true ∨ (v.isNull = false ∧ w.isNull = false ∧ v.NotAbove w) := by
  unfold comesBefore
  cases hwn : w.isNull with
  | true =>
    rw [eq_null hwn, precedes_null]
    simp
  | false =>
    cases hvn : v.isNull with
    | true =>
      rw [eq_null hvn, null_last hwn]
      simp
    | false =>
      have hnotAbove : v.NotAbove w ↔ w.precedes v = .ok false := by
        rw [h.precedes_eq hw hwn hvn, NotAbove]
        rcases h.decided v (mem_given hv hvn) w (mem_given hw hwn) with
          ⟨hvw, hwv⟩ | ⟨hvw, hwv, ⟨hlt, hge⟩ | ⟨hlt, hge⟩⟩
        · simp [hvw, hwv]
        · simp [hvw, hwv, hlt, hge]
        · simp [hvw, hwv, hlt, hge]
      rw [hnotAbove]
      rcases h.precedes_cases hv hw with ⟨_, hwv, _⟩ | ⟨_, hwv⟩ | ⟨_, hwv⟩
      · simp [hwv]
      · simp [hwv]
      · simp [hwv]

theorem comesBefore_trans (h : Sortable values) (hu : u ∈ values) (hv : v ∈ values)
    (hw : w ∈ values) (huv : v.comesBefore u = false) (hvw : w.comesBefore v = false) :
    w.comesBefore u = false := by
  rw [h.comesBefore_eq_false hu hv] at huv
  rw [h.comesBefore_eq_false hv hw] at hvw
  rw [h.comesBefore_eq_false hu hw]
  rcases hvw with hwn | ⟨hvn, hwn, hvw⟩
  · exact .inl hwn
  · rcases huv with hnull | ⟨hun, _, huv⟩
    · rw [hvn] at hnull; cases hnull
    · exact .inr ⟨hun, hwn, h.trans u (mem_given hu hun) v (mem_given hv hvn) w (mem_given hw hwn)
        huv hvw⟩

end Sortable

end Value

/-! ## keys -/

namespace SortKey

def rowBefore (k : SortKey) (a b : Value) : Bool :=
  match k.field.path with
  | .ok path => k.before (a.resolve path, a) (b.resolve path, b)
  | .error _ => false

/-- rows under several keys, the most significant first, and then by `ties` -/
def lex (ties : Value → Value → Prop) : List SortKey → Value → Value → Prop
  | [] => ties
  | k :: keys => brokenBy k.rowBefore (lex ties keys)

/-- what the key's path leads to in the rows is null or can be compared -/
def Sorts (k : SortKey) (rows : List Value) : Prop :=
  ∃ path, k.field.path = .ok path ∧ Value.Sortable (rows.map (·.resolve path))

variable {k : SortKey} {keys : List SortKey} {rows : List Value} {ties : Value → Value → Prop}

theorem Sorts.subset {others : List Value} (h : k.Sorts rows) (hothers : ∀ row ∈ others, row ∈ rows) :
    k.Sorts others := by
  obtain ⟨path, hpath, hsortable⟩ := h
  refine ⟨path, hpath, hsortable.subset fun v hv => ?_⟩
  obtain ⟨row, hrow, rfl⟩ := List.mem_map.mp hv
  exact List.mem_map_of_mem (hothers row hrow)

theorem before_eq (k : SortKey) (a b : Value × Value) :
    k.before a b = if k.descends then b.1.comesBefore a.1 else a.1.comesBefore b.1 := by
  unfold before Value.comesBefore
  cases k.descends <;> rfl

theorem rowBefore_eq {path : String} (hpath : k.field.path = .ok path) (a b : Value) :
    k.rowBefore a b = if k.descends then (b.resolve path).comesBefore (a.resolve path)
      else (a.resolve path).comesBefore (b.resolve path) := by
  unfold rowBefore
  rw [hpath]
  exact before_eq k _ _

theorem Sorts.orders (h : k.Sorts rows) : OrdersUpToTies k.rowBefore rows := by
  obtain ⟨path, hpath, hsortable⟩ := h
  have hmem {row : Value} (hrow : row ∈ rows) : row.resolve path ∈ rows.map (·.resolve path) :=
    List.mem_map_of_mem hrow
  constructor
  · intro a b ha hb hab
    rw [rowBefore_eq hpath] at hab ⊢
    cases hdescends : k.descends with
    | true => rw [hdescends] at hab; exact hsortable.comesBefore_asymm (hmem hb) (hmem ha) hab
    | false => rw [hdescends] at hab; exact hsortable.comesBefore_asymm (hmem ha) (hmem hb) hab
  · intro a b c ha hb hc hab hbc
    rw [rowBefore_eq hpath] at hab hbc ⊢
    cases hdescends : k.descends with
    | true =>
      rw [hdescends] at hab hbc
      exact hsortable.comesBefore_trans (hmem hc) (hmem hb) (hmem ha) hbc hab
    | false =>
      rw [hdescends] at hab hbc
      exact hsortable.comesBefore_trans (hmem ha) (hmem hb) (hmem hc) hab hbc

theorem allOrdered_of {values : List Value} (h : ∀ v ∈ values, ∀ w ∈ values, v.ordered w = true) :
    allOrdered values = true := by
  induction values with
  | nil => rfl
  | cons v rest ih =>
    rw [allOrdered, Bool.and_eq_true, List.all_eq_true]
    refine ⟨fun w hw => h v List.mem_cons_self w (List.mem_cons_of_mem _ hw), ih ?_⟩
    intro u hu w hw
    exact h u (List.mem_cons_of_mem _ hu) w (List.mem_cons_of_mem _ hw)

/-- rows that a key can sort are sorted stably by it -/
theorem Sorts.sort_eq (h : k.Sorts rows) : k.sort rows = .ok (stableSort k.rowBefore rows) := by
  obtain ⟨path, hpath, hsortable⟩ := h
  have hkeyed : (rows.mapM fun row => do return (row.resolve (← k.field.path), row) :
      Outcome (List (Value × Value))) = .ok (rows.map fun row => (row.resolve path, row)) := by
    refine Outcome.mapM_of_forall fun row _ => ?_
    rw [hpath]
    rfl
  have hordered : allOrdered ((rows.map fun row => (row.resolve path, row)).map (·.1)) = true := by
    rw [List.map_map]
    exact allOrdered_of fun v hv w hw => hsortable.ordered hv hw
  have hbefore : (fun a b : Value => k.before (a.resolve path, a) (b.resolve path, b))
      = k.rowBefore := by
    unfold rowBefore
    rw [hpath]
  unfold SortKey.sort
  rw [hkeyed, Outcome.ok_bind, if_pos hordered]
  show Except.ok ((stableSort k.before (rows.map fun row => (row.resolve path, row))).map (·.2)) = _
  rw [stableSort_map, hbefore, List.map_map]
  exact congrArg Except.ok (List.map_id _)

theorem sortRows_pairwise (hkeys : ∀ k ∈ keys, k.Sorts rows) (hrows : rows.Pairwise ties) :
    ∃ sorted, sortRows keys rows = .ok sorted ∧ sorted.Pairwise (lex ties keys) := by
  induction keys with
  | nil => exact ⟨rows, rfl, hrows⟩
  | cons k keys ih =>
    rw [List.forall_mem_cons] at hkeys
    obtain ⟨lesser, hlesser, hpairwise⟩ := ih hkeys.2
    have hperm := sortRows_perm hlesser
    have hsorts : k.Sorts lesser := hkeys.1.subset fun row hrow => hperm.mem_iff.mp hrow
    refine ⟨stableSort k.rowBefore lesser, ?_, stableSort_pairwise hsorts.orders hpairwise⟩
    rw [sortRows_cons, hlesser]
    exact hsorts.sort_eq

theorem lex_trans (hkeys : ∀ k ∈ keys, k.Sorts rows) {a b c : Value} (ha : a ∈ rows) (hb : b ∈ rows)
    (hc : c ∈ rows) (hties : ties a b → ties b c → ties a c) (hab : lex ties keys a b)
    (hbc : lex ties keys b c) : lex ties keys a c := by
  induction keys with
  | nil => exact hties hab hbc
  | cons k keys ih =>
    rw [List.forall_mem_cons] at hkeys
    exact brokenBy_trans hkeys.1.orders ha hb hc (ih hkeys.2) hab hbc

theorem lex_asymm (hkeys : ∀ k ∈ keys, k.Sorts rows) {a b : Value} (ha : a ∈ rows) (hb : b ∈ rows)
    (hties : ties a b → ¬ ties b a) (hab : lex ties keys a b) : ¬ lex ties keys b a := by
  induction keys with
  | nil => exact hties hab
  | cons k keys ih =>
    rw [List.forall_mem_cons] at hkeys
    exact brokenBy_asymm hkeys.1.orders ha hb (ih hkeys.2) hab

end SortKey

end ListQuery
