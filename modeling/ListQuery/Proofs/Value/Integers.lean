import ListQuery.Window

/-!
# Integers among values

Comparisons, bounds and arithmetic of values that are integers are those of the integers
themselves, so a page number and a page size from whole settings are whole, and within bounds.

* `Value.equals_int`, `Value.compares_int`   equality and order;
* `Value.compares_of_number`                 the order of numbers of all kinds;
* `Value.atLeast_eq`, `Value.atMost_eq`      bounds;
* `Value.arithmetic_integer`                 sums, differences and products;
* `Value.position_nat`                       the end of a slice that is not negative;
* `pageNumber`, `pageSize`                   what a page number and a page size come to.
-/

namespace ListQuery

/-! ## order -/

theorem Binary64.signed_exactly (n : Int) : signed (n < 0) n.natAbs = n := by
  unfold signed
  by_cases h : n < 0
  · rw [if_pos (by simpa using h)]; omega
  · rw [if_neg (by simpa using h)]; omega

theorem Binary64.inUnitsOf_exactly (n : Int) : inUnitsOf 0 (n < 0) n.natAbs 0 = n := by
  show signed (n < 0) (n.natAbs * 1) = n
  rw [Nat.mul_one, signed_exactly]

theorem Binary64.compare?_exactly (m n : Int) :
    compare? (exactly m) (exactly n) = some (compare m n) := by
  show some (compare (inUnitsOf (min 0 0) (m < 0) m.natAbs 0)
    (inUnitsOf (min 0 0) (n < 0) n.natAbs 0)) = _
  rw [Int.min_self, inUnitsOf_exactly, inUnitsOf_exactly]

namespace Value

theorem compares_of_number {u : Value} {x : Binary64} (r : Relation) (hu : u.number? = some x)
    (w : Value) : u.compares r w = match w.number? with
      | some z => .ok (((Binary64.compare? x z).map r.holds).getD false)
      | none => .error .wrongKind := by
  cases u <;> cases hu <;> cases w <;> rfl

theorem number?_of_integer? {v : Value} {n : Int} (h : v.integer? = some n) :
    v.number? = some (.exactly n) := by
  cases v with
  | bool | int => cases h; rfl
  | _ => cases h

theorem compares_integer (r : Relation) {v w : Value} {m n : Int} (hv : v.integer? = some m)
    (hw : w.integer? = some n) : v.compares r w = .ok (r.holds (compare m n)) := by
  rw [compares_of_number r (number?_of_integer? hv), number?_of_integer? hw]
  dsimp only
  rw [Binary64.compare?_exactly]
  rfl

theorem compares_int (r : Relation) (m n : Int) :
    (Value.int m).compares r (.int n) = .ok (r.holds (compare m n)) := compares_integer r rfl rfl

theorem equals_int (m n : Int) : (Value.int m).equals (.int n) = (compare m n == .eq) := by
  have h : (Value.int m).equals (.int n)
      = (Binary64.compare? (.exactly m) (.exactly n) == some .eq) := by
    rw [equals]
    · rfl
    all_goals intros; contradiction
  rw [h, Binary64.compare?_exactly]
  cases compare m n <;> rfl

/-! ## bounds -/

section
variable {bound v : Value} {m n : Int}

theorem atLeast_eq (hbound : bound.integer? = some m) (hv : v.integer? = some n) :
    atLeast bound v = .ok (if m < n then v else bound) := by
  unfold atLeast
  rw [compares_integer .above hv hbound, Outcome.ok_bind]
  show Except.ok (if compare n m == .gt then v else bound) = _
  simp only [beq_iff_eq, Int.compare_eq_gt]

theorem atMost_eq (hbound : bound.integer? = some m) (hv : v.integer? = some n) :
    atMost bound v = .ok (if n < m then v else bound) := by
  unfold atMost
  rw [compares_integer .below hv hbound, Outcome.ok_bind]
  show Except.ok (if compare n m == .lt then v else bound) = _
  simp only [beq_iff_eq, Int.compare_eq_lt]

theorem atLeast_integer (hbound : bound.integer? = some m) (hv : v.integer? = some n) :
    ∃ u, atLeast bound v = .ok u ∧ u.integer? = some (max m n) := by
  refine ⟨_, atLeast_eq hbound hv, ?_⟩
  split
  · rw [hv, Int.max_eq_right (by omega)]
  · rw [hbound, Int.max_eq_left (by omega)]

theorem atMost_integer (hbound : bound.integer? = some m) (hv : v.integer? = some n) :
    ∃ u, atMost bound v = .ok u ∧ u.integer? = some (min m n) := by
  refine ⟨_, atMost_eq hbound hv, ?_⟩
  split
  · rw [hv, Int.min_eq_right (by omega)]
  · rw [hbound, Int.min_eq_left (by omega)]

end

theorem atLeast_int (bound n : Int) : atLeast (.int bound) (.int n) = .ok (.int (max bound n)) := by
  rw [atLeast_eq rfl rfl]
  split
  · rw [Int.max_eq_right (by omega)]
  · rw [Int.max_eq_left (by omega)]

theorem atMost_int (bound n : Int) : atMost (.int bound) (.int n) = .ok (.int (min bound n)) := by
  rw [atMost_eq rfl rfl]
  split
  · rw [Int.min_eq_right (by omega)]
  · rw [Int.min_eq_left (by omega)]

/-! ## arithmetic -/

theorem arithmetic_integer (onInt : Int → Int → Int) (onFloat : Binary64 → Binary64 → Binary64)
    {v w : Value} {m n : Int} (hv : v.integer? = some m) (hw : w.integer? = some n) :
    arithmetic onInt onFloat v w = .ok (.int (onInt m n)) := by
  unfold arithmetic
  rw [hv, hw]

/-! ## slices -/

theorem position_nat (length n : Nat) : position length n = min n length := by
  unfold position
  rw [if_neg (by omega), Int.toNat_natCast]

theorem takeTo_nat {α : Type} (n : Nat) (xs : List α) : takeTo (some (n : Int)) xs = xs.take n := by
  show xs.take (position xs.length n) = _
  rw [position_nat]
  rcases Nat.le_total n xs.length with h | h
  · rw [Nat.min_eq_left h]
  · rw [Nat.min_eq_right h, List.take_length, List.take_of_length_le h]

theorem dropTo_nat {α : Type} (n : Nat) (xs : List α) : dropTo (some (n : Int)) xs = xs.drop n := by
  show xs.drop (position xs.length n) = _
  rw [position_nat]
  rcases Nat.le_total n xs.length with h | h
  · rw [Nat.min_eq_left h]
  · rw [Nat.min_eq_right h, List.drop_length, List.drop_eq_nil_of_le h]

theorem mem_takeTo {α : Type} {stop : Option Int} {xs : List α} {x : α} (h : x ∈ takeTo stop xs) :
    x ∈ xs := by
  cases stop with
  | none => exact h
  | some n => exact List.mem_of_mem_take h

theorem mem_dropTo {α : Type} {start : Option Int} {xs : List α} {x : α} (h : x ∈ dropTo start xs) :
    x ∈ xs := by
  cases start with
  | none => exact h
  | some n => exact List.mem_of_mem_drop h

theorem takeTo_map {α β : Type} (f : α → β) (stop : Option Int) (xs : List α) :
    takeTo stop (xs.map f) = (takeTo stop xs).map f := by
  cases stop with
  | none => rfl
  | some n => rw [takeTo, takeTo, List.length_map, List.map_take]

end Value

/-! ## pages -/

/-- the page that a request without a page gets from the default, and at least the first -/
def pageNumber (page : Option Int) (default : Int) : Int := max 1 (page.getD default)

/-- how many rows a page has: at least one, but no more than the most -/
def pageSize (limit : Option Int) (default most : Int) : Int := min most (max 1 (limit.getD default))

theorem pageSize_pos (limit : Option Int) (default : Int) {most : Int} (h : 1 ≤ most) :
    1 ≤ pageSize limit default most := by
  unfold pageSize
  omega

theorem wholeOr_ofInt? (n : Option Int) (default : Int) :
    wholeOr (.ofInt? n) (.int default) = .ok (.int (n.getD default)) := by
  cases n <;> rfl

theorem normalizePage_ofInt? (page : Option Int) (default : Int) :
    normalizePage (.ofInt? page) (.int default) = .ok (.int (pageNumber page default)) := by
  unfold normalizePage
  rw [wholeOr_ofInt?, Outcome.ok_bind, Value.atLeast_int]
  rfl

theorem normalizeLimit_ofInt? (limit : Option Int) (default most : Int) :
    normalizeLimit (.ofInt? limit) (.int default) (.int most)
      = .ok (.int (pageSize limit default most)) := by
  unfold normalizeLimit
  rw [wholeOr_ofInt?, Outcome.ok_bind, Value.atLeast_int, Outcome.ok_bind, Value.atMost_int]
  rfl

end ListQuery
