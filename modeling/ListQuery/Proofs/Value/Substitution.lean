import ListQuery.Predicate.Evaluate
import ListQuery.Proofs.Value.Equality
import ListQuery.Proofs.Value.Integers

/-!
# Equal values in comparisons

The number one, the double one and the truth value true make one key.  They are told apart by nothing
that compares them with another value, be it equality, order or membership: what is equal may stand
for each other on the left of a comparison.  Only their texts differ, so the operators that compare
texts are none of these.

* `Value.equals_left`, `agrees_left`    equality with another value;
* `Value.compares_left`                 order;
* `Value.isIn_left`                     membership;
* `Operator.extensional`                operators that tell no equal values apart;
* `Predicate.compareWith_left`          a comparison of equal keys.
-/

namespace ListQuery

theorem Binary64.compare?_left {x y : Binary64} (h : compare? x y = some .eq) (z : Binary64) :
    compare? x z = compare? y z := by
  obtain ⟨hx, hy, hrank⟩ := compare?_eq_iff.mp h
  cases hz : z.isNaN with
  | true => rw [compare?_nan (.inr hz), compare?_nan (.inr hz)]
  | false => rw [compare?_rank hx hz, compare?_rank hy hz, hrank]

namespace Value

variable {u v : Value}

/-! ## equality -/

theorem equals_left (hu : u.hashable = true) (hv : v.hashable = true) (h : u.agrees v = true)
    (w : Value) : u.equals w = v.equals w := by
  rcases agrees_iff.mp h with hsame | heq
  · rw [eq_of_sameNaN hsame]
  · have hback := equals_symm u v hu heq
    exact Bool.eq_iff_iff.mpr ⟨equals_trans v u w hv hback, equals_trans u v w hu heq⟩

theorem agrees_left (hu : u.hashable = true) (hv : v.hashable = true) (h : u.agrees v = true)
    (w : Value) : u.agrees w = v.agrees w := by
  have hback := agrees_symm_of h (equals_symm u v hu)
  exact Bool.eq_iff_iff.mpr
    ⟨fun huw => agrees_trans_of hback huw (equals_trans v u w hv),
      fun hvw => agrees_trans_of h hvw (equals_trans u v w hu)⟩

/-! ## order -/

theorem compares_left_number {x : Binary64} (r : Relation) (hu : u.number? = some x)
    (h : u.equals v = true) (w : Value) : u.compares r w = v.compares r w := by
  obtain ⟨y, hv, hxy⟩ := (equals_number_iff hu).mp h
  rw [compares_of_number r hu, compares_of_number r hv]
  cases w.number? with
  | none => rfl
  | some z =>
    exact congrArg (fun o => Except.ok ((Option.map r.holds o).getD false))
      (Binary64.compare?_left hxy z)

theorem equalItems_length : (xs ys : List Value) → equalItems xs ys = true → xs.length = ys.length
  | [], [], _ => rfl
  | [], _ :: _, h => by cases h
  | _ :: _, [], h => by cases h
  | _ :: xs, _ :: ys, h =>
    congrArg Nat.succ (equalItems_length xs ys (Bool.and_eq_true_iff.mp h).2)

mutual

theorem compares_left (r : Relation) : (u v w : Value) → u.hashable = true → v.hashable = true →
    u.agrees v = true → u.compares r w = v.compares r w
  | .bool _, v, w, _, _, h | .int _, v, w, _, _, h => compares_left_number r rfl h w
  | .float _, v, w, _, _, h => by
    rcases agrees_iff.mp h with hsame | heq
    · rw [eq_of_sameNaN hsame]
    · exact compares_left_number r rfl heq w
  | .tuple xs, v, w, hu, hv, h => by
    cases v with
    | tuple ys => cases w with
      | tuple zs => exact comparesItems_left r xs ys zs hu hv h
      | _ => rfl
    | _ => cases h
  | .instant t, v, w, _, _, h => by
    cases v with
    | instant u => cases w with
      | instant t' =>
        obtain ⟨hoffset, hmicroseconds⟩ := Instant.same_iff.mp h
        rw [compares, compares, Instant.compare?, Instant.compare?, hoffset, hmicroseconds]
      | _ => rfl
    | _ => cases h
  | .null, v, w, _, _, h | .unset, v, w, _, _, h => by cases v <;> first | rfl | cases h
  | .str s, v, w, _, _, h => by
    cases v with
    | str t => rw [beq_iff_eq.mp h]
    | _ => cases h
  | .date d, v, w, _, _, h => by
    cases v with
    | date e => rw [beq_iff_eq.mp h]
    | _ => cases h
  | .duration a, v, w, _, _, h => by
    cases v with
    | duration b => rw [beq_iff_eq.mp h]
    | _ => cases h
  | .kind k, v, w, _, _, h => by
    cases v with
    | kind l => rw [beq_iff_eq.mp h]
    | _ => cases h
  | .zone a, v, w, _, _, h => by
    cases v with
    | zone b => rw [beq_iff_eq.mp h]
    | _ => cases h
  | .condition c, v, w, _, _, h => by
    cases v with
    | condition d => cases w <;> rfl
    | _ => cases h
  | .operation x name, v, w, _, _, h => by
    cases v with
    | operation y other => cases w <;> rfl
    | _ => cases h
  | .list _, _, _, hu, _, _ | .set _, _, _, hu, _, _ | .record _, _, _, hu, _, _
  | .object _, _, _, hu, _, _ | .pageMeta _, _, _, hu, _, _ => by cases hu

theorem comparesItems_left (r : Relation) : (xs ys zs : List Value) → hashableAll xs = true →
    hashableAll ys = true → equalItems xs ys = true → comparesItems r xs zs = comparesItems r ys zs
  | [], [], _, _, _, _ => rfl
  | [], _ :: _, _, _, _, h => by cases h
  | _ :: _, [], _, _, _, h => by cases h
  | _ :: xs, _ :: ys, [], _, _, h => by
    have hlength := equalItems_length xs ys (Bool.and_eq_true_iff.mp h).2
    show Except.ok (r.holds (compare (xs.length + 1) 0)) = .ok (r.holds (compare (ys.length + 1) 0))
    rw [hlength]
  | x :: xs, y :: ys, z :: zs, hxs, hys, h => by
    obtain ⟨hx, hxs⟩ := Bool.and_eq_true_iff.mp hxs
    obtain ⟨hy, hys⟩ := Bool.and_eq_true_iff.mp hys
    obtain ⟨hhead, htail⟩ := Bool.and_eq_true_iff.mp h
    rw [comparesItems, comparesItems, agrees_left hx hy hhead, comparesItems_left r xs ys zs hxs hys htail,
      compares_left r x y z hx hy hhead]

end

/-! ## membership -/

theorem isIn_left (hu : u.hashable = true) (hv : v.hashable = true) (h : u.agrees v = true)
    (w : Value) : u.isIn w = v.isIn w := by
  have hagrees : u.agrees = v.agrees := funext (agrees_left hu hv h)
  have hequals : u.equals = v.equals := funext (equals_left hu hv h)
  cases w with
  | list items | tuple items => rw [isIn, isIn, hagrees]
  | set items =>
    have hset (v : Value) (hv : v.hashable = true) :
        v.isIn (.set items) = .ok (items.any v.agrees) := by
      rw [isIn, if_pos hv]
      rintro _ rfl
      cases hv
    rw [hset u hu, hset v hv, hagrees]
  | record entries => rw [isIn, isIn, if_pos hu, if_pos hv, hequals]
  | pageMeta m => rw [isIn, isIn, hequals]
  | str s =>
    -- a text equals no other value, and what is no text is part of none
    cases u with
    | str t =>
      cases v with
      | str t' => rw [beq_iff_eq.mp h]
      | _ => cases h
    | _ =>
      cases v with
      | str t => cases h
      | _ => rfl
  | _ => rfl

theorem isNull_left (h : u.agrees v = true) : u.isNull = v.isNull := by
  cases u <;> cases v <;> first | rfl | cases h

end Value

/-! ## operators -/

/-- the operators that tell no equal values apart -/
def Operator.extensional : Operator → Bool
  | .eq | .ne | .gt | .lt | .ge | .le | .isIn | .isNull | .isNotNull => true
  | _ => false

theorem Predicate.compareWith_left {op : Operator} (hop : op.extensional = true) {u v : Value}
    (hu : u.hashable = true) (hv : v.hashable = true) (h : u.agrees v = true) (wanted : Value) :
    compareWith op wanted u = compareWith op wanted v := by
  have hwhole (v : Value) (hv : v.hashable = true) : compareWith op wanted v
      = (op.check?.elim (.error (.unsupportedOperator op)) fun check => check v wanted) := by
    unfold compareWith
    cases op.check? <;> cases v <;> first | rfl | cases hv
  have horder (r : Value.Relation) :
      Operator.guarded (Value.compares r) u wanted = Operator.guarded (Value.compares r) v wanted := by
    rw [Operator.guarded, Operator.guarded, Value.isNull_left h, Value.compares_left r u v wanted hu hv h]
  rw [hwhole u hu, hwhole v hv]
  cases op with
  | eq => exact congrArg Except.ok (Value.equals_left hu hv h wanted)
  | ne => exact congrArg (fun b => Except.ok !b) (Value.equals_left hu hv h wanted)
  | gt => exact horder .above
  | lt => exact horder .below
  | ge => exact horder .atLeast
  | le => exact horder .atMost
  | isIn => exact Value.isIn_left hu hv h wanted
  | isNull => exact congrArg Except.ok (Value.isNull_left h)
  | isNotNull => exact congrArg (fun b => Except.ok !b) (Value.isNull_left h)
  | _ => cases hop

end ListQuery
