import ListQuery.Value.Compare
import ListQuery.Proofs.Number.Order

/-!
# Equality of values that make keys

Equality is no equivalence: what is not a number equals nothing, not even itself, and neither does
most of what a value can do.  On values with nothing mutable in them it still is symmetric and
transitive, across booleans, integers and doubles, so it does not matter with which of equal keys
another one is compared.

* `Binary64.compare?_eq_iff`, `Instant.same_iff`   when numbers and instants are equal;
* `Value.equals_symm`, `Value.equals_trans`        the two laws for values;
* `Value.equalItems_symm`, `equalItems_trans`      and for the keys that values make.
-/

namespace ListQuery

/-! ## numbers and instants -/

theorem Binary64.compare?_eq_iff {x y : Binary64} :
    compare? x y = some .eq ↔ x.isNaN = false ∧ y.isNaN = false ∧ x.rank = y.rank := by
  constructor
  · intro h
    obtain ⟨hx, hy⟩ := isNaN_of_compare? h
    rw [compare?_rank hx hy, Option.some_inj, compare_eq_iff_eq] at h
    exact ⟨hx, hy, h⟩
  · rintro ⟨hx, hy, h⟩
    rw [compare?_rank hx hy, compare_eq_iff_eq.mpr h]

theorem Instant.same_iff {t u : Instant} :
    t.same u = true ↔ t.offset.isSome = u.offset.isSome ∧ t.microseconds = u.microseconds := by
  unfold same compare?
  rw [beq_iff_eq]
  split
  · rename_i h
    rw [Option.some_inj, compare_eq_iff_eq]
    exact ⟨fun heq => ⟨h, heq⟩, fun heq => heq.2⟩
  · rename_i h
    exact ⟨fun heq => (by cases heq), fun heq => absurd heq.1 h⟩

namespace Value

theorem equals_numbers {v w : Value} {x y : Binary64} (hv : v.number? = some x)
    (hw : w.number? = some y) : v.equals w = (Binary64.compare? x y == some .eq) := by
  cases v <;> cases hv <;> cases w <;> cases hw <;> rfl

theorem equals_number_iff {v w : Value} {x : Binary64} (hv : v.number? = some x) :
    v.equals w = true ↔ ∃ y, w.number? = some y ∧ Binary64.compare? x y = some .eq := by
  cases hw : w.number? with
  | none =>
    refine ⟨fun h => ?_, fun ⟨y, hy, _⟩ => by cases hy⟩
    cases v <;> cases hv <;> cases w <;> first | cases h | cases hw
  | some y =>
    rw [equals_numbers hv hw, beq_iff_eq]
    exact ⟨fun h => ⟨y, rfl, h⟩, fun ⟨_, hy, h⟩ => by cases hy; exact h⟩

theorem equals_symm_number {v w : Value} {x : Binary64} (hv : v.number? = some x)
    (h : v.equals w = true) : w.equals v = true := by
  obtain ⟨y, hw, hxy⟩ := (equals_number_iff hv).mp h
  obtain ⟨hx, hy, hrank⟩ := Binary64.compare?_eq_iff.mp hxy
  exact (equals_number_iff hw).mpr ⟨x, hv, Binary64.compare?_eq_iff.mpr ⟨hy, hx, hrank.symm⟩⟩

theorem equals_trans_number {u v w : Value} {x : Binary64} (hu : u.number? = some x)
    (huv : u.equals v = true) (hvw : v.equals w = true) : u.equals w = true := by
  obtain ⟨y, hv, hxy⟩ := (equals_number_iff hu).mp huv
  obtain ⟨z, hw, hyz⟩ := (equals_number_iff hv).mp hvw
  obtain ⟨hx, _, hrank⟩ := Binary64.compare?_eq_iff.mp hxy
  obtain ⟨_, hz, hrank'⟩ := Binary64.compare?_eq_iff.mp hyz
  exact (equals_number_iff hu).mpr
    ⟨z, hw, Binary64.compare?_eq_iff.mpr ⟨hx, hz, hrank.trans hrank'⟩⟩

/-! ## values that are one -/

theorem eq_of_sameNaN {v w : Value} (h : sameNaN v w = true) : v = w := by
  cases v with
  | float x => cases w with
    | float y => cases x <;> cases y <;> first | cases h | rw [beq_iff_eq.mp h]
    | _ => cases h
  | _ => cases h

theorem eq_of_oneAndTheSame {v w : Value} (h : oneAndTheSame v w = true) : v = w := by
  cases v <;> cases w <;> first
    | rfl
    | cases h
    | (unfold oneAndTheSame at h; simp only [Bool.and_eq_true, beq_iff_eq] at h; simp [h])

/-! ## the two laws -/

theorem agrees_iff {v w : Value} : v.agrees w = true ↔ sameNaN v w = true ∨ v.equals w = true := by
  rw [agrees, Bool.or_eq_true]

theorem agrees_symm_of {v w : Value} (h : v.agrees w = true)
    (hequals : v.equals w = true → w.equals v = true) : w.agrees v = true := by
  rcases agrees_iff.mp h with hsame | heq
  · cases eq_of_sameNaN hsame
    exact h
  · exact agrees_iff.mpr (.inr (hequals heq))

theorem agrees_trans_of {u v w : Value} (huv : u.agrees v = true) (hvw : v.agrees w = true)
    (hequals : u.equals v = true → v.equals w = true → u.equals w = true) : u.agrees w = true := by
  rcases agrees_iff.mp huv with hsame | heq
  · cases eq_of_sameNaN hsame
    exact hvw
  · rcases agrees_iff.mp hvw with hsame | heq'
    · cases eq_of_sameNaN hsame
      exact huv
    · exact agrees_iff.mpr (.inr (hequals heq heq'))

mutual

theorem equals_symm : (v w : Value) → v.hashable = true → v.equals w = true → w.equals v = true
  | .bool _, _, _, h | .int _, _, _, h | .float _, _, _, h => equals_symm_number rfl h
  | .null, w, _, h | .unset, w, _, h => by cases w <;> exact h
  | .str s, w, _, h => by
    cases w with
    | str t => exact beq_iff_eq.mpr (beq_iff_eq.mp h).symm
    | _ => cases h
  | .tuple xs, w, hv, h => by
    cases w with
    | tuple ys => exact equalItems_symm xs ys hv h
    | _ => cases h
  | .date d, w, _, h => by
    cases w with
    | date e => exact beq_iff_eq.mpr (beq_iff_eq.mp h).symm
    | _ => cases h
  | .instant t, w, _, h => by
    cases w with
    | instant u =>
      obtain ⟨hoffset, hmicroseconds⟩ := Instant.same_iff.mp h
      exact Instant.same_iff.mpr ⟨hoffset.symm, hmicroseconds.symm⟩
    | _ => cases h
  | .condition c, w, hv, h => by
    cases w with
    | condition d => exact equalConditions_symm c d hv h
    | _ => cases h
  | .operation v name, w, _, h => by
    cases w with
    | operation w other =>
      obtain ⟨hname, hone⟩ := Bool.and_eq_true_iff.mp h
      cases eq_of_oneAndTheSame hone
      cases beq_iff_eq.mp hname
      exact h
    | _ => cases h
  | .kind k, w, _, h => by
    cases w with
    | kind l => exact beq_iff_eq.mpr (beq_iff_eq.mp h).symm
    | _ => cases h
  | .zone a, w, _, h => by
    cases w with
    | zone b => exact beq_iff_eq.mpr (beq_iff_eq.mp h).symm
    | _ => cases h
  | .duration a, w, _, h => by
    cases w with
    | duration b => exact beq_iff_eq.mpr (beq_iff_eq.mp h).symm
    | _ => cases h
  | .list _, _, hv, _ | .set _, _, hv, _ | .record _, _, hv, _ | .object _, _, hv, _
  | .pageMeta _, _, hv, _ => by cases hv

theorem equalItems_symm : (xs ys : List Value) → hashableAll xs = true → equalItems xs ys = true →
    equalItems ys xs = true
  | [], [], _, h => h
  | [], _ :: _, _, h => by cases h
  | _ :: _, [], _, h => by cases h
  | x :: xs, y :: ys, hxs, h => by
    obtain ⟨hx, hrest⟩ := Bool.and_eq_true_iff.mp hxs
    obtain ⟨hhead, htail⟩ := Bool.and_eq_true_iff.mp h
    exact Bool.and_eq_true_iff.mpr
      ⟨agrees_symm_of hhead (equals_symm x y hx), equalItems_symm xs ys hrest htail⟩

theorem equalConditions_symm : (c d : Condition) → hashableCondition c = true →
    equalConditions c d = true → equalConditions d c = true
  | .exact v, d, hc, h => by
    cases d with
    | exact w => exact agrees_symm_of h (equals_symm v w hc)
    | _ => cases h
  | .oneOf xs, d, hc, h => by
    cases d with
    | oneOf ys => exact equalItems_symm xs ys hc h
    | _ => cases h
  | .range a b, d, hc, h => by
    cases d with
    | range a' b' =>
      obtain ⟨ha, hb⟩ := Bool.and_eq_true_iff.mp hc
      obtain ⟨hlower, hupper⟩ := Bool.and_eq_true_iff.mp h
      exact Bool.and_eq_true_iff.mpr
        ⟨agrees_symm_of hlower (equals_symm a a' ha), agrees_symm_of hupper (equals_symm b b' hb)⟩
    | _ => cases h
  | .flag v, d, hc, h => by
    cases d with
    | flag w => exact agrees_symm_of h (equals_symm v w hc)
    | _ => cases h
  | .differs v, d, hc, h => by
    cases d with
    | differs w => exact agrees_symm_of h (equals_symm v w hc)
    | _ => cases h
  | .related q v, d, hc, h => by
    cases d with
    | related r w =>
      obtain ⟨hq, hnested⟩ := Bool.and_eq_true_iff.mp h
      exact Bool.and_eq_true_iff.mpr
        ⟨beq_iff_eq.mpr (beq_iff_eq.mp hq).symm, equals_symm v w hc hnested⟩
    | _ => cases h

end

mutual

theorem equals_trans : (u v w : Value) → u.hashable = true → u.equals v = true → v.equals w = true →
    u.equals w = true
  | .bool _, _, _, _, huv, hvw | .int _, _, _, _, huv, hvw | .float _, _, _, _, huv, hvw =>
    equals_trans_number rfl huv hvw
  | .null, v, w, _, huv, hvw => by
    cases v with
    | null => exact hvw
    | _ => cases huv
  | .unset, v, w, _, huv, hvw => by
    cases v with
    | unset => exact hvw
    | _ => cases huv
  | .str s, v, w, _, huv, hvw => by
    cases v with
    | str t => cases beq_iff_eq.mp huv; exact hvw
    | _ => cases huv
  | .tuple xs, v, w, hu, huv, hvw => by
    cases v with
    | tuple ys => cases w with
      | tuple zs => exact equalItems_trans xs ys zs hu huv hvw
      | _ => cases hvw
    | _ => cases huv
  | .date d, v, w, _, huv, hvw => by
    cases v with
    | date e => cases beq_iff_eq.mp huv; exact hvw
    | _ => cases huv
  | .instant t, v, w, _, huv, hvw => by
    cases v with
    | instant u => cases w with
      | instant t' =>
        obtain ⟨hoffset, hmicroseconds⟩ := Instant.same_iff.mp huv
        obtain ⟨hoffset', hmicroseconds'⟩ := Instant.same_iff.mp hvw
        exact Instant.same_iff.mpr
          ⟨hoffset.trans hoffset', hmicroseconds.trans hmicroseconds'⟩
      | _ => cases hvw
    | _ => cases huv
  | .condition c, v, w, hu, huv, hvw => by
    cases v with
    | condition d => cases w with
      | condition e => exact equalConditions_trans c d e hu huv hvw
      | _ => cases hvw
    | _ => cases huv
  | .operation v name, v', w, _, huv, hvw => by
    cases v' with
    | operation owner other =>
      obtain ⟨hname, hone⟩ := Bool.and_eq_true_iff.mp huv
      cases eq_of_oneAndTheSame hone
      cases beq_iff_eq.mp hname
      exact hvw
    | _ => cases huv
  | .kind k, v, w, _, huv, hvw => by
    cases v with
    | kind l => cases beq_iff_eq.mp huv; exact hvw
    | _ => cases huv
  | .zone a, v, w, _, huv, hvw => by
    cases v with
    | zone b => cases beq_iff_eq.mp huv; exact hvw
    | _ => cases huv
  | .duration a, v, w, _, huv, hvw => by
    cases v with
    | duration b => cases beq_iff_eq.mp huv; exact hvw
    | _ => cases huv
  | .list _, _, _, hu, _, _ | .set _, _, _, hu, _, _ | .record _, _, _, hu, _, _
  | .object _, _, _, hu, _, _ | .pageMeta _, _, _, hu, _, _ => by cases hu

theorem equalItems_trans : (xs ys zs : List Value) → hashableAll xs = true →
    equalItems xs ys = true → equalItems ys zs = true → equalItems xs zs = true
  | [], [], _, _, _, h => h
  | [], _ :: _, _, _, h, _ => by cases h
  | _ :: _, [], _, _, h, _ => by cases h
  | _ :: _, _ :: _, [], _, _, h => by cases h
  | x :: xs, y :: ys, z :: zs, hxs, hxy, hyz => by
    obtain ⟨hx, hrest⟩ := Bool.and_eq_true_iff.mp hxs
    obtain ⟨hhead, htail⟩ := Bool.and_eq_true_iff.mp hxy
    obtain ⟨hhead', htail'⟩ := Bool.and_eq_true_iff.mp hyz
    exact Bool.and_eq_true_iff.mpr ⟨agrees_trans_of hhead hhead' (equals_trans x y z hx),
      equalItems_trans xs ys zs hrest htail htail'⟩

theorem equalConditions_trans : (c d e : Condition) → hashableCondition c = true →
    equalConditions c d = true → equalConditions d e = true → equalConditions c e = true
  | .exact u, d, e, hc, hcd, hde => by
    cases d with
    | exact v => cases e with
      | exact w => exact agrees_trans_of hcd hde (equals_trans u v w hc)
      | _ => cases hde
    | _ => cases hcd
  | .oneOf xs, d, e, hc, hcd, hde => by
    cases d with
    | oneOf ys => cases e with
      | oneOf zs => exact equalItems_trans xs ys zs hc hcd hde
      | _ => cases hde
    | _ => cases hcd
  | .range a b, d, e, hc, hcd, hde => by
    cases d with
    | range a' b' => cases e with
      | range a'' b'' =>
        obtain ⟨ha, hb⟩ := Bool.and_eq_true_iff.mp hc
        obtain ⟨hlower, hupper⟩ := Bool.and_eq_true_iff.mp hcd
        obtain ⟨hlower', hupper'⟩ := Bool.and_eq_true_iff.mp hde
        exact Bool.and_eq_true_iff.mpr ⟨agrees_trans_of hlower hlower' (equals_trans a a' a'' ha),
          agrees_trans_of hupper hupper' (equals_trans b b' b'' hb)⟩
      | _ => cases hde
    | _ => cases hcd
  | .flag u, d, e, hc, hcd, hde => by
    cases d with
    | flag v => cases e with
      | flag w => exact agrees_trans_of hcd hde (equals_trans u v w hc)
      | _ => cases hde
    | _ => cases hcd
  | .differs u, d, e, hc, hcd, hde => by
    cases d with
    | differs v => cases e with
      | differs w => exact agrees_trans_of hcd hde (equals_trans u v w hc)
      | _ => cases hde
    | _ => cases hcd
  | .related q u, d, e, hc, hcd, hde => by
    cases d with
    | related r v => cases e with
      | related q' w =>
        obtain ⟨hq, hnested⟩ := Bool.and_eq_true_iff.mp hcd
        obtain ⟨hq', hnested'⟩ := Bool.and_eq_true_iff.mp hde
        exact Bool.and_eq_true_iff.mpr
          ⟨beq_iff_eq.mpr ((beq_iff_eq.mp hq).trans (beq_iff_eq.mp hq')),
            equals_trans u v w hc hnested hnested'⟩
      | _ => cases hde
    | _ => cases hcd

end

end Value

end ListQuery
