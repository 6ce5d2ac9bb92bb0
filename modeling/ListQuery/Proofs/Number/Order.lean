import Mathlib.Order.WithBot
import Mathlib.Order.Compare
import ListQuery.Proofs.Number.Rounding

/-!
# The order of doubles

Doubles that are numbers are ordered as the rationals they stand for, with the infinities around
them.  What is not a number is neither before nor behind anything.

* `Binary64.value`, `Binary64.rank`   a double as a rational, with a place for the infinities;
* `Binary64.le_iff`, `exceeds_iff`    the order of doubles by their ranks;
* `Binary64.le_refl`, `le_trans`, `exceeds_eq_false_iff`
                                      a total order on the doubles that are numbers;
* `Binary64.isNaN_add_finite`         a number plus a finite double is a number.
-/

namespace ListQuery

namespace Binary64

/-! ## doubles as rationals -/

/-- `± m · 2^e` -/
def value (negative : Bool) (m : Nat) (e : Int) : ℚ := signed negative m * 2 ^ e

theorem inUnitsOf_value {base e : Int} (h : base ≤ e) (negative : Bool) (m : Nat) :
    (inUnitsOf base negative m e : ℚ) = value negative m e * 2 ^ (-base) := by
  have hpow : (2 : ℚ) ^ (e - base).toNat = 2 ^ e * 2 ^ (-base) := by
    rw [← zpow_add₀ (by norm_num), ← zpow_natCast, Int.toNat_of_nonneg (by omega)]
    rfl
  have hsigned : (inUnitsOf base negative m e : ℚ) = signed negative m * 2 ^ (e - base).toNat := by
    unfold inUnitsOf signed
    rw [Nat.pow_eq]
    cases negative <;> push_cast <;> simp
  rw [hsigned, hpow, value, mul_assoc]

theorem inUnitsOf_lt {base e f : Int} (he : base ≤ e) (hf : base ≤ f) (a b : Bool) (m n : Nat) :
    inUnitsOf base a m e < inUnitsOf base b n f ↔ value a m e < value b n f := by
  rw [← Int.cast_lt (R := ℚ), inUnitsOf_value he, inUnitsOf_value hf]
  exact mul_lt_mul_iff_left₀ (two_pow_pos (-base))

/-- where a double stands; what is not a number stands nowhere in particular -/
def rank : Binary64 → WithBot (WithTop ℚ)
  | .nan _ => ⊥
  | .infinity true => ⊥
  | .infinity false => ((⊤ : WithTop ℚ) : WithBot (WithTop ℚ))
  | .finite a m e => ((value a m e : WithTop ℚ) : WithBot (WithTop ℚ))

/-! ## order -/

instance : LE Binary64 := ⟨fun x y => compare? x y = some .lt ∨ compare? x y = some .eq⟩

instance (x y : Binary64) : Decidable (x ≤ y) :=
  inferInstanceAs (Decidable (compare? x y = some .lt ∨ compare? x y = some .eq))

theorem compare?_finite (a b : Bool) (m n : Nat) (e f : Int) :
    compare? (.finite a m e) (.finite b n f) = some (compare (value a m e) (value b n f)) := by
  have hlt := inUnitsOf_lt (Int.min_le_left e f) (Int.min_le_right e f) a b m n
  have hgt := inUnitsOf_lt (Int.min_le_right e f) (Int.min_le_left e f) b a n m
  show some (compare (inUnitsOf (min e f) a m e) (inUnitsOf (min e f) b n f)) = _
  congr 1
  rcases lt_trichotomy (value a m e) (value b n f) with h | h | h
  · rw [compare_lt_iff_lt.mpr h, compare_lt_iff_lt.mpr (hlt.mpr h)]
  · have heq : inUnitsOf (min e f) a m e = inUnitsOf (min e f) b n f := by
      have hle := mt hgt.mp (by rw [h]; exact lt_irrefl _)
      have hge := mt hlt.mp (by rw [h]; exact lt_irrefl _)
      omega
    rw [compare_eq_iff_eq.mpr h, compare_eq_iff_eq.mpr heq]
  · rw [compare_gt_iff_gt.mpr h, compare_gt_iff_gt.mpr (hgt.mpr h)]

theorem compare_coe (p q : ℚ) :
    compare ((p : WithTop ℚ) : WithBot (WithTop ℚ)) (q : WithTop ℚ) = compare p q := by
  have hlt (p q : ℚ) : ((p : WithTop ℚ) : WithBot (WithTop ℚ)) < (q : WithTop ℚ) ↔ p < q :=
    WithBot.coe_lt_coe.trans WithTop.coe_lt_coe
  rcases lt_trichotomy p q with h | rfl | h
  · rw [compare_lt_iff_lt.mpr h, compare_lt_iff_lt.mpr ((hlt p q).mpr h)]
  · rw [compare_eq_iff_eq.mpr rfl, compare_eq_iff_eq.mpr rfl]
  · rw [compare_gt_iff_gt.mpr h, compare_gt_iff_gt.mpr ((hlt q p).mpr h)]

/-- numbers compare by their ranks -/
theorem compare?_rank {x y : Binary64} (hx : x.isNaN = false) (hy : y.isNaN = false) :
    compare? x y = some (compare x.rank y.rank) := by
  cases x with
  | nan => cases hx
  | infinity a =>
    cases y with
    | nan => cases hy
    | infinity b => cases a <;> cases b <;> rfl
    | finite b n f =>
      cases a
      · have h : (Binary64.finite b n f).rank < (Binary64.infinity false).rank :=
          WithBot.coe_lt_coe.mpr (WithTop.coe_lt_top _)
        rw [compare_gt_iff_gt.mpr h]
        rfl
      · have h : (Binary64.infinity true).rank < (Binary64.finite b n f).rank := WithBot.bot_lt_coe _
        rw [compare_lt_iff_lt.mpr h]
        rfl
  | finite a m e =>
    cases y with
    | nan => cases hy
    | infinity b =>
      cases b
      · have h : (Binary64.finite a m e).rank < (Binary64.infinity false).rank :=
          WithBot.coe_lt_coe.mpr (WithTop.coe_lt_top _)
        rw [compare_lt_iff_lt.mpr h]
        rfl
      · have h : (Binary64.infinity true).rank < (Binary64.finite a m e).rank := WithBot.bot_lt_coe _
        rw [compare_gt_iff_gt.mpr h]
        rfl
    | finite b n f => rw [compare?_finite, ← compare_coe]; rfl

theorem compare?_nan {x y : Binary64} (h : x.isNaN = true ∨ y.isNaN = true) : compare? x y = none := by
  cases x with
  | nan => rfl
  | infinity | finite =>
    cases y with
    | nan => rfl
    | infinity | finite => rcases h with h | h <;> cases h

theorem isNaN_of_compare? {x y : Binary64} {o : Ordering} (h : compare? x y = some o) :
    x.isNaN = false ∧ y.isNaN = false := by
  constructor
  · by_contra hx
    rw [compare?_nan (.inl (by simpa using hx))] at h
    cases h
  · by_contra hy
    rw [compare?_nan (.inr (by simpa using hy))] at h
    cases h

theorem le_iff {x y : Binary64} : x ≤ y ↔ x.isNaN = false ∧ y.isNaN = false ∧ x.rank ≤ y.rank := by
  constructor
  · rintro (h | h)
    · obtain ⟨hx, hy⟩ := isNaN_of_compare? h
      rw [compare?_rank hx hy, Option.some_inj, compare_lt_iff_lt] at h
      exact ⟨hx, hy, h.le⟩
    · obtain ⟨hx, hy⟩ := isNaN_of_compare? h
      rw [compare?_rank hx hy, Option.some_inj, compare_eq_iff_eq] at h
      exact ⟨hx, hy, h.le⟩
  · rintro ⟨hx, hy, h⟩
    show compare? x y = some .lt ∨ compare? x y = some .eq
    rw [compare?_rank hx hy, Option.some_inj, Option.some_inj, compare_lt_iff_lt, compare_eq_iff_eq]
    exact h.lt_or_eq

theorem exceeds_iff {x y : Binary64} :
    x.exceeds y = true ↔ x.isNaN = false ∧ y.isNaN = false ∧ y.rank < x.rank := by
  unfold exceeds
  rw [beq_iff_eq]
  constructor
  · intro h
    obtain ⟨hx, hy⟩ := isNaN_of_compare? h
    rw [compare?_rank hx hy, Option.some_inj, compare_gt_iff_gt] at h
    exact ⟨hx, hy, h⟩
  · rintro ⟨hx, hy, h⟩
    rw [compare?_rank hx hy, compare_gt_iff_gt.mpr h]

theorem le_refl {x : Binary64} (h : x.isNaN = false) : x ≤ x := le_iff.mpr ⟨h, h, le_rfl⟩

theorem le_trans {x y z : Binary64} (hxy : x ≤ y) (hyz : y ≤ z) : x ≤ z := by
  obtain ⟨hx, _, hxy⟩ := le_iff.mp hxy
  obtain ⟨_, hz, hyz⟩ := le_iff.mp hyz
  exact le_iff.mpr ⟨hx, hz, hxy.trans hyz⟩

theorem exceeds_eq_false_iff {x y : Binary64} (hx : x.isNaN = false) (hy : y.isNaN = false) :
    x.exceeds y = false ↔ x ≤ y := by
  rw [← Bool.not_eq_true, exceeds_iff, le_iff]
  simp [hx, hy]

/-! ## sums -/

theorem isNaN_ofRatio (negative : Bool) (n d : Nat) : (ofRatio negative n d).isNaN = false := by
  unfold ofRatio
  dsimp only
  split
  · rfl
  · split <;> split <;> rfl

theorem isNaN_add_finite {x : Binary64} (h : x.isNaN = false) (b : Bool) (n : Nat) (f : Int) :
    (x.add (.finite b n f)).isNaN = false := by
  cases x with
  | nan => cases h
  | infinity a => rfl
  | finite a m e =>
    unfold add
    dsimp only
    split
    · rfl
    · exact isNaN_ofRatio _ _ _

theorem ofInt?_finite {n : Int} {x : Binary64} (h : ofInt? n = some x) :
    ∃ a m e, x = .finite a m e := by
  unfold ofInt? at h
  have hnan := isNaN_ofRatio (n < 0) n.natAbs 1
  split at h
  · cases h
  · rename_i hfinite
    cases h
    cases hx : ofRatio (n < 0) n.natAbs 1 with
    | nan => rw [hx] at hnan; cases hnan
    | infinity a => exact absurd hx (hfinite a)
    | finite a m e => exact ⟨a, m, e, rfl⟩

end Binary64

end ListQuery
