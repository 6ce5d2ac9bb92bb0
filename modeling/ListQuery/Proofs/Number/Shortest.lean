import Mathlib.Tactic.GCongr
import ListQuery.Proofs.Number.Digits
import ListQuery.Proofs.Number.Rounding

/-!
# The shortest decimal of a double

The digits that are written for a double stand for a rational that rounds to it.  Seventeen digits
are always enough: the grid of so many is finer than the doubles.

* `Decimal.grid_le`, `grid_lt`   a bound of the double's interval against a grid point;
* `Decimal.onGrid?_inside`       what is found on a grid lies in the interval;
* `Decimal.onGrid?_fine`         something is found on a fine grid;
* `Decimal.shortest_rounds`      the shortest decimal rounds to the double.
-/

namespace ListQuery

namespace Decimal

open Binary64

theorem ten_pow_pos (g : Int) : (0 : ℚ) < 10 ^ g := zpow_pos (by norm_num) g

/-! ## grids -/

theorem grid_units (e g : Int) :
    ((Nat.pow 2 (e - 2).toNat * Nat.pow 10 (-g).toNat : Nat) : ℚ)
        / ((Nat.pow 2 (-(e - 2)).toNat * Nat.pow 10 g.toNat : Nat) : ℚ)
      = 2 ^ e / 4 / 10 ^ g := by
  have htwo : (2 : ℚ) ^ (e - 2).toNat / 2 ^ (-(e - 2)).toNat = 2 ^ (e - 2) := by
    have h := pow_toNat_div 2 (-(e - 2))
    rw [neg_neg] at h
    exact h
  have hten : (10 : ℚ) ^ (-g).toNat / 10 ^ g.toNat = 10 ^ (-g) := pow_toNat_div 10 g
  have hfour : (2 : ℚ) ^ (e - 2) = 2 ^ e / 4 := by
    rw [zpow_sub₀ (by norm_num)]
    norm_num
  simp only [Nat.pow_eq, Nat.cast_mul, Nat.cast_pow, Nat.cast_ofNat]
  rw [mul_div_mul_comm, htwo, hten, hfour, zpow_neg, ← div_eq_mul_inv]

theorem unitD_pos (e g : Int) :
    (0 : ℚ) < ((Nat.pow 2 (-(e - 2)).toNat * Nat.pow 10 g.toNat : Nat) : ℚ) := by
  have h : 0 < Nat.pow 2 (-(e - 2)).toNat * Nat.pow 10 g.toNat :=
    Nat.mul_pos (Nat.pow_pos (by decide)) (Nat.pow_pos (by decide))
  exact_mod_cast h

theorem grid_le (lo c : Nat) (e g : Int) :
    lo * (Nat.pow 2 (e - 2).toNat * Nat.pow 10 (-g).toNat)
        ≤ c * (Nat.pow 2 (-(e - 2)).toNat * Nat.pow 10 g.toNat)
      ↔ (lo : ℚ) / 4 * 2 ^ e ≤ c * 10 ^ g := by
  have hunits := grid_units e g
  have hpos := unitD_pos e g
  rw [← @Nat.cast_le ℚ, Nat.cast_mul lo, Nat.cast_mul c, ← div_le_iff₀ hpos, mul_div_assoc, hunits,
    ← div_le_iff₀ (ten_pow_pos g)]
  have h : (lo : ℚ) * (2 ^ e / 4 / 10 ^ g) = (lo : ℚ) / 4 * 2 ^ e / 10 ^ g := by ring
  rw [h]

theorem grid_ge (hi c : Nat) (e g : Int) :
    c * (Nat.pow 2 (-(e - 2)).toNat * Nat.pow 10 g.toNat)
        ≤ hi * (Nat.pow 2 (e - 2).toNat * Nat.pow 10 (-g).toNat)
      ↔ c * 10 ^ g ≤ (hi : ℚ) / 4 * 2 ^ e := by
  have hunits := grid_units e g
  have hpos := unitD_pos e g
  rw [← @Nat.cast_le ℚ, Nat.cast_mul hi, Nat.cast_mul c, ← le_div_iff₀ hpos, mul_div_assoc, hunits,
    ← le_div_iff₀ (ten_pow_pos g)]
  have h : (hi : ℚ) * (2 ^ e / 4 / 10 ^ g) = (hi : ℚ) / 4 * 2 ^ e / 10 ^ g := by ring
  rw [h]

theorem grid_lt (lo c : Nat) (e g : Int) :
    lo * (Nat.pow 2 (e - 2).toNat * Nat.pow 10 (-g).toNat)
        < c * (Nat.pow 2 (-(e - 2)).toNat * Nat.pow 10 g.toNat)
      ↔ (lo : ℚ) / 4 * 2 ^ e < c * 10 ^ g := by
  rw [← not_le, grid_ge, not_le]

theorem grid_gt (hi c : Nat) (e g : Int) :
    c * (Nat.pow 2 (-(e - 2)).toNat * Nat.pow 10 g.toNat)
        < hi * (Nat.pow 2 (e - 2).toNat * Nat.pow 10 (-g).toNat)
      ↔ c * 10 ^ g < (hi : ℚ) / 4 * 2 ^ e := by
  rw [← not_le, grid_le, not_le]

/-- the number `c · 10^g` lies in the interval of `m · 2^e` -/
def Inside (m : Nat) (e g : Int) (c : Nat) : Prop :=
  if m % 2 = 0 then
    ((quarters m e).1 : ℚ) / 4 * 2 ^ e ≤ c * 10 ^ g ∧ c * 10 ^ g ≤ ((quarters m e).2 : ℚ) / 4 * 2 ^ e
  else
    ((quarters m e).1 : ℚ) / 4 * 2 ^ e < c * 10 ^ g ∧ c * 10 ^ g < ((quarters m e).2 : ℚ) / 4 * 2 ^ e

theorem quarters_ends {m : Nat} (hm : 0 < m) (e : Int) :
    ((quarters m e).1 : ℚ) / 4
        = (m : ℚ) - (if m = 2 ^ 52 ∧ leastExponent < e then 1 / 4 else 1 / 2) ∧
      ((quarters m e).2 : ℚ) / 4 = m + 1 / 2 := by
  have hlimit : significandLimit / 2 = 2 ^ 52 := by decide
  unfold quarters
  rw [hlimit]
  constructor
  · split
    · rw [Nat.cast_sub (by omega)]
      push_cast
      ring
    · rw [Nat.cast_sub (by omega)]
      push_cast
      ring
  · push_cast
    ring

theorem Inside.rounds {m c : Nat} {e g : Int} (hm : 0 < m) (h : Inside m e g c) :
    Rounds (c * 10 ^ g) m e := by
  obtain ⟨hlow, hhigh⟩ := quarters_ends hm e
  unfold Inside at h
  rw [hlow, hhigh] at h
  split at h
  · rename_i heven
    exact ⟨h.1, h.2, .inl heven⟩
  · rename_i hodd
    refine ⟨h.1.le, h.2.le, .inr ⟨?_, h.2⟩⟩
    refine lt_of_le_of_lt ?_ h.1
    refine mul_le_mul_of_nonneg_right ?_ (two_pow_pos e).le
    split <;> linarith

theorem inside_iff (m c : Nat) (e g : Int) :
    (if m % 2 = 0 then
        decide ((quarters m e).1 * (Nat.pow 2 (e - 2).toNat * Nat.pow 10 (-g).toNat)
            ≤ c * (Nat.pow 2 (-(e - 2)).toNat * Nat.pow 10 g.toNat))
          && decide (c * (Nat.pow 2 (-(e - 2)).toNat * Nat.pow 10 g.toNat)
            ≤ (quarters m e).2 * (Nat.pow 2 (e - 2).toNat * Nat.pow 10 (-g).toNat))
      else
        decide ((quarters m e).1 * (Nat.pow 2 (e - 2).toNat * Nat.pow 10 (-g).toNat)
            < c * (Nat.pow 2 (-(e - 2)).toNat * Nat.pow 10 g.toNat))
          && decide (c * (Nat.pow 2 (-(e - 2)).toNat * Nat.pow 10 g.toNat)
            < (quarters m e).2 * (Nat.pow 2 (e - 2).toNat * Nat.pow 10 (-g).toNat))) = true
      ↔ Inside m e g c := by
  unfold Inside
  split
  · rw [Bool.and_eq_true, decide_eq_true_eq, decide_eq_true_eq, grid_le, grid_ge]
  · rw [Bool.and_eq_true, decide_eq_true_eq, decide_eq_true_eq, grid_lt, grid_gt]

def candidate (m : Nat) (e g : Int) : Nat :=
  4 * m * (Nat.pow 2 (e - 2).toNat * Nat.pow 10 (-g).toNat)
    / (Nat.pow 2 (-(e - 2)).toNat * Nat.pow 10 g.toNat)

theorem candidate_bounds (m : Nat) (e g : Int) :
    (candidate m e g : ℚ) * 10 ^ g ≤ m * 2 ^ e ∧
      (m : ℚ) * 2 ^ e < ((candidate m e g + 1 : Nat) : ℚ) * 10 ^ g := by
  have hunit : 0 < Nat.pow 2 (-(e - 2)).toNat * Nat.pow 10 g.toNat :=
    Nat.mul_pos (Nat.pow_pos (by decide)) (Nat.pow_pos (by decide))
  have hfour : ((4 * m : Nat) : ℚ) / 4 = m := by
    push_cast
    ring
  have hlow : candidate m e g * (Nat.pow 2 (-(e - 2)).toNat * Nat.pow 10 g.toNat)
      ≤ 4 * m * (Nat.pow 2 (e - 2).toNat * Nat.pow 10 (-g).toNat) := Nat.div_mul_le_self _ _
  have hhigh : 4 * m * (Nat.pow 2 (e - 2).toNat * Nat.pow 10 (-g).toNat)
      < (candidate m e g + 1) * (Nat.pow 2 (-(e - 2)).toNat * Nat.pow 10 g.toNat) := by
    rw [mul_comm (candidate m e g + 1)]
    exact Nat.lt_mul_div_succ _ hunit
  rw [grid_ge, hfour] at hlow
  rw [grid_lt, hfour] at hhigh
  exact ⟨hlow, hhigh⟩

/-- what is found on a grid lies in the double's interval -/
theorem onGrid?_inside {m c : Nat} {e g : Int} (h : onGrid? m e g = some c) : Inside m e g c := by
  unfold onGrid? at h
  simp only at h
  split at h
  · rename_i hlow hhigh
    split at h
    · cases h; exact (inside_iff m _ e g).mp hlow
    split at h
    · cases h; exact (inside_iff m _ e g).mp hhigh
    · split at h
      · cases h; exact (inside_iff m _ e g).mp hlow
      · cases h; exact (inside_iff m _ e g).mp hhigh
  · rename_i hlow hhigh
    cases h; exact (inside_iff m _ e g).mp hlow
  · rename_i hlow hhigh
    cases h; exact (inside_iff m _ e g).mp hhigh
  · cases h

/-- where nothing is found, neither candidate lies in the interval -/
theorem onGrid?_none {m : Nat} {e g : Int} (h : onGrid? m e g = none) :
    ¬ Inside m e g (candidate m e g) ∧ ¬ Inside m e g (candidate m e g + 1) := by
  unfold onGrid? at h
  simp only at h
  split at h
  · split at h
    · cases h
    split at h
    · cases h
    · split at h <;> cases h
  · cases h
  · cases h
  · rename_i hlow hhigh
    constructor
    · intro hin
      rw [← inside_iff] at hin
      exact absurd (hin.symm.trans hlow) (by decide)
    · intro hin
      rw [← inside_iff] at hin
      exact absurd (hin.symm.trans hhigh) (by decide)

/-- one of the candidates on a grid of seventeen digits lies in the interval -/
theorem onGrid?_fine {m : Nat} {e g : Int} (hm : 0 < m) (hlimit : m < 2 ^ 53)
    (hfine : (10 : ℚ) ^ g * 10 ^ 16 ≤ m * 2 ^ e) : onGrid? m e g ≠ none := by
  intro hnone
  obtain ⟨hlow, hhigh⟩ := onGrid?_none hnone
  obtain ⟨hbelow, habove⟩ := candidate_bounds m e g
  obtain ⟨hend, hend'⟩ := quarters_ends hm e
  generalize candidate m e g = c at hlow hhigh hbelow habove
  have hpow := two_pow_pos e
  have hten := ten_pow_pos g
  -- strictly inside is enough, whether or not the ends belong to the interval
  have hstrict : ∀ x : Nat, ((quarters m e).1 : ℚ) / 4 * 2 ^ e < x * 10 ^ g →
      x * 10 ^ g < ((quarters m e).2 : ℚ) / 4 * 2 ^ e → Inside m e g x := by
    intro x hx hx'
    unfold Inside
    split
    · exact ⟨hx.le, hx'.le⟩
    · exact ⟨hx, hx'⟩
  rw [hend, hend'] at hstrict
  have hmq : (m : ℚ) ≤ 2 ^ 53 - 1 := by
    have hcast : ((m + 1 : Nat) : ℚ) ≤ ((2 ^ 53 : Nat) : ℚ) := Nat.cast_le.mpr hlimit
    push_cast at hcast
    linarith
  -- the nearer candidate is less than half a step away, and a step is short
  have hstep : (10 : ℚ) ^ g / 2
      < (if m = 2 ^ 52 ∧ leastExponent < e then 1 / 4 else 1 / 2 : ℚ) * 2 ^ e := by
    split
    · rename_i hcase
      rw [hcase.1] at hfine
      push_cast at hfine
      linarith
    · nlinarith
  have hhalf : (if m = 2 ^ 52 ∧ leastExponent < e then 1 / 4 else 1 / 2 : ℚ) ≤ 1 / 2 := by
    split <;> norm_num
  push_cast at habove
  rcases le_total ((m : ℚ) * 2 ^ e - c * 10 ^ g) (10 ^ g / 2) with hnear | hfar
  · refine hlow (hstrict c ?_ ?_)
    · linarith
    · linarith
  · refine hhigh (hstrict (c + 1) ?_ ?_)
    · push_cast
      nlinarith
    · push_cast
      have : (10 : ℚ) ^ g / 2 < 1 / 2 * 2 ^ e :=
        lt_of_lt_of_le hstep (mul_le_mul_of_nonneg_right hhalf hpow.le)
      linarith

/-! ## the search -/

theorem leadingPlace_le {n d : Nat} (hn : 0 < n) (hd : 0 < d) :
    (10 : ℚ) ^ leadingPlace n d ≤ (n : ℚ) / d := by
  obtain ⟨hnlow, _⟩ := digits_bounds hn
  obtain ⟨_, hdhigh⟩ := digits_bounds hd
  have hpos : (0 : ℚ) < d := Nat.cast_pos.mpr hd
  have hlen : 0 < (digits n).length := by
    obtain ⟨c, ds, hds, _⟩ := digits_head hn
    rw [hds]
    exact Nat.succ_pos _
  unfold leadingPlace
  dsimp only
  generalize hguess : ((digits n).length : Int) - ((digits d).length : Int) = guess
  split
  · rename_i hle
    have hunit : 0 < d * Nat.pow 10 guess.toNat := Nat.mul_pos hd (Nat.pow_pos (by decide))
    have hratio := ratio_pow 10 n d guess
    have hone : (1 : ℚ) ≤ (n : ℚ) / d * ((10 : Nat) : ℚ) ^ (-guess) := by
      rw [← hratio, le_div_iff₀ (Nat.cast_pos.mpr hunit), one_mul]
      exact_mod_cast hle
    rw [zpow_neg, ← div_eq_mul_inv, le_div_iff₀ (zpow_pos (by norm_num) _), one_mul] at hone
    exact_mod_cast hone
  · rw [le_div_iff₀ hpos]
    calc (10 : ℚ) ^ (guess - 1) * d
        ≤ 10 ^ (guess - 1) * 10 ^ ((digits d).length : Int) := by
          refine mul_le_mul_of_nonneg_left ?_ (ten_pow_pos _).le
          rw [zpow_natCast]
          exact_mod_cast hdhigh.le
      _ = 10 ^ (((digits n).length - 1 : Nat) : Int) := by
          rw [← zpow_add₀ (by norm_num)]
          congr 1
          omega
      _ ≤ n := by
          rw [zpow_natCast]
          exact_mod_cast hnlow

theorem dropZeros_value (fuel c : Nat) (g : Int) :
    ((dropZeros fuel c g).1 : ℚ) * 10 ^ (dropZeros fuel c g).2 = c * 10 ^ g := by
  induction fuel generalizing c g with
  | zero => rfl
  | succ fuel ih =>
    rw [dropZeros]
    split
    · rename_i hzero
      have hc : c = c / 10 * 10 := by omega
      rw [ih, zpow_add₀ (by norm_num), zpow_one]
      conv_rhs => rw [hc]
      push_cast
      ring
    · rfl

theorem search_rounds {m : Nat} {e place : Int} (hm : 0 < m) (hlimit : m < 2 ^ 53)
    (hplace : (10 : ℚ) ^ place ≤ m * 2 ^ e) (fuel count : Nat) (hcount : count + fuel = 17) :
    Rounds ((search m e place (fuel + 1) count).1 * 10 ^ (search m e place (fuel + 1) count).2)
      m e := by
  induction fuel generalizing count with
  | zero =>
    -- the last grid is fine enough
    rw [search]
    have hfine : (10 : ℚ) ^ (place - count + 1) * 10 ^ 16 ≤ m * 2 ^ e := by
      have hpow : (10 : ℚ) ^ (place - count + 1) * 10 ^ 16 = 10 ^ place := by
        rw [← zpow_natCast, ← zpow_add₀ (by norm_num)]
        congr 1
        omega
      rw [hpow]
      exact hplace
    obtain ⟨c, hc⟩ := Option.ne_none_iff_exists'.mp (onGrid?_fine hm hlimit hfine)
    rw [hc]
    dsimp only
    rw [dropZeros_value]
    exact (onGrid?_inside hc).rounds hm
  | succ fuel ih =>
    rw [search]
    split
    · rename_i c hc
      rw [dropZeros_value]
      exact (onGrid?_inside hc).rounds hm
    · exact ih (count + 1) (by omega)

theorem shortest_rounds {m : Nat} {e : Int} (hm : 0 < m) (hlimit : m < 2 ^ 53) :
    Rounds ((shortest m e).1 * 10 ^ (shortest m e).2) m e := by
  refine search_rounds hm hlimit ?_ 16 1 rfl
  have hle := leadingPlace_le (n := m * Nat.pow 2 e.toNat) (d := Nat.pow 2 (-e).toNat)
    (Nat.mul_pos hm (Nat.pow_pos (by decide))) (Nat.pow_pos (by decide))
  apply le_of_le_of_eq hle
  have h := ratio_pow 2 m 1 (-e)
  rw [neg_neg, one_mul, Nat.cast_one, div_one] at h
  exact h

theorem shortest_pos {m : Nat} {e : Int} (hm : 0 < m) (hlimit : m < 2 ^ 53) :
    0 < (shortest m e).1 := by
  have h := (shortest_rounds (e := e) hm hlimit).pos hm
  rw [Nat.pos_iff_ne_zero]
  intro hzero
  rw [hzero, Nat.cast_zero, zero_mul] at h
  have hpow := two_pow_pos e
  linarith

end Decimal

end ListQuery
