import Mathlib.Algebra.Order.Field.Power
import Mathlib.Data.Rat.Cast.Order
import Mathlib.Tactic.FieldSimp
import Mathlib.Tactic.Linarith
import Mathlib.Tactic.NormNum
import Mathlib.Tactic.Positivity
import Mathlib.Tactic.Ring
import ListQuery.Number.Binary64

/-!
# Rounding to doubles

The rationals that round to a double lie around it, half a unit to either side, or a quarter below
it where the doubles get denser.  `Binary64.ofRatio` finds the double that a rational rounds to.

* `ratio_pow`           a quotient of naturals times a power, as a rational;
* `Binary64.Proper`     the significands and exponents of doubles;
* `Binary64.Rounds`     the rationals that round to a double;
* `roundDiv_eq`         the natural nearest to a quotient;
* `exponentFor_spec`    the exponent that a quotient is rounded at;
* `ofRatio_eq`          the double that a quotient rounds to.
-/

namespace ListQuery

/-! ## quotients and powers -/

theorem pow_toNat_div (b : ℚ) (e : Int) : b ^ (-e).toNat / b ^ e.toNat = b ^ (-e) := by
  rcases e.eq_nat_or_neg with ⟨k, rfl | rfl⟩
  · have hzero : (-(k : Int)).toNat = 0 := by omega
    rw [hzero, Int.toNat_natCast, pow_zero, zpow_neg, zpow_natCast, one_div]
  · have hzero : (-(k : Int)).toNat = 0 := by omega
    rw [hzero, Int.neg_neg, Int.toNat_natCast, pow_zero, div_one, zpow_natCast]

theorem ratio_pow (b n d : Nat) (e : Int) :
    ((n * Nat.pow b (-e).toNat : Nat) : ℚ) / ((d * Nat.pow b e.toNat : Nat) : ℚ)
      = (n : ℚ) / d * (b : ℚ) ^ (-e) := by
  rw [← pow_toNat_div (b : ℚ) e]
  simp only [Nat.pow_eq, Nat.cast_mul, Nat.cast_pow]
  rw [mul_div_mul_comm]

namespace Binary64

/-! ## doubles and what rounds to them -/

structure Proper (m : Nat) (e : Int) : Prop where
  significand : m < 2 ^ 53
  least : leastExponent ≤ e
  greatest : e ≤ greatestExponent
  normal : leastExponent < e → 2 ^ 52 ≤ m

/-- the rational lies where rationals round to `m · 2^e`; the ends round to it when `m` is even -/
structure Rounds (x : ℚ) (m : Nat) (e : Int) : Prop where
  above : ((m : ℚ) - if m = 2 ^ 52 ∧ leastExponent < e then 1 / 4 else 1 / 2) * 2 ^ e ≤ x
  below : x ≤ (m + 1 / 2) * 2 ^ e
  tie : m % 2 = 0 ∨
    (((m : ℚ) - 1 / 2) * 2 ^ e < x ∧ x < (m + 1 / 2) * 2 ^ e)

theorem two_pow_pos (e : Int) : (0 : ℚ) < 2 ^ e := zpow_pos (by norm_num) e

theorem two_pow_succ (e : Int) : (2 : ℚ) ^ (e + 1) = 2 * 2 ^ e := by
  rw [zpow_add₀ (by norm_num), zpow_one, mul_comm]

theorem Rounds.pos {x : ℚ} {m : Nat} {e : Int} (hm : 0 < m) (h : Rounds x m e) :
    1 / 2 * 2 ^ e ≤ x := by
  have hmq : (1 : ℚ) ≤ m := Nat.one_le_cast.mpr hm
  refine le_trans ?_ h.above
  refine mul_le_mul_of_nonneg_right ?_ (two_pow_pos e).le
  split <;> linarith

/-! ## the nearest natural -/

theorem roundDiv_eq {n d m : Nat} (hd : 0 < d) (habove : 2 * m * d ≤ 2 * n + d)
    (hbelow : 2 * n ≤ (2 * m + 1) * d)
    (htie : m % 2 = 0 ∨ (2 * m * d < 2 * n + d ∧ 2 * n < (2 * m + 1) * d)) :
    roundDiv n d = m := by
  have hsplit : d * (n / d) + n % d = n := Nat.div_add_mod n d
  have hr : n % d < d := Nat.mod_lt n hd
  generalize hq : n / d = q at hsplit
  generalize hrem : n % d = r at hsplit hr
  have hsame : roundDiv n d = if 2 * r < d then q else if d < 2 * r then q + 1 else q + q % 2 := by
    unfold roundDiv
    simp only [hq, hrem]
  -- the nearest natural is the quotient or the next one
  have hlow : q ≤ m := by
    by_contra hlt
    have hstep : (m + 1) * d ≤ q * d := Nat.mul_le_mul_right d (by omega)
    nlinarith
  have hhigh : m ≤ q + 1 := by
    by_contra hlt
    have hstep : (q + 2) * d ≤ m * d := Nat.mul_le_mul_right d (by omega)
    nlinarith
  rw [hsame]
  rcases Nat.lt_or_eq_of_le hlow with hlt | heq
  · have hm : m = q + 1 := by omega
    subst hm
    have hhalf : d ≤ 2 * r := by nlinarith
    rw [if_neg (by omega)]
    split
    · rfl
    · have htwice : 2 * r = d := by omega
      have heven : (q + 1) % 2 = 0 := by
        rcases htie with h | ⟨h, _⟩
        · exact h
        · exfalso; nlinarith
      omega
  · subst heq
    have hhalf : 2 * r ≤ d := by nlinarith
    split
    · rfl
    · have htwice : 2 * r = d := by omega
      rw [if_neg (by omega)]
      have heven : q % 2 = 0 := by
        rcases htie with h | ⟨_, h⟩
        · exact h
        · exfalso; nlinarith
      omega

theorem roundDiv_of_rat {n d m : Nat} (hd : 0 < d) (habove : (m : ℚ) - 1 / 2 ≤ (n : ℚ) / d)
    (hbelow : (n : ℚ) / d ≤ m + 1 / 2)
    (htie : m % 2 = 0 ∨ ((m : ℚ) - 1 / 2 < (n : ℚ) / d ∧ (n : ℚ) / d < m + 1 / 2)) :
    roundDiv n d = m := by
  have hpos : (0 : ℚ) < d := Nat.cast_pos.mpr hd
  refine roundDiv_eq hd ?_ ?_ ?_
  · rw [le_div_iff₀ hpos] at habove
    have h : (2 * m * d : ℚ) ≤ 2 * n + d := by linarith
    exact_mod_cast h
  · rw [div_le_iff₀ hpos] at hbelow
    have h : (2 * n : ℚ) ≤ (2 * m + 1) * d := by linarith
    exact_mod_cast h
  · rcases htie with h | ⟨habove, hbelow⟩
    · exact .inl h
    · rw [lt_div_iff₀ hpos] at habove
      rw [div_lt_iff₀ hpos] at hbelow
      refine .inr ⟨?_, ?_⟩
      · have h : (2 * m * d : ℚ) < 2 * n + d := by linarith
        exact_mod_cast h
      · have h : (2 * n : ℚ) < (2 * m + 1) * d := by linarith
        exact_mod_cast h

/-! ## the exponent -/

theorem log2_bounds {n : Nat} (hn : 0 < n) :
    (2 : ℚ) ^ (n.log2 : Int) ≤ n ∧ (n : ℚ) < 2 ^ ((n.log2 : Int) + 1) := by
  have hlow : 2 ^ n.log2 ≤ n := Nat.log2_self_le (by omega)
  have hhigh : n < 2 ^ (n.log2 + 1) := Nat.lt_log2_self
  constructor
  · rw [zpow_natCast]
    exact_mod_cast hlow
  · have hcast : ((n.log2 : Int) + 1) = ((n.log2 + 1 : Nat) : Int) := by push_cast; rfl
    rw [hcast, zpow_natCast]
    exact_mod_cast hhigh

/-- a quotient of naturals lies between the powers that their lengths give -/
theorem ratio_bounds {n d : Nat} (hn : 0 < n) (hd : 0 < d) :
    (2 : ℚ) ^ ((n.log2 : Int) - d.log2 - 1) < (n : ℚ) / d ∧
      (n : ℚ) / d < 2 ^ ((n.log2 : Int) - d.log2 + 1) := by
  obtain ⟨hnlow, hnhigh⟩ := log2_bounds hn
  obtain ⟨hdlow, hdhigh⟩ := log2_bounds hd
  have hpos : (0 : ℚ) < d := Nat.cast_pos.mpr hd
  constructor
  · rw [lt_div_iff₀ hpos]
    calc (2 : ℚ) ^ ((n.log2 : Int) - d.log2 - 1) * d
        < 2 ^ ((n.log2 : Int) - d.log2 - 1) * 2 ^ ((d.log2 : Int) + 1) := by
          exact mul_lt_mul_of_pos_left hdhigh (two_pow_pos _)
      _ = 2 ^ (n.log2 : Int) := by
          rw [← zpow_add₀ (by norm_num)]
          congr 1
          ring
      _ ≤ n := hnlow
  · rw [div_lt_iff₀ hpos]
    calc (n : ℚ) < 2 ^ ((n.log2 : Int) + 1) := hnhigh
      _ = 2 ^ ((n.log2 : Int) - d.log2 + 1) * 2 ^ (d.log2 : Int) := by
          rw [← zpow_add₀ (by norm_num)]
          congr 1
          ring
      _ ≤ 2 ^ ((n.log2 : Int) - d.log2 + 1) * d := by
          exact mul_le_mul_of_nonneg_left hdlow (two_pow_pos _).le

theorem inUnits_pos {n d : Nat} (hd : 0 < d) (e : Int) : 0 < (inUnits n d e).2 :=
  Nat.mul_pos hd (Nat.pow_pos (by decide))

theorem inUnits_ratio (n d : Nat) (e : Int) :
    ((inUnits n d e).1 : ℚ) / ((inUnits n d e).2 : ℚ) = (n : ℚ) / d * 2 ^ (-e) :=
  ratio_pow 2 n d e

theorem mul_two_pow_neg {x y : ℚ} (e : Int) : x * 2 ^ (-e) < y ↔ x < y * 2 ^ e := by
  rw [zpow_neg, ← div_eq_mul_inv, div_lt_iff₀ (two_pow_pos e)]

/-- a quotient is below `2^53` units of its exponent, and reaches `2^52` of them unless the exponent
is the least -/
theorem exponentFor_spec {n d : Nat} (hn : 0 < n) (hd : 0 < d) :
    leastExponent ≤ exponentFor n d ∧ (n : ℚ) / d < 2 ^ 53 * 2 ^ exponentFor n d ∧
      (exponentFor n d = leastExponent ∨ 2 ^ 52 * 2 ^ exponentFor n d ≤ (n : ℚ) / d) := by
  obtain ⟨hlow, hhigh⟩ := ratio_bounds hn hd
  generalize hlog : (n.log2 : Int) - d.log2 = log at hlow hhigh
  have hunits := inUnits_ratio n d (max (log - 53) leastExponent)
  have hpos := inUnits_pos (n := n) hd (max (log - 53) leastExponent)
  generalize hbase : max (log - 53) leastExponent = base at hunits hpos
  have hposq : (0 : ℚ) < (inUnits n d base).2 := Nat.cast_pos.mpr hpos
  have hexp : exponentFor n d
      = if (inUnits n d base).1 / (inUnits n d base).2 < significandLimit then base else base + 1 := by
    unfold exponentFor
    rw [hlog, hbase]
  have hfloor : (inUnits n d base).1 / (inUnits n d base).2 < significandLimit
      ↔ (n : ℚ) / d < 2 ^ 53 * 2 ^ base := by
    rw [Nat.div_lt_iff_lt_mul hpos, ← mul_two_pow_neg, ← hunits, div_lt_iff₀ hposq]
    show _ < 2 ^ 53 * _ ↔ _
    exact_mod_cast Iff.rfl
  rw [hexp]
  split
  · rename_i hlt
    refine ⟨by omega, hfloor.mp hlt, ?_⟩
    rcases Int.le_total (log - 53) leastExponent with hle | hle
    · exact .inl (by omega)
    · right
      have hbase' : base = log - 53 := by omega
      have hpow : (2 : ℚ) ^ 52 * 2 ^ base = 2 ^ (log - 1) := by
        rw [hbase', ← zpow_natCast, ← zpow_add₀ (by norm_num)]
        congr 1
        push_cast
        ring
      rw [hpow]
      exact hlow.le
  · rename_i hge
    have hge' : 2 ^ 53 * 2 ^ base ≤ (n : ℚ) / d := not_lt.mp (fun h => hge (hfloor.mpr h))
    refine ⟨by omega, ?_, .inr ?_⟩
    · apply lt_of_lt_of_le hhigh
      have hpow : (2 : ℚ) ^ 53 * 2 ^ (base + 1) = 2 ^ (base + 54) := by
        rw [← zpow_natCast, ← zpow_add₀ (by norm_num)]
        congr 1
        push_cast
        ring
      rw [hpow]
      exact zpow_le_zpow_right₀ (by norm_num) (by omega)
    · rw [two_pow_succ]
      linarith

/-- no other exponent is as fitting -/
theorem exponentFor_eq {n d : Nat} (hn : 0 < n) (hd : 0 < d) {e : Int} (hleast : leastExponent ≤ e)
    (hbelow : (n : ℚ) / d < 2 ^ 53 * 2 ^ e)
    (habove : e = leastExponent ∨ 2 ^ 52 * 2 ^ e ≤ (n : ℚ) / d) : exponentFor n d = e := by
  obtain ⟨hleast', hbelow', habove'⟩ := exponentFor_spec hn hd
  have hnot : ∀ {a b : Int}, a < b → (n : ℚ) / d < 2 ^ 53 * 2 ^ a →
      ¬ 2 ^ 52 * 2 ^ b ≤ (n : ℚ) / d := by
    intro a b hab hlt hle
    have hmono : (2 : ℚ) ^ (a + 1) ≤ 2 ^ b := zpow_le_zpow_right₀ (by norm_num) (by omega)
    rw [two_pow_succ] at hmono
    linarith
  rcases lt_trichotomy (exponentFor n d) e with hlt | heq | hgt
  · rcases habove with h | h
    · omega
    · exact absurd h (hnot hlt hbelow')
  · exact heq
  · rcases habove' with h | h
    · omega
    · exact absurd h (hnot hgt hbelow)

/-! ## the double that a quotient rounds to -/

theorem ofRatio_eq_of_units (negative : Bool) {n d : Nat} (hn : 0 < n) :
    ofRatio negative n d =
      (let m := roundDiv (inUnits n d (exponentFor n d)).1 (inUnits n d (exponentFor n d)).2
       let (m, e) := if m = significandLimit then (significandLimit / 2, exponentFor n d + 1)
         else (m, exponentFor n d)
       if greatestExponent < e then .infinity negative else .finite negative m e) := by
  unfold ofRatio
  rw [if_neg (by omega)]

theorem ofRatio_eq (negative : Bool) {n d m : Nat} {e : Int} (hn : 0 < n) (hd : 0 < d)
    (hproper : Proper m e) (h : Rounds ((n : ℚ) / d) m e) :
    ofRatio negative n d = .finite negative m e := by
  obtain ⟨hm, hleast, hgreatest, hnormal⟩ := hproper
  obtain ⟨habove, hbelow, htie⟩ := h
  have hpow := two_pow_pos e
  have hmq : (m : ℚ) ≤ 2 ^ 53 - 1 := by
    have : m + 1 ≤ 2 ^ 53 := hm
    have hcast : ((m + 1 : Nat) : ℚ) ≤ ((2 ^ 53 : Nat) : ℚ) := Nat.cast_le.mpr this
    push_cast at hcast
    linarith
  have hupper : (n : ℚ) / d < 2 ^ 53 * 2 ^ e := by nlinarith
  rw [ofRatio_eq_of_units negative hn]
  by_cases hfit : e = leastExponent ∨ 2 ^ 52 * 2 ^ e ≤ (n : ℚ) / d
  · -- the quotient is rounded at the exponent of the double
    have hexp := exponentFor_eq hn hd hleast hupper hfit
    rw [hexp]
    have hround : roundDiv (inUnits n d e).1 (inUnits n d e).2 = m := by
      have hratio := inUnits_ratio n d e
      have hscale : (n : ℚ) / d = (n : ℚ) / d * 2 ^ (-e) * 2 ^ e := by
        rw [mul_assoc, ← zpow_add₀ (by norm_num), neg_add_cancel, zpow_zero, mul_one]
      generalize hy : (n : ℚ) / d * 2 ^ (-e) = y at hratio hscale
      rw [hscale] at habove hbelow htie
      have habove' := le_of_mul_le_mul_right habove hpow
      refine roundDiv_of_rat (inUnits_pos hd e) ?_ ?_ ?_
      · rw [hratio]
        refine le_trans ?_ habove'
        split <;> linarith
      · rw [hratio]
        exact le_of_mul_le_mul_right hbelow hpow
      · rw [hratio]
        rcases htie with htie | ⟨hlow, hhigh⟩
        · exact .inl htie
        · exact .inr ⟨lt_of_mul_lt_mul_right hlow hpow.le, lt_of_mul_lt_mul_right hhigh hpow.le⟩
    dsimp only
    rw [hround]
    have hne : m ≠ significandLimit := Nat.ne_of_lt hm
    rw [if_neg hne]
    exact if_neg (by omega)
  · -- the quotient is just below a power of two and is rounded at the exponent before
    rw [not_or, not_le] at hfit
    obtain ⟨hne, hshort⟩ := hfit
    have hlt : leastExponent < e := by omega
    have hnormal := hnormal hlt
    have hm52 : m = 2 ^ 52 := by
      by_contra hother
      have hbig : ((2 ^ 52 + 1 : Nat) : ℚ) ≤ m := Nat.cast_le.mpr (by omega)
      push_cast at hbig
      have hdelta : ((m : ℚ) - 1 / 2) * 2 ^ e ≤ (n : ℚ) / d := by
        refine le_trans ?_ habove
        refine mul_le_mul_of_nonneg_right ?_ hpow.le
        split <;> linarith
      nlinarith
    rw [if_pos ⟨hm52, hlt⟩] at habove
    have hpred : (2 : ℚ) ^ e = 2 * 2 ^ (e - 1) := by
      rw [← two_pow_succ, sub_add_cancel]
    have hpow' := two_pow_pos (e - 1)
    subst hm52
    push_cast at habove
    rw [hpred] at habove hshort hbelow
    have hexp : exponentFor n d = e - 1 := by
      refine exponentFor_eq hn hd (by omega) (by linarith) (.inr (by linarith))
    rw [hexp]
    have hround : roundDiv (inUnits n d (e - 1)).1 (inUnits n d (e - 1)).2 = significandLimit := by
      have hratio := inUnits_ratio n d (e - 1)
      have hscale : (n : ℚ) / d = (n : ℚ) / d * 2 ^ (-(e - 1)) * 2 ^ (e - 1) := by
        rw [mul_assoc, ← zpow_add₀ (by norm_num), neg_add_cancel, zpow_zero, mul_one]
      generalize hy : (n : ℚ) / d * 2 ^ (-(e - 1)) = y at hratio hscale
      rw [hscale] at habove hshort
      have hlow : (2 : ℚ) ^ 53 - 1 / 2 ≤ y := by
        refine le_of_mul_le_mul_right ?_ hpow'
        linarith
      have hhigh : y < (2 : ℚ) ^ 53 := by
        refine lt_of_mul_lt_mul_right ?_ hpow'.le
        linarith
      have hlimit : ((significandLimit : Nat) : ℚ) = 2 ^ 53 := by
        show ((2 ^ 53 : Nat) : ℚ) = 2 ^ 53
        push_cast
        rfl
      refine roundDiv_of_rat (inUnits_pos hd (e - 1)) ?_ ?_ (.inl (by decide))
      · rw [hratio, hlimit]
        exact hlow
      · rw [hratio, hlimit]
        linarith
    dsimp only
    rw [hround, if_pos rfl]
    dsimp only
    rw [sub_add_cancel, if_neg (by omega)]
    rfl

end Binary64

end ListQuery
