import Mathlib.Algebra.Order.Floor.Div
import ListQuery.Proofs.Number.Rounding

/-!
# Quotients rounded up

The double nearest to a quotient of two naturals up to `2^53` lies between the same integers as the
quotient itself, so rounding it up gives what rounding up the exact quotient gives.

* `Binary64.mul_lt_roundDiv` what rounding does not go below;
* `Binary64.ofRatio_value`   the double of a ratio, as a rational;
* `Binary64.ceil?_eq`        the integer that a double is rounded up to;
* `Binary64.ceil?_ofRatio`   the quotient of naturals up to `2^53`.
-/

namespace ListQuery

namespace Binary64

/-! ## the nearest natural and the naturals around it -/

theorem roundDiv_le {n d k : Nat} (hd : 0 < d) (h : n ≤ k * d) : roundDiv n d ≤ k := by
  have hsplit : d * (n / d) + n % d = n := Nat.div_add_mod n d
  have hmod : n % d < d := Nat.mod_lt n hd
  have hquot : n / d ≤ k := Nat.div_le_of_le_mul (by rw [Nat.mul_comm]; exact h)
  have hbelow : n % d ≠ 0 → n / d < k := by
    intro hrest
    by_contra hge
    have heq : n / d = k := by omega
    rw [heq, Nat.mul_comm] at hsplit
    omega
  unfold roundDiv
  dsimp only
  split
  · exact hquot
  · have := hbelow (by omega)
    split <;> omega

theorem lt_roundDiv {n d j : Nat} (hd : 0 < d) (h : 2 * (j * d) + d < 2 * n) :
    j < roundDiv n d := by
  have hsplit : d * (n / d) + n % d = n := Nat.div_add_mod n d
  have hquot : j ≤ n / d := (Nat.le_div_iff_mul_le hd).mpr (by omega)
  have hrest : n / d = j → d < 2 * (n % d) := by
    intro heq
    rw [heq, Nat.mul_comm] at hsplit
    omega
  unfold roundDiv
  dsimp only
  split
  · by_contra hle
    have := hrest (by omega)
    omega
  · split
    · omega
    · by_contra hle
      have := hrest (by omega)
      omega

/-- what exceeds a natural exceeds it by half a unit at least, where the units are as small as those
in which a quotient up to `2^53` is rounded -/
theorem mul_lt_roundDiv {n d j scale : Nat} (hd : 0 < d) (hscale : 0 < scale) (hn : n ≤ 2 ^ 53)
    (hreach : 2 ^ 52 * d ≤ n * scale) (hj : j * d < n) : j * scale < roundDiv (n * scale) d := by
  rcases Nat.lt_or_ge d (2 * scale) with hfine | hcoarse
  · refine lt_roundDiv hd ?_
    calc 2 * (j * scale * d) + d < 2 * (j * scale * d) + 2 * scale := Nat.add_lt_add_left hfine _
      _ = 2 * ((j * d + 1) * scale) := by ring
      _ ≤ 2 * (n * scale) := Nat.mul_le_mul_left 2 (Nat.mul_le_mul_right scale hj)
  · -- only `2^53` reaches so far at a divisor so large, and nothing is rounded there
    have hle : n * scale ≤ 2 ^ 53 * scale := Nat.mul_le_mul_right scale hn
    have hd2 : d = 2 * scale := by omega
    have hge : 2 ^ 53 * scale ≤ n * scale := by omega
    have hn2 : n = 2 ^ 53 := Nat.le_antisymm hn (Nat.le_of_mul_le_mul_right hge hscale)
    subst hd2 hn2
    have hround : roundDiv (2 ^ 53 * scale) (2 * scale) = 2 ^ 52 :=
      roundDiv_eq hd (by omega) (by omega) (.inl (by decide))
    rw [Nat.mul_left_comm] at hj
    rw [hround]
    omega

/-! ## doubles as rationals -/

/-- the double of a ratio that is not too large is what its significand rounds to -/
theorem ofRatio_value (negative : Bool) {n d : Nat} (hn : 0 < n)
    (hexp : exponentFor n d < greatestExponent) :
    ∃ m e, ofRatio negative n d = .finite negative m e ∧
      (m : ℚ) * 2 ^ e = roundDiv (inUnits n d (exponentFor n d)).1 (inUnits n d (exponentFor n d)).2
        * 2 ^ exponentFor n d := by
  rw [ofRatio_eq_of_units negative hn]
  generalize roundDiv (inUnits n d (exponentFor n d)).1 (inUnits n d (exponentFor n d)).2 = m
  dsimp only
  by_cases hm : m = significandLimit
  · rw [if_pos hm]
    dsimp only
    rw [if_neg (by omega)]
    refine ⟨_, _, rfl, ?_⟩
    have hlimit : (m : ℚ) = 2 * (significandLimit / 2 : Nat) := by
      rw [hm]
      show ((2 ^ 53 : Nat) : ℚ) = 2 * ((2 ^ 53 / 2 : Nat) : ℚ)
      norm_num
    rw [hlimit, two_pow_succ]
    ring
  · rw [if_neg hm]
    dsimp only
    rw [if_neg (by omega)]
    exact ⟨_, _, rfl, rfl⟩

theorem ceil?_eq {m k : Nat} {e : Int} (habove : (k : ℚ) - 1 < m * 2 ^ e)
    (hbelow : (m : ℚ) * 2 ^ e ≤ k) : ceil? (.finite false m e) = .ok k := by
  have hd : 0 < Nat.pow 2 (-e).toNat := Nat.pow_pos (by decide)
  have hratio := ratio_pow 2 m 1 (-e)
  rw [Int.neg_neg, Nat.one_mul, Nat.cast_one, div_one, Nat.cast_two] at hratio
  rw [← hratio] at habove hbelow
  generalize hnum : m * Nat.pow 2 e.toNat = num at *
  generalize hden : Nat.pow 2 (-e).toNat = den at *
  have hpos : (0 : ℚ) < den := Nat.cast_pos.mpr hd
  rw [lt_div_iff₀ hpos] at habove
  rw [div_le_iff₀ hpos] at hbelow
  have hbelow' : num ≤ k * den := by exact_mod_cast hbelow
  have habove' : k * den < num + den := by
    have h : (k * den : ℚ) < num + den := by linarith
    exact_mod_cast h
  have hdiv : (num + den - 1) / den = k := by
    refine Nat.div_eq_of_lt_le (by omega) ?_
    rw [Nat.succ_mul]
    omega
  unfold ceil?
  dsimp only
  rw [hnum, hden, hdiv]
  rfl

/-! ## quotients up to `2^53` -/

/-- the quotient of two naturals up to `2^53` is rounded at an exponent up to one, and the least
exponent is far below it -/
theorem exponentFor_quotient {n d : Nat} (hn : 0 < n) (hn53 : n ≤ 2 ^ 53) (hd : 0 < d)
    (hd53 : d ≤ 2 ^ 53) :
    exponentFor n d ≤ 1 ∧ 2 ^ 52 * 2 ^ exponentFor n d ≤ (n : ℚ) / d := by
  obtain ⟨_, hupper, hnormal⟩ := exponentFor_spec hn hd
  have hpos : (0 : ℚ) < d := Nat.cast_pos.mpr hd
  have hn1 : (1 : ℚ) ≤ n := Nat.one_le_cast.mpr hn
  have hd1 : (1 : ℚ) ≤ d := Nat.one_le_cast.mpr hd
  have hn53q : (n : ℚ) ≤ 2 ^ 53 := by exact_mod_cast hn53
  have hd53q : (d : ℚ) ≤ 2 ^ 53 := by exact_mod_cast hd53
  have hreach : 2 ^ 52 * 2 ^ exponentFor n d ≤ (n : ℚ) / d := by
    rcases hnormal with hleast | hreach
    · exfalso
      rw [hleast] at hupper
      have hleast107 : (2 : ℚ) ^ leastExponent ≤ 2 ^ (-107 : Int) :=
        zpow_le_zpow_right₀ (by norm_num) (by decide)
      have hge : (1 : ℚ) / 2 ^ 53 ≤ n / d := div_le_div₀ (by linarith) hn1 hpos hd53q
      have htiny : (n : ℚ) / d < 1 / 2 ^ 53 :=
        calc (n : ℚ) / d < 2 ^ 53 * 2 ^ leastExponent := hupper
          _ ≤ 2 ^ 53 * 2 ^ (-107 : Int) := mul_le_mul_of_nonneg_left hleast107 (by norm_num)
          _ < 1 / 2 ^ 53 := by norm_num
      exact absurd htiny (not_lt.mpr hge)
    · exact hreach
  refine ⟨?_, hreach⟩
  by_contra hlt
  have hpow : (2 : ℚ) ^ (2 : Int) ≤ 2 ^ exponentFor n d := zpow_le_zpow_right₀ (by norm_num) (by omega)
  have hle : (n : ℚ) / d ≤ 2 ^ 53 := (div_le_self (by linarith) hd1).trans hn53q
  norm_num at hpow
  linarith

/-- a quotient rounded up is the natural next to those that do not reach it -/
theorem ceilDiv_between {n d : Nat} (hn : 0 < n) (hd : 0 < d) :
    ∃ j, n ⌈/⌉ d = j + 1 ∧ j * d < n ∧ n ≤ (j + 1) * d := by
  have hle (k : Nat) : n ⌈/⌉ d ≤ k ↔ n ≤ d * k := ceilDiv_le_iff_le_mul hd
  cases hk : n ⌈/⌉ d with
  | zero =>
    have hzero := (hle 0).mp hk.le
    omega
  | succ j =>
    refine ⟨j, rfl, ?_, ?_⟩
    · rw [Nat.mul_comm]
      exact Nat.lt_of_not_le fun h => absurd ((hle j).mpr h) (by omega)
    · rw [Nat.mul_comm]
      exact (hle (j + 1)).mp hk.le

/-- Rounding carries the quotient of two naturals up to `2^53` over no integer: what exceeds an
integer exceeds it by more than the doubles there are apart. -/
theorem ceil?_ofRatio {n d : Nat} (hn : 0 < n) (hn53 : n ≤ 2 ^ 53) (hd : 0 < d) (hd53 : d ≤ 2 ^ 53) :
    ceil? (ofRatio false n d) = .ok (n ⌈/⌉ d : Nat) := by
  obtain ⟨hexp, hreach⟩ := exponentFor_quotient hn hn53 hd hd53
  have hpos : (0 : ℚ) < d := Nat.cast_pos.mpr hd
  rcases Int.lt_or_eq_of_le hexp with hlt | hone
  · obtain ⟨m, e, hround, hvalue⟩ := ofRatio_value false hn
      (show exponentFor n d < greatestExponent by unfold greatestExponent; omega)
    rw [hround]
    generalize hE : exponentFor n d = E at *
    obtain ⟨s, rfl⟩ : ∃ s : Nat, E = -s := ⟨(-E).toNat, by omega⟩
    -- in units of the exponent the quotient is `n * 2 ^ s / d`
    have hscale : (0 : ℚ) < 2 ^ s := by positivity
    have hunits : inUnits n d (-(s : Int)) = (n * 2 ^ s, d) := by
      have hneg : (-(s : Int)).toNat = 0 := by omega
      unfold inUnits
      rw [Int.neg_neg, Int.toNat_natCast, hneg]
      show (n * 2 ^ s, d * 1) = _
      rw [Nat.mul_one]
    rw [hunits] at hvalue
    dsimp only at hvalue
    rw [zpow_neg, zpow_natCast, ← div_eq_mul_inv] at hvalue
    obtain ⟨j, hquotient, hbelow, habove⟩ := ceilDiv_between hn hd
    have hle : roundDiv (n * 2 ^ s) d ≤ (j + 1) * 2 ^ s := by
      refine roundDiv_le hd ?_
      calc n * 2 ^ s ≤ (j + 1) * d * 2 ^ s := Nat.mul_le_mul_right _ habove
        _ = (j + 1) * 2 ^ s * d := by ring
    have hgt : j * 2 ^ s < roundDiv (n * 2 ^ s) d := by
      rw [zpow_neg, zpow_natCast, ← div_eq_mul_inv, div_le_div_iff₀ hscale hpos] at hreach
      exact mul_lt_roundDiv hd (Nat.two_pow_pos s) hn53 (by exact_mod_cast hreach) hbelow
    rw [hquotient]
    refine ceil?_eq ?_ ?_
    · rw [hvalue, lt_div_iff₀ hscale, Nat.cast_succ, add_sub_cancel_right]
      exact_mod_cast hgt
    · rw [hvalue, div_le_iff₀ hscale]
      exact_mod_cast hle
  · have hn2 : n = 2 ^ 53 ∧ d = 1 := by
      rw [hone, zpow_one, le_div_iff₀ hpos] at hreach
      have hreach' : 2 ^ 52 * 2 * d ≤ n := by exact_mod_cast hreach
      omega
    rw [hn2.1, hn2.2]
    decide +kernel

end Binary64

end ListQuery
