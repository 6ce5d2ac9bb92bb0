import ListQuery.Value.Convert
import ListQuery.Proofs.Number.Ceiling
import ListQuery.Proofs.Number.Order

/-!
# Quotients of integers

A quotient of integers is a double unless it is so great that it rounds beyond all of them.

* `Binary64.tooGreat`                          the least magnitude that rounds beyond all doubles;
* `Binary64.ofRatio_below`, `ofRatio_beyond`   what is below it has a double, the rest none;
* `Value.quotient_finite`, `quotient_overflow`  which integers have a quotient.
-/

namespace ListQuery

namespace Binary64

/-- half a unit beyond the greatest significand, in units of `2^(k + 1)` -/
def halfBeyond (k : Nat) : Nat := (Nat.pow 2 54 - 1) * Nat.pow 2 k

/-- half a unit beyond the greatest double, which has units of `2^971` -/
def tooGreat : Nat := halfBeyond 970

theorem roundDiv_le_of_lt {n d k : Nat} (hd : 0 < d) (h : 2 * n < (2 * k + 1) * d) :
    roundDiv n d ≤ k := by
  have hsplit : d * (n / d) + n % d = n := Nat.div_add_mod n d
  have hquot : n / d ≤ k := by
    rw [Nat.div_le_iff_le_mul hd]
    rw [Nat.add_mul, Nat.mul_assoc] at h
    omega
  -- where the quotient itself is `k`, less than half a unit is left to round
  have hrest : n / d = k → 2 * (n % d) < d := by
    intro heq
    rw [heq, Nat.mul_comm] at hsplit
    rw [Nat.add_mul, Nat.mul_assoc] at h
    omega
  unfold roundDiv
  dsimp only
  split
  · exact hquot
  · have hne : n / d ≠ k := fun heq => by
      have := hrest heq
      omega
    split <;> omega

theorem halfBeyond_eq (k : Nat) :
    (halfBeyond k : ℚ) = (2 ^ 53 - 1 / 2) * 2 ^ ((k : Int) + 1) := by
  have hhalves : ((Nat.pow 2 54 - 1 : Nat) : ℚ) = 2 * (2 ^ 53 - 1 / 2) := by
    show ((2 ^ 54 - 1 : Nat) : ℚ) = _
    norm_num
  rw [halfBeyond, Nat.cast_mul, hhalves, two_pow_succ, zpow_natCast, Nat.pow_eq, Nat.cast_pow,
    Nat.cast_ofNat]
  ring

theorem ratio_below_iff {n d : Nat} (hd : 0 < d) :
    (n : ℚ) / d < (2 ^ 53 - 1 / 2) * 2 ^ greatestExponent ↔ n < tooGreat * d := by
  have hgreat : (tooGreat : ℚ) = (2 ^ 53 - 1 / 2) * 2 ^ greatestExponent := halfBeyond_eq 970
  rw [← hgreat, div_lt_iff₀ (Nat.cast_pos.mpr hd), ← Nat.cast_mul, Nat.cast_lt]

/-- a ratio below `tooGreat` is rounded at an exponent of doubles -/
theorem exponentFor_le {n d : Nat} (hn : 0 < n) (hd : 0 < d) (h : n < tooGreat * d) :
    exponentFor n d ≤ greatestExponent := by
  obtain ⟨-, -, hleast | habove⟩ := exponentFor_spec hn hd
  · rw [hleast]; decide
  · have hratio : (n : ℚ) / d < 2 ^ 52 * 2 ^ (greatestExponent + 1) := by
      have hunit := two_pow_pos greatestExponent
      have hbelow := (ratio_below_iff hd).mpr h
      rw [two_pow_succ]
      linarith
    have hpow : (2 : ℚ) ^ exponentFor n d < 2 ^ (greatestExponent + 1) :=
      lt_of_mul_lt_mul_left (habove.trans_lt hratio) (by norm_num)
    have hlt := (zpow_lt_zpow_iff_right₀ (by norm_num : (1 : ℚ) < 2)).mp hpow
    omega

theorem ofRatio_below (negative : Bool) {n d : Nat} (hd : 0 < d) (h : n < tooGreat * d) :
    ∃ m e, ofRatio negative n d = .finite negative m e := by
  by_cases hn : n = 0
  · exact ⟨0, leastExponent, by rw [ofRatio, if_pos hn]⟩
  have hpos : 0 < n := Nat.pos_of_ne_zero hn
  rcases (exponentFor_le hpos hd h).lt_or_eq with hlt | heq
  · obtain ⟨m, e, hfinite, -⟩ := ofRatio_value negative hpos hlt
    exact ⟨m, e, hfinite⟩
  · -- at the greatest exponent the significand must not be carried over to the next one
    have hbelow := (ratio_below_iff hd).mpr h
    rw [← heq, ← mul_two_pow_neg, ← inUnits_ratio] at hbelow
    have hunits := inUnits_pos (n := n) hd (exponentFor n d)
    rw [ofRatio_eq_of_units negative hpos]
    generalize inUnits n d (exponentFor n d) = units at hunits hbelow ⊢
    rw [div_lt_iff₀ (Nat.cast_pos.mpr hunits)] at hbelow
    have hround : roundDiv units.1 units.2 ≤ 2 ^ 53 - 1 := by
      apply roundDiv_le_of_lt hunits
      have hdouble : ((2 * units.1 : Nat) : ℚ) < ((2 * (2 ^ 53 - 1) + 1) * units.2 : Nat) := by
        push_cast
        linarith
      exact Nat.cast_lt.mp hdouble
    have hne : roundDiv units.1 units.2 ≠ significandLimit := by
      show _ ≠ 2 ^ 53
      omega
    dsimp only
    rw [if_neg hne]
    dsimp only
    rw [if_neg (by omega)]
    exact ⟨_, _, rfl⟩

/-- what is not below `tooGreat` is carried over beyond the greatest exponent -/
theorem ofRatio_beyond (negative : Bool) {n d : Nat} (hd : 0 < d) (h : tooGreat * d ≤ n) :
    ofRatio negative n d = .infinity negative := by
  have hgreat : 0 < tooGreat := by decide +kernel
  have hpos : 0 < n := lt_of_lt_of_le (Nat.mul_pos hgreat hd) h
  have hbeyond := not_lt.mp (mt (ratio_below_iff hd).mp (not_lt.mpr h))
  obtain ⟨-, hupper, -⟩ := exponentFor_spec hpos hd
  have hexp : greatestExponent ≤ exponentFor n d := by
    have hunit := two_pow_pos greatestExponent
    have hpow : (2 : ℚ) ^ greatestExponent < 2 ^ (exponentFor n d + 1) := by
      rw [two_pow_succ]
      linarith
    have hlt := (zpow_lt_zpow_iff_right₀ (by norm_num : (1 : ℚ) < 2)).mp hpow
    omega
  -- at the greatest exponent itself the significand is carried over to the next one
  have hcarried : exponentFor n d = greatestExponent →
      roundDiv (inUnits n d (exponentFor n d)).1 (inUnits n d (exponentFor n d)).2
        = significandLimit := by
    intro heq
    rw [← heq, ← not_lt, ← mul_two_pow_neg, not_lt, ← inUnits_ratio] at hbeyond
    rw [← mul_two_pow_neg, ← inUnits_ratio] at hupper
    have hlimit : ((significandLimit : Nat) : ℚ) = 2 ^ 53 := by
      show ((2 ^ 53 : Nat) : ℚ) = _
      norm_num
    refine roundDiv_of_rat (inUnits_pos hd _) ?_ ?_ (.inl (by decide))
    · rw [hlimit]
      exact hbeyond
    · rw [hlimit]
      linarith
  rw [ofRatio_eq_of_units negative hpos]
  generalize roundDiv (inUnits n d (exponentFor n d)).1 (inUnits n d (exponentFor n d)).2 = m
    at hcarried ⊢
  dsimp only
  by_cases hm : m = significandLimit
  · rw [if_pos hm]
    dsimp only
    rw [if_pos (by omega)]
  · have hne := mt hcarried hm
    rw [if_neg hm]
    dsimp only
    rw [if_pos (by omega)]

end Binary64

theorem Value.quotient_finite {m n : Int} (hn : 0 < n)
    (h : m.natAbs < Binary64.tooGreat * n.natAbs) :
    ∃ negative k e, quotient m n = .ok (.finite negative k e) := by
  obtain ⟨k, e, hfinite⟩ := Binary64.ofRatio_below ((m < 0) != (n < 0)) (by omega) h
  refine ⟨(m < 0) != (n < 0), k, e, ?_⟩
  unfold quotient
  rw [if_neg (by omega), hfinite]

theorem Value.quotient_ok {m n : Int} (hn : 0 < n) (h : m.natAbs < Binary64.tooGreat * n.natAbs) :
    ∃ x, quotient m n = .ok x := by
  obtain ⟨negative, k, e, hfinite⟩ := quotient_finite hn h
  exact ⟨.finite negative k e, hfinite⟩

theorem Value.quotient_overflow {m n : Int} (hn : 0 < n)
    (h : Binary64.tooGreat * n.natAbs ≤ m.natAbs) : quotient m n = .error .overflow := by
  have hinfinite := Binary64.ofRatio_beyond ((m < 0) != (n < 0)) (by omega) h
  unfold quotient
  rw [if_neg (by omega), hinfinite]

end ListQuery
