import Mathlib.Algebra.Order.Floor.Ring
import Mathlib.Data.Rat.Floor
import ListQuery.Proofs.Number.Ceiling

/-!
# The nearest double

The double that a ratio of naturals is rounded to is nearest to it: on the way to any other double
it lies on this side of the middle.  In the middle itself the even significand is taken.

* `Binary64.Nearest`                a double that no other is nearer than;
* `Binary64.succ_le`, `le_pred`     how far the doubles around a double are at least;
* `Binary64.Rounds.nearest`         what rounds to a double is nearest to it;
* `Binary64.ofRatio_nearest`        the double of a ratio is nearest to it;
* `Binary64.ceil?_value`            the integer that a double is rounded up to;
* `Binary64.ofRatio_quotient`       the double of a quotient up to `2^53`, and that integer.
-/

namespace ListQuery

namespace Binary64

/-- Of the doubles from zero on none is nearer to the rational than `m · 2^e`.  Where another one is
as near, `m` is even. -/
structure Nearest (x : ℚ) (m : Nat) (e : Int) : Prop where
  proper : Proper m e
  nearest : ∀ n f, Proper n f → |x - m * 2 ^ e| ≤ |x - n * 2 ^ f|
  even : ∀ n f, Proper n f → |x - n * 2 ^ f| = |x - m * 2 ^ e| →
    (n : ℚ) * 2 ^ f = m * 2 ^ e ∨ m % 2 = 0

/-! ## doubles around a double -/

section
variable {x : ℚ} {m n : Nat} {e f : Int}

theorem inUnits_of_le (h : e ≤ f) (n : Nat) :
    (n : ℚ) * 2 ^ f = ((n * 2 ^ (f - e).toNat : Nat) : ℚ) * 2 ^ e := by
  have hpow : (2 : ℚ) ^ f = 2 ^ (f - e).toNat * 2 ^ e := by
    rw [← zpow_natCast, ← zpow_add₀ (by norm_num)]
    congr 1
    omega
  rw [hpow]
  push_cast
  ring

theorem below_of_exponent_lt (hn : Proper n f) (h : f < e) :
    (n : ℚ) * 2 ^ f ≤ (2 ^ 52 - 1 / 2) * 2 ^ e := by
  have hn53 : (n : ℚ) ≤ 2 ^ 53 - 1 := by
    have hcast : ((n + 1 : Nat) : ℚ) ≤ ((2 ^ 53 : Nat) : ℚ) := Nat.cast_le.mpr hn.significand
    push_cast at hcast
    linarith
  have hpow : (2 : ℚ) ^ (f + 1) ≤ 2 ^ e := zpow_le_zpow_right₀ (by norm_num) (by omega)
  calc (n : ℚ) * 2 ^ f ≤ (2 ^ 53 - 1) * 2 ^ f := mul_le_mul_of_nonneg_right hn53 (two_pow_pos f).le
    _ = (2 ^ 52 - 1 / 2) * 2 ^ (f + 1) := by rw [two_pow_succ]; ring
    _ ≤ (2 ^ 52 - 1 / 2) * 2 ^ e := mul_le_mul_of_nonneg_left hpow (by norm_num)

theorem succ_le (hm : Proper m e) (hn : Proper n f) (h : (m : ℚ) * 2 ^ e < n * 2 ^ f) :
    ((m : ℚ) + 1) * 2 ^ e ≤ n * 2 ^ f := by
  rcases Int.lt_or_le f e with hlt | hle
  · -- the significand at the greater exponent is not a short one
    have hnormal : ((2 ^ 52 : Nat) : ℚ) ≤ m :=
      Nat.cast_le.mpr (hm.normal (lt_of_le_of_lt hn.least hlt))
    push_cast at hnormal
    have hbelow := below_of_exponent_lt hn hlt
    have hreach : (2 : ℚ) ^ 52 * 2 ^ e ≤ m * 2 ^ e :=
      mul_le_mul_of_nonneg_right hnormal (two_pow_pos e).le
    have hunit := two_pow_pos e
    linarith
  · rw [inUnits_of_le hle] at h ⊢
    have hlt : m < n * 2 ^ (f - e).toNat := Nat.cast_lt.mp (lt_of_mul_lt_mul_right h (two_pow_pos e).le)
    refine mul_le_mul_of_nonneg_right ?_ (two_pow_pos e).le
    exact_mod_cast hlt

/-- a smaller double is a unit smaller, or half a unit below the least significand of its length -/
theorem le_pred (hm : Proper m e) (hn : Proper n f) (h : (n : ℚ) * 2 ^ f < m * 2 ^ e) :
    (n : ℚ) * 2 ^ f ≤ (m - if m = 2 ^ 52 ∧ leastExponent < e then 1 / 2 else 1) * 2 ^ e := by
  rcases Int.lt_or_le f e with hlt | hle
  · have hleast : leastExponent < e := lt_of_le_of_lt hn.least hlt
    refine (below_of_exponent_lt hn hlt).trans (mul_le_mul_of_nonneg_right ?_ (two_pow_pos e).le)
    by_cases hm52 : m = 2 ^ 52
    · rw [if_pos ⟨hm52, hleast⟩, hm52]
      push_cast
      rfl
    · have hmore : ((2 ^ 52 + 1 : Nat) : ℚ) ≤ m := by
        have hnormal := hm.normal hleast
        exact Nat.cast_le.mpr (by omega)
      push_cast at hmore
      rw [if_neg fun h => hm52 h.1]
      linarith
  · rw [inUnits_of_le hle] at h ⊢
    have hlt : n * 2 ^ (f - e).toNat < m := Nat.cast_lt.mp (lt_of_mul_lt_mul_right h (two_pow_pos e).le)
    have hsucc : ((n * 2 ^ (f - e).toNat + 1 : Nat) : ℚ) ≤ m := Nat.cast_le.mpr hlt
    refine mul_le_mul_of_nonneg_right ?_ (two_pow_pos e).le
    rw [Nat.cast_succ] at hsucc
    split <;> linarith

/-! ## the middle between two doubles -/

theorem Rounds.middle_below (h : Rounds x m e) (hm : Proper m e) (hn : Proper n f)
    (hlt : (n : ℚ) * 2 ^ f < m * 2 ^ e) :
    (n : ℚ) * 2 ^ f + m * 2 ^ e ≤ 2 * x ∧ (m % 2 ≠ 0 → (n : ℚ) * 2 ^ f + m * 2 ^ e < 2 * x) := by
  have hpred := le_pred hm hn hlt
  refine ⟨?_, fun hodd => ?_⟩
  · have habove := h.above
    split at hpred
    · rename_i hshort
      rw [if_pos hshort] at habove
      linarith
    · rename_i hlong
      rw [if_neg hlong] at habove
      linarith
  · have hlong : ¬ (m = 2 ^ 52 ∧ leastExponent < e) := by
      rintro ⟨rfl, -⟩
      exact hodd (by decide)
    rw [if_neg hlong] at hpred
    have hstrict := (h.tie.resolve_left hodd).1
    linarith

theorem Rounds.middle_above (h : Rounds x m e) (hm : Proper m e) (hn : Proper n f)
    (hlt : (m : ℚ) * 2 ^ e < n * 2 ^ f) :
    2 * x ≤ (m : ℚ) * 2 ^ e + n * 2 ^ f ∧ (m % 2 ≠ 0 → 2 * x < (m : ℚ) * 2 ^ e + n * 2 ^ f) := by
  have hsucc := succ_le hm hn hlt
  refine ⟨?_, fun hodd => ?_⟩
  · have hbelow := h.below
    linarith
  · have hstrict := (h.tie.resolve_left hodd).2
    linarith

/-- what rounds to a double is nearest to it -/
theorem Rounds.nearest (h : Rounds x m e) (hm : Proper m e) : Nearest x m e := by
  refine ⟨hm, fun n f hn => ?_, fun n f hn hsame => ?_⟩
  · rcases lt_trichotomy ((n : ℚ) * 2 ^ f) (m * 2 ^ e) with hlt | heq | hgt
    · have hmiddle := (h.middle_below hm hn hlt).1
      exact (abs_le.mpr ⟨by linarith, by linarith⟩ : |x - m * 2 ^ e| ≤ x - n * 2 ^ f).trans
        (le_abs_self _)
    · rw [heq]
    · have hmiddle := (h.middle_above hm hn hgt).1
      exact (abs_le.mpr ⟨by linarith, by linarith⟩ : |x - m * 2 ^ e| ≤ -(x - n * 2 ^ f)).trans
        (neg_le_abs _)
  · by_contra hother
    rw [not_or] at hother
    obtain ⟨hne, hodd⟩ := hother
    rcases lt_or_gt_of_ne hne with hlt | hgt
    · have hmiddle := (h.middle_below hm hn hlt).2 hodd
      have hnearer : |x - m * 2 ^ e| < x - n * 2 ^ f := abs_lt.mpr ⟨by linarith, by linarith⟩
      exact absurd hsame (hnearer.trans_le (le_abs_self _)).ne'
    · have hmiddle := (h.middle_above hm hn hgt).2 hodd
      have hnearer : |x - m * 2 ^ e| < -(x - n * 2 ^ f) := abs_lt.mpr ⟨by linarith, by linarith⟩
      exact absurd hsame (hnearer.trans_le (neg_le_abs _)).ne'

end

/-! ## the double of a ratio -/

/-- the nearest natural is at most half away, and in the middle it is even -/
theorem roundDiv_near (n : Nat) {d : Nat} (hd : 0 < d) :
    2 * (roundDiv n d * d) ≤ 2 * n + d ∧ 2 * n ≤ 2 * (roundDiv n d * d) + d ∧
      (roundDiv n d % 2 = 0 ∨
        2 * (roundDiv n d * d) < 2 * n + d ∧ 2 * n < 2 * (roundDiv n d * d) + d) := by
  have hsplit : n / d * d + n % d = n := Nat.div_add_mod' n d
  have hrest : n % d < d := Nat.mod_lt n hd
  have hnext : (n / d + 1) * d = n / d * d + d := Nat.succ_mul _ _
  unfold roundDiv
  dsimp only
  split
  · omega
  split
  · omega
  · rcases Nat.mod_two_eq_zero_or_one (n / d) with heven | hodd
    · rw [heven, Nat.add_zero]
      omega
    · rw [hodd]
      omega

theorem roundDiv_near_rat (n : Nat) {d : Nat} (hd : 0 < d) :
    (roundDiv n d : ℚ) - 1 / 2 ≤ n / d ∧ (n : ℚ) / d ≤ roundDiv n d + 1 / 2 ∧
      (roundDiv n d % 2 = 0 ∨
        (roundDiv n d : ℚ) - 1 / 2 < n / d ∧ (n : ℚ) / d < roundDiv n d + 1 / 2) := by
  have hpos : (0 : ℚ) < d := Nat.cast_pos.mpr hd
  obtain ⟨habove, hbelow, htie⟩ := roundDiv_near n hd
  rw [← @Nat.cast_le ℚ] at habove hbelow
  rw [← @Nat.cast_lt ℚ, ← @Nat.cast_lt ℚ] at htie
  push_cast at habove hbelow htie
  rw [le_div_iff₀ hpos, div_le_iff₀ hpos, lt_div_iff₀ hpos, div_lt_iff₀ hpos]
  refine ⟨by linarith, by linarith, htie.imp id fun h => ⟨by linarith, by linarith⟩⟩

theorem ofRatio_rounds (negative : Bool) {n d : Nat} (hn : 0 < n) (hd : 0 < d)
    (hexp : exponentFor n d < greatestExponent) :
    ∃ m e, ofRatio negative n d = .finite negative m e ∧ Proper m e ∧ Rounds ((n : ℚ) / d) m e := by
  obtain ⟨hleast, hupper, hnormal⟩ := exponentFor_spec hn hd
  have hunits := inUnits_ratio n d (exponentFor n d)
  obtain ⟨habove, hbelow, htie⟩ := roundDiv_near_rat (inUnits n d (exponentFor n d)).1
    (inUnits_pos (n := n) hd (exponentFor n d))
  rw [ofRatio_eq_of_units negative hn]
  rw [hunits] at habove hbelow htie
  generalize roundDiv (inUnits n d (exponentFor n d)).1 (inUnits n d (exponentFor n d)).2 = k at *
  generalize exponentFor n d = E at *
  -- the ratio in units of the exponent, where the significand is next to it
  have hpow := two_pow_pos E
  have hratio : (n : ℚ) / d = (n : ℚ) / d * 2 ^ (-E) * 2 ^ E := by
    rw [mul_assoc, ← zpow_add₀ (by norm_num), neg_add_cancel, zpow_zero, mul_one]
  generalize (n : ℚ) / d * 2 ^ (-E) = y at *
  rw [hratio] at hupper hnormal ⊢
  have hupper' : y < 2 ^ 53 := lt_of_mul_lt_mul_right hupper hpow.le
  have hk53 : k ≤ 2 ^ 53 := by
    have hlt : (k : ℚ) < ((2 ^ 53 + 1 : Nat) : ℚ) := by
      push_cast
      linarith
    exact Nat.le_of_lt_succ (Nat.cast_lt.mp hlt)
  have hreach : leastExponent < E → (2 : ℚ) ^ 52 ≤ y := fun hlt =>
    le_of_mul_le_mul_right (hnormal.resolve_left hlt.ne') hpow
  dsimp only
  by_cases hcarry : k = significandLimit
  · -- half a unit below `2^53` is a quarter of a unit below `2^52` at the next exponent
    have hk : (k : ℚ) = 2 ^ 53 := by
      rw [hcarry]
      show ((2 ^ 53 : Nat) : ℚ) = _
      norm_num
    have hhalf : significandLimit / 2 = 2 ^ 52 := by decide
    rw [hk] at habove
    rw [if_pos hcarry]
    dsimp only
    rw [if_neg (by omega), hhalf]
    refine ⟨2 ^ 52, E + 1, rfl, ⟨by decide, by omega, by omega, fun _ => le_rfl⟩, ?_⟩
    refine ⟨?_, ?_, .inl (by decide)⟩
    · rw [if_pos ⟨rfl, by omega⟩, two_pow_succ]
      push_cast
      nlinarith
    · rw [two_pow_succ]
      push_cast
      nlinarith
  · rw [if_neg hcarry]
    dsimp only
    rw [if_neg (by omega)]
    have hk : k < 2 ^ 53 := lt_of_le_of_ne hk53 hcarry
    have hnormal52 : leastExponent < E → 2 ^ 52 ≤ k := by
      intro hlt
      have hy := hreach hlt
      have hgt : ((2 ^ 52 : Nat) : ℚ) < ((k + 1 : Nat) : ℚ) := by
        push_cast
        linarith
      exact Nat.le_of_lt_succ (Nat.cast_lt.mp hgt)
    refine ⟨k, E, rfl, ⟨hk, hleast, by omega, hnormal52⟩, ?_⟩
    refine ⟨mul_le_mul_of_nonneg_right ?_ hpow.le, mul_le_mul_of_nonneg_right hbelow hpow.le, ?_⟩
    · split
      · rename_i hshort
        have hy := hreach hshort.2
        rw [hshort.1]
        push_cast
        linarith
      · exact habove
    · exact htie.imp id fun h =>
        ⟨mul_lt_mul_of_pos_right h.1 hpow, mul_lt_mul_of_pos_right h.2 hpow⟩

/-- the double of a ratio that is not too large is nearest to it -/
theorem ofRatio_nearest (negative : Bool) {n d : Nat} (hd : 0 < d)
    (hexp : 0 < n → exponentFor n d < greatestExponent) :
    ∃ m e, ofRatio negative n d = .finite negative m e ∧ Nearest ((n : ℚ) / d) m e := by
  rcases Nat.eq_zero_or_pos n with hzero | hn
  · refine ⟨0, leastExponent, by rw [ofRatio, if_pos hzero], ?_⟩
    have hproper : Proper 0 leastExponent :=
      ⟨by decide, le_rfl, by decide, fun h => absurd h (lt_irrefl _)⟩
    have hrounds : Rounds ((n : ℚ) / d) 0 leastExponent := by
      have hunit := two_pow_pos leastExponent
      rw [hzero, Nat.cast_zero, zero_div]
      refine ⟨?_, by rw [Nat.cast_zero]; linarith, .inl rfl⟩
      rw [if_neg fun h => absurd h.1 (by decide), Nat.cast_zero]
      linarith
    exact hrounds.nearest hproper
  · obtain ⟨m, e, hround, hproper, hrounds⟩ := ofRatio_rounds negative hn hd (hexp hn)
    exact ⟨m, e, hround, hrounds.nearest hproper⟩

/-! ## rounding up -/

/-- a double from zero on is rounded up to the least integer that is not below it -/
theorem ceil?_value (m : Nat) (e : Int) : ceil? (.finite false m e) = .ok ⌈(m : ℚ) * 2 ^ e⌉ := by
  have hnonneg : (0 : ℚ) ≤ m * 2 ^ e := mul_nonneg m.cast_nonneg (two_pow_pos e).le
  have hlt := Nat.ceil_lt_add_one hnonneg
  rw [ceil?_eq (k := ⌈(m : ℚ) * 2 ^ e⌉₊) (by linarith) (Nat.le_ceil _),
    Int.natCast_ceil_eq_ceil hnonneg]

/-- the double of a quotient up to `2^53` is nearest to it, and rounded up it is the quotient rounded
up -/
theorem ofRatio_quotient {n d : Nat} (hn53 : n ≤ 2 ^ 53) (hd : 0 < d) (hd53 : d ≤ 2 ^ 53) :
    ∃ m e, ofRatio false n d = .finite false m e ∧ Nearest ((n : ℚ) / d) m e ∧
      ⌈(m : ℚ) * 2 ^ e⌉ = (n ⌈/⌉ d : Nat) := by
  have hexp (hn : 0 < n) : exponentFor n d < greatestExponent := by
    have hone := (exponentFor_quotient hn hn53 hd hd53).1
    unfold greatestExponent
    omega
  obtain ⟨m, e, hround, hnearest⟩ := ofRatio_nearest false hd hexp
  refine ⟨m, e, hround, hnearest, ?_⟩
  rcases Nat.eq_zero_or_pos n with hzero | hn
  · subst hzero
    rw [ofRatio, if_pos rfl] at hround
    cases hround
    rw [zero_ceilDiv, Nat.cast_zero, zero_mul, Int.ceil_zero]
    rfl
  · have hceil := ceil?_ofRatio hn hn53 hd hd53
    rw [hround, ceil?_value] at hceil
    exact Except.ok.inj hceil

end Binary64

end ListQuery
