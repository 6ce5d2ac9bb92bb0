import ListQuery.Proofs.Number.Shortest

/-!
# Reading decimals

A decimal that rounds to a double is read as that double, however it is spelled.

* `Decimal.ofDigits_eq`     digits with a place;
* `Decimal.ofDigits_zero`   zeros.
-/

namespace ListQuery

namespace Decimal

open Binary64

theorem significant {ds : List Char} (hdigits : ∀ c ∈ ds, c.isDigit = true) (hpos : 0 < natOf ds) :
    (ds.dropWhile (· = '0')) ≠ [] ∧
      10 ^ ((ds.dropWhile (· = '0')).length - 1) ≤ natOf ds ∧
      natOf ds < 10 ^ (ds.dropWhile (· = '0')).length := by
  have hvalue := natOf_dropWhile ds
  have hsuffix : ∀ c ∈ ds.dropWhile (· = '0'), c.isDigit = true := fun c hc =>
    hdigits c (List.dropWhile_subset _ hc)
  have hhead := List.head?_dropWhile_not (· = '0') ds
  generalize ds.dropWhile (· = '0') = rest at hvalue hsuffix hhead
  cases rest with
  | nil =>
    have hzero : natOf [] = 0 := rfl
    omega
  | cons c rest =>
    have hc : c ≠ '0' := by simpa using hhead
    refine ⟨List.cons_ne_nil _ _, ?_, ?_⟩
    · have h := @le_natOf c rest (hsuffix c List.mem_cons_self) hc
      rw [hvalue] at h
      exact h
    · have h := natOf_lt hsuffix
      rw [hvalue] at h
      exact h

theorem ofDigits_zero (negative : Bool) {whole fraction : List Char} (exponent : Int)
    (h : (whole ++ fraction).dropWhile (· = '0') = []) :
    ofDigits negative whole fraction exponent = .finite negative 0 leastExponent := by
  unfold ofDigits
  dsimp only
  rw [h]
  rfl

theorem ofDigits_eq (negative : Bool) {whole fraction : List Char} {exponent : Int} {m : Nat} {e : Int}
    (hdigits : ∀ c ∈ whole ++ fraction, c.isDigit = true) (hm : 0 < m) (hproper : Proper m e)
    (h : Rounds (natOf (whole ++ fraction) * 10 ^ (exponent - fraction.length)) m e) :
    ofDigits negative whole fraction exponent = .finite negative m e := by
  have hleast := h.pos hm
  generalize hg : exponent - (fraction.length : Int) = g at h hleast
  have hten := ten_pow_pos g
  have hpos : 0 < natOf (whole ++ fraction) := by
    rw [Nat.pos_iff_ne_zero]
    intro hzero
    rw [hzero, Nat.cast_zero, zero_mul] at hleast
    have := two_pow_pos e
    linarith
  obtain ⟨hne, hlow, hhigh⟩ := significant hdigits hpos
  have hvalue := natOf_dropWhile (whole ++ fraction)
  unfold ofDigits
  dsimp only
  rw [hg, hvalue]
  generalize (whole ++ fraction).dropWhile (· = '0') = ds at hne hlow hhigh
  generalize natOf (whole ++ fraction) = n at h hleast hpos hlow hhigh
  have hlen : 0 < ds.length := List.length_pos_iff.mpr hne
  have hlowq : (10 : ℚ) ^ ((ds.length : Int) - 1 + g) ≤ n * 10 ^ g := by
    have hcast : (10 : ℚ) ^ ((ds.length : Int) - 1) ≤ n := by
      have hint : (ds.length : Int) - 1 = ((ds.length - 1 : Nat) : Int) := by omega
      rw [hint, zpow_natCast]
      exact_mod_cast hlow
    rw [zpow_add₀ (by norm_num)]
    exact mul_le_mul_of_nonneg_right hcast hten.le
  have hhighq : (n : ℚ) * 10 ^ g < 10 ^ ((ds.length : Int) + g) := by
    have hcast : (n : ℚ) < 10 ^ (ds.length : Int) := by
      rw [zpow_natCast]
      exact_mod_cast hhigh
    rw [zpow_add₀ (by norm_num)]
    exact mul_lt_mul_of_pos_right hcast hten
  -- the double is neither as small nor as large as what is cut off
  have hnotSmall : ¬ (ds.length : Int) + g < -329 := by
    intro hsmall
    have hcut : (10 : ℚ) ^ ((ds.length : Int) + g) ≤ 10 ^ (-330 : Int) :=
      zpow_le_zpow_right₀ (by norm_num) (by omega)
    have hunit : (2 : ℚ) ^ leastExponent ≤ 2 ^ e := zpow_le_zpow_right₀ (by norm_num) hproper.least
    have hgap : (10 : ℚ) ^ (-330 : Int) < 1 / 2 * 2 ^ leastExponent := by
      have hpowers : 2 * 2 ^ 1074 < 10 ^ 330 := by decide +kernel
      show (10 : ℚ) ^ (-330 : Int) < 1 / 2 * 2 ^ (-1074 : Int)
      rw [zpow_neg, zpow_neg, one_div, ← mul_inv, inv_lt_inv₀ (by positivity) (by positivity)]
      exact_mod_cast hpowers
    linarith
  have hnotLarge : ¬ 309 < (ds.length : Int) + g := by
    intro hlarge
    have hcut : (10 : ℚ) ^ (309 : Int) ≤ 10 ^ ((ds.length : Int) - 1 + g) :=
      zpow_le_zpow_right₀ (by norm_num) (by omega)
    have hunit : (2 : ℚ) ^ e ≤ 2 ^ greatestExponent :=
      zpow_le_zpow_right₀ (by norm_num) hproper.greatest
    have hgap : (2 : ℚ) ^ 53 * 2 ^ greatestExponent < 10 ^ (309 : Int) := by
      have hpowers : 2 ^ 53 * 2 ^ 971 < 10 ^ 309 := by decide +kernel
      show (2 : ℚ) ^ 53 * 2 ^ (971 : Int) < 10 ^ (309 : Int)
      exact_mod_cast hpowers
    have hmq : (m : ℚ) + 1 / 2 ≤ 2 ^ 53 := by
      have hcast : ((m + 1 : Nat) : ℚ) ≤ ((2 ^ 53 : Nat) : ℚ) := Nat.cast_le.mpr hproper.significand
      push_cast at hcast
      linarith
    have hpow := two_pow_pos e
    have hmul : ((m : ℚ) + 1 / 2) * 2 ^ e ≤ 2 ^ 53 * 2 ^ greatestExponent :=
      mul_le_mul hmq hunit hpow.le (by norm_num)
    have hbelow := h.below
    linarith
  have hempty : ds.isEmpty = false := by
    cases ds with
    | nil => exact absurd rfl hne
    | cons => rfl
  rw [hempty, Bool.false_or, decide_eq_false hnotSmall, if_neg (by decide), if_neg hnotLarge]
  refine ofRatio_eq negative (Nat.mul_pos hpos (Nat.pow_pos (by decide))) (Nat.pow_pos (by decide))
    hproper ?_
  have hratio := ratio_pow 10 n 1 (-g)
  rw [neg_neg, one_mul, Nat.cast_one, div_one] at hratio
  rw [hratio]
  exact h

end Decimal

end ListQuery
