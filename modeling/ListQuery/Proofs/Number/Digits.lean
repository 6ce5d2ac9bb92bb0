import Mathlib.Algebra.Group.Nat.Defs
import ListQuery.Number.Decimal

/-!
# Decimal digits

* `natOf_digits`                the digits of a natural stand for it;
* `natOf_append`                digits behind others;
* `natOf_dropWhile`             zeros in front say nothing;
* `digits_bounds`, `natOf_lt`   how many digits there are.
-/

namespace ListQuery

namespace Decimal

theorem natOf_digits (n : Nat) : natOf (digits n) = n := Nat.ofDigitChars_ten_toDigits

theorem natOf_append (xs ys : List Char) :
    natOf (xs ++ ys) = 10 ^ ys.length * natOf xs + natOf ys := by
  show Nat.ofDigitChars 10 (xs ++ ys) 0 = _
  rw [Nat.ofDigitChars_append, Nat.ofDigitChars_eq_ofDigitChars_zero]
  rfl

theorem natOf_zeros (k : Nat) : natOf (List.replicate k '0') = 0 := by
  show Nat.ofDigitChars 10 (List.replicate k '0') 0 = 0
  rw [Nat.ofDigitChars_replicate_zero, Nat.mul_zero]

theorem natOf_append_zeros (ds : List Char) (k : Nat) :
    natOf (ds ++ List.replicate k '0') = 10 ^ k * natOf ds := by
  rw [natOf_append, natOf_zeros, List.length_replicate, Nat.add_zero]

theorem natOf_cons (c : Char) (ds : List Char) :
    natOf (c :: ds) = 10 ^ ds.length * (c.toNat - '0'.toNat) + natOf ds := by
  have h := natOf_append [c] ds
  have hone : natOf [c] = c.toNat - '0'.toNat := by
    show 10 * 0 + _ = _
    omega
  rw [hone] at h
  exact h

theorem natOf_dropWhile (ds : List Char) : natOf (ds.dropWhile (· = '0')) = natOf ds := by
  induction ds with
  | nil => rfl
  | cons c ds ih =>
    by_cases hc : c = '0'
    · subst hc
      rw [List.dropWhile_cons_of_pos (by rfl), ih, natOf_cons]
      simp
    · rw [List.dropWhile_cons_of_neg (by simpa using hc)]

theorem digit_lt {c : Char} (h : c.isDigit = true) : c.toNat - '0'.toNat < 10 := by
  rw [Char.isDigit, Bool.and_eq_true, decide_eq_true_eq, decide_eq_true_eq] at h
  have hle : c.toNat ≤ 57 := h.2
  show c.toNat - 48 < 10
  omega

theorem natOf_lt {ds : List Char} (h : ∀ c ∈ ds, c.isDigit = true) : natOf ds < 10 ^ ds.length := by
  induction ds with
  | nil => exact Nat.one_pos
  | cons c ds ih =>
    have hc := digit_lt (h c List.mem_cons_self)
    have hds := ih fun d hd => h d (List.mem_cons_of_mem _ hd)
    rw [natOf_cons, List.length_cons, Nat.pow_succ]
    have hmul : 10 ^ ds.length * (c.toNat - '0'.toNat) ≤ 10 ^ ds.length * 9 :=
      Nat.mul_le_mul_left _ (by omega)
    omega

theorem le_natOf {c : Char} {ds : List Char} (hdigit : c.isDigit = true) (hc : c ≠ '0') :
    10 ^ ds.length ≤ natOf (c :: ds) := by
  have hpos : 1 ≤ c.toNat - '0'.toNat := by
    rw [Char.isDigit, Bool.and_eq_true, decide_eq_true_eq, decide_eq_true_eq] at hdigit
    have hle : 48 ≤ c.toNat := hdigit.1
    have hne : c.toNat ≠ 48 := fun h => hc (Char.toNat_inj.mp h)
    show 1 ≤ c.toNat - 48
    omega
  rw [natOf_cons]
  have hmul : 10 ^ ds.length * 1 ≤ 10 ^ ds.length * (c.toNat - '0'.toNat) :=
    Nat.mul_le_mul_left _ hpos
  omega

theorem digits_isDigit (n : Nat) : ∀ c ∈ digits n, c.isDigit = true :=
  fun _ hc => Nat.isDigit_of_mem_toDigits (by decide) (by decide) hc

theorem digits_head {n : Nat} (hn : 0 < n) : ∃ c ds, digits n = c :: ds ∧ c ≠ '0' := by
  induction n using Nat.strongRecOn with
  | ind n ih =>
    have hsplit : digits n = if n < 10 then [Nat.digitChar n]
        else digits (n / 10) ++ [Nat.digitChar (n % 10)] := Nat.toDigits_eq_if (by decide)
    by_cases hlt : n < 10
    · rw [if_pos hlt] at hsplit
      refine ⟨_, [], hsplit, ?_⟩
      intro hzero
      have hvalue := Nat.toNat_digitChar_sub_48_of_lt_ten hlt
      rw [hzero] at hvalue
      have : n = 0 := hvalue.symm
      omega
    · rw [if_neg hlt] at hsplit
      obtain ⟨c, ds, hds, hc⟩ := ih (n / 10) (by omega) (by omega)
      rw [hds] at hsplit
      exact ⟨c, _, hsplit, hc⟩

theorem digits_bounds {n : Nat} (hn : 0 < n) :
    10 ^ ((digits n).length - 1) ≤ n ∧ n < 10 ^ (digits n).length := by
  obtain ⟨c, ds, hds, hc⟩ := digits_head hn
  have hdigit := digits_isDigit n
  constructor
  · have h := @le_natOf c ds (hdigit c (by rw [hds]; exact List.mem_cons_self)) hc
    rw [← hds, natOf_digits] at h
    rw [hds]
    exact h
  · have h := natOf_lt hdigit
    rw [natOf_digits] at h
    exact h

end Decimal

end ListQuery
