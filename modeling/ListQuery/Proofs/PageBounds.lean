import Mathlib.Algebra.Order.Floor.Semifield
import Mathlib.Order.Bounds.Basic
import ListQuery.Proofs.Pages

/-!
# How many pages there are, and where they lie

The number of pages is found by way of a double.  Up to `2^53` rows it is none the less the least
number of pages that hold them all.

A page and a limit may be given as anything.  What stands for no integer counts as not given, and
every window that comes of the rest lies within bounds.  The two infinities alone stand for no
integer and do not count as not given: they are a fault.

* `totalPages_least`         how many pages hold so many rows;
* `Value.StandsFor`          the integer that a value stands for;
* `wholeNumber?_eq_some`     that integer is found;
* `wholeNumber?_ok`          only the infinities are a fault;
* `Window.offset_whole`      the window of a page, by integers;
* `Window.offset_infinite`   the infinities have none;
* `Window.offset_bounded`    every window lies within bounds.
-/

namespace ListQuery

/-! ## counts -/

theorem isLeast_ceilDiv (total : Nat) {limit : Nat} (hpos : 0 < limit) :
    IsLeast {pages : Int | (total : Int) ≤ pages * limit} (total ⌈/⌉ limit : Nat) := by
  have hle (pages : Nat) : total ⌈/⌉ limit ≤ pages ↔ total ≤ limit * pages :=
    ceilDiv_le_iff_le_mul hpos
  constructor
  · have henough := (hle _).mp le_rfl
    rw [Nat.mul_comm] at henough
    show (total : Int) ≤ (total ⌈/⌉ limit : Nat) * limit
    exact_mod_cast henough
  · intro pages hpages
    replace hpages : (total : Int) ≤ pages * limit := hpages
    have hnonneg : 0 ≤ pages := by
      by_contra hneg
      have hproduct : pages * limit < 0 := Int.mul_neg_of_neg_of_pos (by omega) (by omega)
      omega
    lift pages to Nat using hnonneg
    rw [Int.mul_comm] at hpages
    exact_mod_cast (hle pages).mpr (by exact_mod_cast hpages)

/-- The number of pages is the quotient of the rows by the limit, rounded to the nearest double and
then rounded up.  Up to `2^53` the first rounding neither loses a page nor adds one: so many pages are
the least that hold all rows. -/
theorem totalPages_least {total limit : Int} (hnonneg : 0 ≤ total) (htotal : total ≤ 2 ^ 53)
    (hpos : 1 ≤ limit) (hlimit : limit ≤ 2 ^ 53) :
    ∃ m e, (Value.int total).div (.int limit) = .ok (.finite false m e) ∧
      Binary64.Nearest ((total : ℚ) / limit) m e ∧
      totalPages (.int total) (.int limit) = .ok (.int ⌈(m : ℚ) * 2 ^ e⌉) ∧
      IsLeast {pages : Int | total ≤ pages * limit} ⌈(m : ℚ) * 2 ^ e⌉ := by
  lift total to Nat using hnonneg
  lift limit to Nat using by omega
  have htotal' : total ≤ 2 ^ 53 := by omega
  have hlimit' : limit ≤ 2 ^ 53 := by omega
  obtain ⟨m, e, hround, hnearest, hceil⟩ :=
    Binary64.ofRatio_quotient htotal' (by omega : 0 < limit) hlimit'
  refine ⟨m, e, Value.div_nat (by omega) hround, hnearest, ?_, ?_⟩
  · rw [hceil]
    exact totalPages_nat htotal' (by omega) hlimit'
  · rw [hceil]
    exact isLeast_ceilDiv total (by omega)

/-- one row more than fit on a page: the quotient is less than a unit of the doubles above one -/
theorem totalPages_hairsbreadth :
    let total : Int := 2 ^ 53
    let limit : Int := 2 ^ 53 - 1
    0 ≤ total ∧ total ≤ 2 ^ 53 ∧ 1 ≤ limit ∧ limit ≤ 2 ^ 53 ∧
      totalPages (.int total) (.int limit) = .ok (.int 2) ∧
      IsLeast {pages : Int | total ≤ pages * limit} 2 := by
  intro total limit
  have hnonneg : 0 ≤ total := by decide
  have htotal : total ≤ 2 ^ 53 := by decide
  have hpos : 1 ≤ limit := by decide
  have hlimit : limit ≤ 2 ^ 53 := by decide
  obtain ⟨m, e, -, -, hpages, hleast⟩ := totalPages_least hnonneg htotal hpos hlimit
  have htwo : IsLeast {pages : Int | total ≤ pages * limit} 2 := by
    refine ⟨by decide, fun pages hpages => ?_⟩
    have hpages' : (2 ^ 53 : Int) ≤ pages * (2 ^ 53 - 1) := hpages
    omega
  rw [hleast.unique htwo] at hpages
  exact ⟨hnonneg, htotal, hpos, hlimit, hpages, htwo⟩

/-- beyond `2^53` rows a page can be lost -/
example : totalPages (.int (2 ^ 53 + 1)) (.int 1) = .ok (.int (2 ^ 53)) := rfl

/-! ## integers that values stand for -/

/-- The integer that a value stands for: a double for its integral part, on the side of zero; a text
for the numeral that it is. -/
inductive Value.StandsFor : Value → Int → Prop where
  | int (n : Int) : StandsFor (.int n) n
  | bool (b : Bool) : StandsFor (.bool b) b.toNat
  | float (negative : Bool) (m : Nat) (e : Int) :
      StandsFor (.float (.finite negative m e)) (Binary64.signed negative ⌊(m : ℚ) * 2 ^ e⌋₊)
  | text {s : String} {n : Int} (h : Numeral.lenient? s = some n) : StandsFor (.str s) n

def Value.isInfinite : Value → Bool
  | .float (.infinity _) => true
  | _ => false

theorem Binary64.truncate?_finite (negative : Bool) (m : Nat) (e : Int) :
    truncate? (.finite negative m e) = .ok (signed negative ⌊(m : ℚ) * 2 ^ e⌋₊) := by
  have hratio := ratio_pow 2 m 1 (-e)
  rw [Int.neg_neg, Nat.one_mul, Nat.cast_one, div_one, Nat.cast_two] at hratio
  rw [← hratio, Nat.floor_div_eq_div]
  rfl

/-- the integer that is found is the one that the value stands for -/
theorem wholeNumber?_eq_some {v : Value} {n : Int} :
    wholeNumber? v = .ok (some n) ↔ v.StandsFor n := by
  constructor
  · intro h
    cases v with
    | int k => cases h; exact .int n
    | bool b => cases h; exact .bool b
    | str s => exact .text (Except.ok.inj h)
    | float x =>
      cases x with
      | finite negative m e =>
        rw [wholeNumber?, Binary64.truncate?_finite] at h
        cases h
        exact .float negative m e
      | nan | infinity => cases h
    | _ => cases h
  · intro h
    cases h with
    | int | bool => rfl
    | float negative m e => rw [wholeNumber?, Binary64.truncate?_finite]
    | text h => exact congrArg Except.ok h

theorem Value.standsFor_iff {v : Value} {found : Option Int} (h : wholeNumber? v = .ok found)
    (n : Int) : v.StandsFor n ↔ found = some n := by
  rw [← wholeNumber?_eq_some, h, Except.ok.injEq]

theorem wholeNumber?_infinite {v : Value} (h : v.isInfinite = true) :
    wholeNumber? v = .error .overflow := by
  cases v with
  | float x =>
    cases x with
    | infinity => rfl
    | nan | finite => cases h
  | _ => cases h

/-- what is no infinity stands for an integer or counts as not given -/
theorem wholeNumber?_ok {v : Value} (h : v.isInfinite = false) : ∃ n, wholeNumber? v = .ok n := by
  cases v with
  | float x =>
    cases x with
    | infinity => cases h
    | nan | finite => exact ⟨_, rfl⟩
  | _ => exact ⟨_, rfl⟩

/-! ## windows -/

section
variable {page limit default most : Value} {number size : Option Int} {d m : Int}

theorem wholeOr_integer (hlimit : wholeNumber? limit = .ok size)
    (hdefault : default.integer? = some d) :
    ∃ v, wholeOr limit default = .ok v ∧ v.integer? = some (size.getD d) := by
  unfold wholeOr
  rw [hlimit, Outcome.ok_bind]
  cases size with
  | none => exact ⟨default, rfl, hdefault⟩
  | some n => exact ⟨.int n, rfl, rfl⟩

theorem normalizePage_integer (hpage : wholeNumber? page = .ok number)
    (hdefault : default.integer? = some d) :
    ∃ v, normalizePage page default = .ok v ∧ v.integer? = some (pageNumber number d) := by
  obtain ⟨v, hv, hinteger⟩ := wholeOr_integer hpage hdefault
  unfold normalizePage
  rw [hv, Outcome.ok_bind]
  exact Value.atLeast_integer rfl hinteger

theorem normalizeLimit_integer (hlimit : wholeNumber? limit = .ok size)
    (hdefault : default.integer? = some d) (hmost : most.integer? = some m) :
    ∃ v, normalizeLimit limit default most = .ok v ∧ v.integer? = some (pageSize size d m) := by
  obtain ⟨v, hv, hinteger⟩ := wholeOr_integer hlimit hdefault
  obtain ⟨w, hw, hpositive⟩ := Value.atLeast_integer (rfl : (Value.int 1).integer? = some 1) hinteger
  unfold normalizeLimit
  rw [hv, Outcome.ok_bind, hw, Outcome.ok_bind]
  exact Value.atMost_integer hmost hpositive

/-- the window of a page is that of the integers that are given, or of the defaults -/
theorem Window.offset_whole (hpage : wholeNumber? page = .ok number)
    (hlimit : wholeNumber? limit = .ok size) (hdefault : default.integer? = some d)
    (hmost : most.integer? = some m) :
    ∃ take, take.integer? = some (pageSize size d m) ∧ offset page limit default most = .ok
      { take, skip := .int ((pageNumber number 1 - 1) * pageSize size d m) } := by
  obtain ⟨first, hfirst, hnumber⟩ :=
    normalizePage_integer hpage (rfl : defaultPage.integer? = some 1)
  obtain ⟨take, htake, hsize⟩ := normalizeLimit_integer hlimit hdefault hmost
  have hbefore : first.sub (.int 1) = .ok (.int (pageNumber number 1 - 1)) :=
    Value.arithmetic_integer _ _ hnumber rfl
  have hskip : (Value.int (pageNumber number 1 - 1)).mul take
      = .ok (.int ((pageNumber number 1 - 1) * pageSize size d m)) :=
    Value.arithmetic_integer _ _ rfl hsize
  refine ⟨take, hsize, ?_⟩
  unfold offset
  rw [hfirst, Outcome.ok_bind, htake, Outcome.ok_bind, hbefore, Outcome.ok_bind, hskip]
  rfl

theorem wholeOr_infinite {v : Value} (h : v.isInfinite = true) (default : Value) :
    wholeOr v default = .error .overflow := by
  unfold wholeOr
  rw [wholeNumber?_infinite h]
  rfl

theorem Window.offset_infinite (h : (page.isInfinite || limit.isInfinite) = true) :
    offset page limit default most = .error .overflow := by
  unfold offset
  cases hpage : page.isInfinite with
  | true =>
    unfold normalizePage
    rw [wholeOr_infinite hpage]
    rfl
  | false =>
    rw [hpage, Bool.false_or] at h
    obtain ⟨number, hnumber⟩ := wholeNumber?_ok hpage
    obtain ⟨first, hfirst, -⟩ :=
      normalizePage_integer hnumber (rfl : defaultPage.integer? = some 1)
    unfold normalizeLimit
    rw [hfirst, Outcome.ok_bind, wholeOr_infinite h]
    rfl

end

/-- Whatever page and limit are given, if only neither of them is infinite, there is a window, with at
least one row and no more than the greatest limit.  A whole number of such windows comes before it,
and none of them unless the page stands for an integer from two on.  It is the window of the page and
the limit that are given, or of the defaults.  An infinite page or limit is a fault.  Other things from
which a program makes integers (decimals, bytes, objects that convert themselves) are no `Value`s, and
nothing is said about them. -/
theorem Window.offset_bounded (page limit : Value) {default most : Value} {d m : Int}
    (hdefault : default.integer? = some d) (hmost : most.integer? = some m) (hpos : 1 ≤ m) :
    ((page.isInfinite || limit.isInfinite) = true →
      offset page limit default most = .error .overflow) ∧
    ((page.isInfinite || limit.isInfinite) = false →
      ∃ window take skip, offset page limit default most = .ok window ∧
        window.take.integer? = some take ∧ window.skip = .int skip ∧
        1 ≤ take ∧ take ≤ m ∧ 0 ≤ skip ∧ take ∣ skip ∧
        (skip = 0 ↔ ∀ n, page.StandsFor n → n < 2) ∧
        (∀ n, page.StandsFor n → skip = (max 1 n - 1) * take) ∧
        (∀ n, limit.StandsFor n → take = min m (max 1 n)) ∧
        ((∀ n, ¬ limit.StandsFor n) → take = min m (max 1 d))) := by
  refine ⟨offset_infinite, fun hfinite => ?_⟩
  obtain ⟨hpage, hlimit⟩ := Bool.or_eq_false_iff.mp hfinite
  obtain ⟨number, hnumber⟩ := wholeNumber?_ok hpage
  obtain ⟨size, hsize⟩ := wholeNumber?_ok hlimit
  obtain ⟨take, htake, hoffset⟩ := offset_whole hnumber hsize hdefault hmost
  have htakes : 1 ≤ pageSize size d m := pageSize_pos size d hpos
  have hfirst : 1 ≤ pageNumber number 1 := Int.le_max_left ..
  simp only [Value.standsFor_iff hnumber, Value.standsFor_iff hsize]
  refine ⟨_, _, _, hoffset, htake, rfl, htakes, Int.min_le_left .., ?_, ?_, ?_, ?_, ?_, ?_⟩
  · exact Int.mul_nonneg (by omega) (by omega)
  · exact Int.dvd_mul_left ..
  · rw [Int.mul_eq_zero]
    unfold pageNumber at hfirst ⊢
    cases number with
    | none => simp
    | some n =>
      simp only [Option.getD_some, Option.some.injEq, forall_eq']
      omega
  · rintro n rfl
    rfl
  · rintro n rfl
    rfl
  · intro hnone
    cases size with
    | none => rfl
    | some n => exact absurd rfl (hnone n)

/-- a page in blanks, and a limit with a fraction that is more than the greatest one -/
theorem Window.offset_third_page :
    let limit : Value := .float (.ofRatio false 41 2)
    (Value.bool true).integer? = some 1 ∧ (Value.int 15).integer? = some 15 ∧ (1 : Int) ≤ 15 ∧
      ((Value.str " 3 ").isInfinite || limit.isInfinite) = false ∧
      ∃ window take, offset (.str " 3 ") limit (.bool true) (.int 15) = .ok window ∧
        window.take.integer? = some take ∧ window.skip = .int (2 * take) ∧ 1 ≤ take ∧ take ≤ 15 := by
  intro limit
  have hfinite : ((Value.str " 3 ").isInfinite || limit.isInfinite) = false := by decide +kernel
  obtain ⟨window, take, skip, hwindow, htake, hskip, hpos, hmost, -, -, -, hbefore, -, -⟩ :=
    (offset_bounded (.str " 3 ") limit (rfl : (Value.bool true).integer? = some 1)
      (rfl : (Value.int 15).integer? = some 15) (by decide)).2 hfinite
  have hthree : Value.StandsFor (.str " 3 ") 3 := .text (by decide +kernel)
  rw [hbefore 3 hthree] at hskip
  exact ⟨rfl, rfl, by decide, hfinite, window, take, hwindow, htake, hskip, hpos, hmost⟩

/-- a page beyond all others, and a limit below all others -/
theorem Window.infinite_unanswered :
    offset (.float (.infinity false)) .null (.int 10) (.int 100) = .error .overflow ∧
      offset (.int 3) (.float (.infinity true)) (.int 10) (.int 100) = .error .overflow := ⟨rfl, rfl⟩

end ListQuery
