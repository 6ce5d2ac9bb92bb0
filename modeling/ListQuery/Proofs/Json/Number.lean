import ListQuery.Json.Read
import ListQuery.Json.Write
import ListQuery.Proofs.Number.Reading

/-!
# Numbers in JSON

An integer or a double that is written reads back as itself, whatever mark follows it.

* `Json.Ends`            what may follow a value;
* `Json.number_integer`, `number_point`, `number_exponent`   the numerals that are written;
* `Json.integer_read`    an integer;
* `Json.double_read`     a double.
-/

namespace ListQuery

namespace Json

def Ends (rest : List Char) : Prop := ∀ c ∈ rest.head?, c = ',' ∨ c = ':' ∨ c = ']' ∨ c = '\x7d'

/-! ## digits -/

structure Whole (ds : List Char) : Prop where
  digits : ∀ c ∈ ds, c.isDigit = true
  head : ds = ['0'] ∨ ∃ c tail, ds = c :: tail ∧ c ≠ '0'

def NoDigit (rest : List Char) : Prop := ∀ c ∈ rest.head?, c.isDigit = false

theorem Ends.noDigit {rest : List Char} (h : Ends rest) : NoDigit rest := by
  intro c hc
  rcases h c hc with rfl | rfl | rfl | rfl <;> decide

theorem noDigit_cons {c : Char} (rest : List Char) (h : c.isDigit = false) : NoDigit (c :: rest) := by
  intro d hd
  cases hd
  exact h

theorem takeWhile_digits {ds rest : List Char} (hds : ∀ c ∈ ds, c.isDigit = true)
    (hrest : NoDigit rest) : (ds ++ rest).takeWhile Char.isDigit = ds := by
  rw [List.takeWhile_append_of_pos hds]
  cases rest with
  | nil => simp
  | cons c rest =>
    have hc := hrest c rfl
    rw [List.takeWhile_cons_of_neg (by simp [hc]), List.append_nil]

theorem dropWhile_digits {ds rest : List Char} (hds : ∀ c ∈ ds, c.isDigit = true)
    (hrest : NoDigit rest) : (ds ++ rest).dropWhile Char.isDigit = rest := by
  rw [List.dropWhile_append_of_pos hds]
  cases rest with
  | nil => rfl
  | cons c rest =>
    have hc := hrest c rfl
    rw [List.dropWhile_cons_of_neg (by simp [hc])]

theorem wholeDigits?_eq {ds rest : List Char} (hds : Whole ds) (hrest : NoDigit rest) :
    wholeDigits? (ds ++ rest) = some (ds, rest) := by
  rcases hds.head with rfl | ⟨c, tail, rfl, hc⟩
  · rfl
  · unfold wholeDigits?
    split
    · rename_i heq
      rw [List.cons_append, List.cons.injEq] at heq
      exact absurd heq.1 hc
    · rw [takeWhile_digits hds.digits hrest, dropWhile_digits hds.digits hrest]
      rfl

theorem fractionDigits_point {ds rest : List Char} (hne : ds ≠ [])
    (hds : ∀ c ∈ ds, c.isDigit = true) (hrest : NoDigit rest) :
    fractionDigits ('.' :: (ds ++ rest)) = (ds, rest) := by
  have hempty : ds.isEmpty = false := by
    cases ds with
    | nil => exact absurd rfl hne
    | cons => rfl
  unfold fractionDigits
  simp only [takeWhile_digits hds hrest, dropWhile_digits hds hrest, hempty, Bool.false_eq_true,
    if_false]

theorem fractionDigits_none {rest : List Char} (h : ∀ c ∈ rest.head?, c ≠ '.') :
    fractionDigits rest = ([], rest) := by
  unfold fractionDigits
  split
  · exact absurd rfl (h '.' rfl)
  · rfl

theorem exponent?_none {rest : List Char} (h : ∀ c ∈ rest.head?, c ≠ 'e' ∧ c ≠ 'E') :
    exponent? rest = none := by
  cases rest with
  | nil => rfl
  | cons c rest =>
    obtain ⟨hlower, hupper⟩ := h c rfl
    unfold exponent?
    exact if_neg (by simp [hlower, hupper])

theorem exponent?_signed (negative : Bool) {ds rest : List Char} (hne : ds ≠ [])
    (hds : ∀ c ∈ ds, c.isDigit = true) (hrest : NoDigit rest) :
    exponent? ('e' :: (if negative then '-' else '+') :: (ds ++ rest))
      = some (Binary64.signed negative (Decimal.natOf ds), rest) := by
  have hempty : ds.isEmpty = false := by
    cases ds with
    | nil => exact absurd rfl hne
    | cons => rfl
  unfold exponent?
  cases negative with
  | true =>
    dsimp only
    rw [if_pos (.inl rfl)]
    simp only [if_true, takeWhile_digits hds hrest, dropWhile_digits hds hrest, hempty]
    rfl
  | false =>
    dsimp only
    rw [if_pos (.inl rfl)]
    simp only [Bool.false_eq_true, if_false, takeWhile_digits hds hrest, dropWhile_digits hds hrest,
      hempty]

/-! ## numerals -/

def withSign (negative : Bool) (cs : List Char) : List Char := if negative then '-' :: cs else cs

theorem number_eq (bounds : Bounds) (negative : Bool) {ds rest : List Char} (hds : Whole ds)
    (hrest : NoDigit rest) :
    number bounds (withSign negative (ds ++ rest)) =
      match exponent? (fractionDigits rest).2 with
      | some (e, after) => .ok (.float (Decimal.ofDigits negative ds (fractionDigits rest).1 e), after)
      | none =>
        if (fractionDigits rest).1.isEmpty then
          (integer bounds negative ds).map (·, (fractionDigits rest).2)
        else .ok (.float (Decimal.ofDigits negative ds (fractionDigits rest).1 0),
          (fractionDigits rest).2) := by
  have hwhole := wholeDigits?_eq hds hrest
  have hhead : ∀ r, ds ++ rest ≠ '-' :: r := by
    intro r heq
    rcases hds.head with rfl | ⟨c, tail, rfl, _⟩
    · cases heq
    · rw [List.cons_append, List.cons.injEq] at heq
      have hdigit := hds.digits c List.mem_cons_self
      rw [heq.1] at hdigit
      cases hdigit
  rcases hfraction : fractionDigits rest with ⟨fraction, tail⟩
  unfold number withSign
  cases negative with
  | true =>
    rcases hexp : exponent? tail with _ | ⟨e, after⟩
    · simp only [if_true, hwhole, hfraction, hexp]
      split
      · cases integer bounds true ds <;> rfl
      · rfl
    · simp only [if_true, hwhole, hfraction, hexp]
      rfl
  | false =>
    rcases hexp : exponent? tail with _ | ⟨e, after⟩
    · simp only [Bool.false_eq_true, if_false, hwhole, hfraction, hexp]
      split
      · cases integer bounds false ds <;> rfl
      · rfl
    · simp only [Bool.false_eq_true, if_false, hwhole, hfraction, hexp]
      rfl

theorem Ends.noPoint {rest : List Char} (h : Ends rest) : ∀ c ∈ rest.head?, c ≠ '.' := by
  intro c hc
  rcases h c hc with rfl | rfl | rfl | rfl <;> decide

theorem Ends.noExponent {rest : List Char} (h : Ends rest) :
    ∀ c ∈ rest.head?, c ≠ 'e' ∧ c ≠ 'E' := by
  intro c hc
  rcases h c hc with rfl | rfl | rfl | rfl <;> decide

theorem number_integer (negative : Bool) {ds rest : List Char} (hds : Whole ds) (hrest : Ends rest) :
    number {} (withSign negative (ds ++ rest))
      = .ok (.int (Binary64.signed negative (Decimal.natOf ds)), rest) := by
  rw [number_eq {} negative hds hrest.noDigit, fractionDigits_none hrest.noPoint,
    exponent?_none hrest.noExponent]
  rfl

theorem number_point (negative : Bool) {ds fraction rest : List Char} (hds : Whole ds)
    (hne : fraction ≠ []) (hfraction : ∀ c ∈ fraction, c.isDigit = true) (hrest : Ends rest) :
    number {} (withSign negative (ds ++ '.' :: (fraction ++ rest)))
      = .ok (.float (Decimal.ofDigits negative ds fraction 0), rest) := by
  have hempty : fraction.isEmpty = false := by
    cases fraction with
    | nil => exact absurd rfl hne
    | cons => rfl
  rw [number_eq {} negative hds (noDigit_cons _ (by decide)),
    fractionDigits_point hne hfraction hrest.noDigit, exponent?_none hrest.noExponent]
  simp only [hempty, Bool.false_eq_true, if_false]

def pointed (fraction : List Char) : List Char := if fraction = [] then [] else '.' :: fraction

theorem number_exponent (negative below : Bool) {ds fraction exponent rest : List Char}
    (hds : Whole ds) (hfraction : ∀ c ∈ fraction, c.isDigit = true) (hne : exponent ≠ [])
    (hexponent : ∀ c ∈ exponent, c.isDigit = true) (hrest : Ends rest) :
    number {} (withSign negative
        (ds ++ (pointed fraction ++ 'e' :: (if below then '-' else '+') :: (exponent ++ rest))))
      = .ok (.float (Decimal.ofDigits negative ds fraction
          (Binary64.signed below (Decimal.natOf exponent))), rest) := by
  have hexp := exponent?_signed below hne hexponent hrest.noDigit
  have hmark : NoDigit ('e' :: (if below then '-' else '+') :: (exponent ++ rest)) :=
    noDigit_cons _ (by decide)
  by_cases hempty : fraction = []
  · subst hempty
    have hnone : ∀ c ∈ ('e' :: (if below then '-' else '+') :: (exponent ++ rest)).head?, c ≠ '.' := by
      intro c hc
      cases hc
      decide
    rw [pointed, if_pos rfl, List.nil_append, number_eq {} negative hds hmark,
      fractionDigits_none hnone, hexp]
  · rw [pointed, if_neg hempty, List.cons_append,
      number_eq {} negative hds (noDigit_cons _ (by decide)),
      fractionDigits_point hempty hfraction hmark, hexp]

/-! ## integers -/

theorem whole_digits (n : Nat) : Whole (Decimal.digits n) := by
  refine ⟨Decimal.digits_isDigit n, ?_⟩
  rcases Nat.eq_zero_or_pos n with rfl | hn
  · exact .inl rfl
  · obtain ⟨c, ds, hds, hc⟩ := Decimal.digits_head hn
    exact .inr ⟨c, ds, hds, hc⟩

theorem integer_read (n : Int) {rest : List Char} (hrest : Ends rest) :
    number {} (Value.signed n ++ rest) = .ok (.int n, rest) := by
  have htext : Value.signed n ++ rest
      = withSign (decide (n < 0)) (Decimal.digits n.natAbs ++ rest) := by
    unfold Value.signed withSign Decimal.digits
    by_cases hneg : n < 0
    · simp [hneg]
    · simp [hneg]
  have hvalue : Binary64.signed (decide (n < 0)) n.natAbs = n := by
    unfold Binary64.signed
    by_cases hneg : n < 0
    · rw [decide_eq_true hneg, if_pos rfl]
      omega
    · rw [decide_eq_false hneg, if_neg (by decide)]
      omega
  rw [htext, number_integer _ (whole_digits _) hrest, Decimal.natOf_digits, hvalue]

/-! ## doubles -/

theorem isDigit_zero : ∀ c ∈ ['0'], c.isDigit = true := List.forall_mem_singleton.mpr rfl

theorem isDigit_zeros (k : Nat) : ∀ c ∈ List.replicate k '0', c.isDigit = true := by
  intro c hc
  rw [List.eq_of_mem_replicate hc]
  rfl

theorem isDigit_append {xs ys : List Char} (hxs : ∀ c ∈ xs, c.isDigit = true)
    (hys : ∀ c ∈ ys, c.isDigit = true) : ∀ c ∈ xs ++ ys, c.isDigit = true := by
  intro c hc
  rcases List.mem_append.mp hc with h | h
  · exact hxs c h
  · exact hys c h

theorem positional_read (negative : Bool) {c m : Nat} {e g : Int} {rest : List Char} (hc : 0 < c)
    (hm : 0 < m) (hproper : Binary64.Proper m e) (h : Binary64.Rounds (c * 10 ^ g) m e)
    (hrest : Ends rest) :
    number {} (withSign negative (DecimalStyle.positional (Decimal.digits c)
        (g + (Decimal.digits c).length - 1) ++ rest)) = .ok (.float (.finite negative m e), rest) := by
  have hwhole := whole_digits c
  have hvalue := Decimal.natOf_digits c
  obtain ⟨d, tail, hds, hd⟩ := Decimal.digits_head hc
  generalize Decimal.digits c = ds at hwhole hvalue hds
  have hlen : 0 < ds.length := by
    rw [hds]
    exact Nat.succ_pos _
  generalize hplace : g + (ds.length : Int) - 1 = place
  unfold DecimalStyle.positional
  split
  · rename_i hbelow
    have hfraction := isDigit_append (isDigit_zeros (-place - 1).toNat) hwhole.digits
    have hne : List.replicate (-place - 1).toNat '0' ++ ds ≠ [] := by
      rw [hds]
      exact List.append_ne_nil_of_right_ne_nil _ (List.cons_ne_nil _ _)
    rw [List.cons_append, List.cons_append]
    refine (number_point negative ⟨isDigit_zero, .inl rfl⟩ hne hfraction hrest).trans ?_
    rw [Decimal.ofDigits_eq negative (isDigit_append isDigit_zero hfraction) hm hproper]
    have hnat : Decimal.natOf (['0'] ++ (List.replicate (-place - 1).toNat '0' ++ ds)) = c := by
      rw [Decimal.natOf_append, Decimal.natOf_append, Decimal.natOf_zeros, hvalue]
      show _ * 0 + (_ * 0 + c) = c
      omega
    have hexp : (0 : Int) - ((List.replicate (-place - 1).toNat '0' ++ ds).length : Int) = g := by
      rw [List.length_append, List.length_replicate]
      omega
    rw [hnat, hexp]
    exact h
  · rename_i hbelow
    dsimp only
    generalize hsize : place.toNat + 1 = size
    have htake : Whole ((ds ++ List.replicate (size - ds.length) '0').take size) := by
      constructor
      · intro x hx
        exact isDigit_append hwhole.digits (isDigit_zeros _) x (List.mem_of_mem_take hx)
      · refine .inr ⟨d, (tail ++ List.replicate (size - ds.length) '0').take (size - 1), ?_, hd⟩
        have hsucc : size = size - 1 + 1 := by omega
        rw [hds, List.cons_append]
        conv_lhs => rw [hsucc]
        rw [List.take_succ_cons]
        congr 3
        rw [← hsucc]
    rw [List.append_assoc, List.cons_append]
    rcases Nat.lt_or_ge size ds.length with hlong | hshort
    · -- the point stands inside the digits
      have hzeros : size - ds.length = 0 := by omega
      have hrestDigits : ∀ x ∈ ds.drop size, x.isDigit = true := fun x hx =>
        hwhole.digits x (List.mem_of_mem_drop hx)
      have hne : ds.drop size ≠ [] := by
        intro hnil
        have hlength := congrArg List.length hnil
        rw [List.length_drop, List.length_nil] at hlength
        omega
      have hempty : (ds.drop size).isEmpty = false := by
        simpa using hne
      rw [hzeros, List.replicate_zero, List.append_nil] at htake ⊢
      rw [hempty, if_neg (by decide), number_point negative htake hne hrestDigits hrest,
        Decimal.ofDigits_eq negative (isDigit_append htake.digits hrestDigits) hm hproper]
      have hexp : (0 : Int) - ((ds.drop size).length : Int) = g := by
        rw [List.length_drop]
        omega
      rw [List.take_append_drop, hvalue, hexp]
      exact h
    · -- zeros are filled in up to the point
      have hlength : (ds ++ List.replicate (size - ds.length) '0').length = size := by
        rw [List.length_append, List.length_replicate]
        omega
      have hall : (ds ++ List.replicate (size - ds.length) '0').take size
          = ds ++ List.replicate (size - ds.length) '0' := List.take_of_length_le (by omega)
      have hnone : (ds ++ List.replicate (size - ds.length) '0').drop size = [] :=
        List.drop_of_length_le (by omega)
      rw [hall] at htake ⊢
      rw [hnone]
      apply (number_point negative htake (List.cons_ne_nil '0' []) isDigit_zero hrest).trans
      rw [Decimal.ofDigits_eq negative (isDigit_append htake.digits isDigit_zero) hm hproper]
      rw [Decimal.natOf_append, Decimal.natOf_append_zeros, hvalue]
      have hpow : (((10 ^ ['0'].length * (10 ^ (size - ds.length) * c) + Decimal.natOf ['0'] : Nat)) : ℚ)
          * 10 ^ ((0 : Int) - (['0'].length : Int)) = c * 10 ^ g := by
        have hg : g = ((size - ds.length : Nat) : Int) := by omega
        have hzero : Decimal.natOf ['0'] = 0 := rfl
        rw [hg, hzero, zpow_natCast]
        push_cast
        norm_num
        ring
      rw [hpow]
      exact h

theorem exponential_read (style : DecimalStyle) (negative : Bool) {c m : Nat} {e g : Int}
    {rest : List Char} (hc : 0 < c) (hm : 0 < m) (hproper : Binary64.Proper m e)
    (h : Binary64.Rounds (c * 10 ^ g) m e) (hrest : Ends rest) :
    number {} (withSign negative (style.exponential (Decimal.digits c)
        (g + (Decimal.digits c).length - 1) ++ rest)) = .ok (.float (.finite negative m e), rest) := by
  have hdigits := Decimal.digits_isDigit c
  have hvalue := Decimal.natOf_digits c
  obtain ⟨d, tail, hds, hd⟩ := Decimal.digits_head hc
  rw [hds] at hdigits hvalue ⊢
  generalize hplace : g + ((d :: tail).length : Int) - 1 = place
  have htail : ∀ x ∈ tail, x.isDigit = true := fun x hx => hdigits x (List.mem_cons_of_mem _ hx)
  have hhead : Whole [d] := by
    refine ⟨fun x hx => ?_, .inr ⟨d, [], rfl, hd⟩⟩
    rw [List.mem_singleton.mp hx]
    exact hdigits d List.mem_cons_self
  generalize hexponent : List.replicate (style.exponentWidth - (Decimal.digits place.natAbs).length) '0'
    ++ Decimal.digits place.natAbs = exponent
  have hexponentDigits : ∀ x ∈ exponent, x.isDigit = true := by
    rw [← hexponent]
    exact isDigit_append (isDigit_zeros _) (Decimal.digits_isDigit _)
  have hexponentValue : Decimal.natOf exponent = place.natAbs := by
    rw [← hexponent, Decimal.natOf_append, Decimal.natOf_zeros, Decimal.natOf_digits]
    omega
  have hne : exponent ≠ [] := by
    have hwhole := (whole_digits place.natAbs).head
    rw [← hexponent]
    apply List.append_ne_nil_of_right_ne_nil _
    rcases hwhole with hzero | ⟨x, xs, hx, _⟩
    · rw [hzero]
      exact List.cons_ne_nil _ _
    · rw [hx]
      exact List.cons_ne_nil _ _
  have htext : style.exponential (d :: tail) place ++ rest
      = [d] ++ (pointed tail ++ 'e' :: (if place < 0 then '-' else '+') :: (exponent ++ rest)) := by
    unfold DecimalStyle.exponential
    dsimp only
    rw [hexponent]
    cases tail <;> simp [pointed]
  have hread := number_exponent negative (decide (place < 0)) hhead htail hne hexponentDigits hrest
  rw [hexponentValue] at hread
  simp only [decide_eq_true_eq] at hread
  rw [htext, hread, Decimal.ofDigits_eq negative (isDigit_append hhead.digits htail) hm hproper]
  have hexp : Binary64.signed (decide (place < 0)) place.natAbs - (tail.length : Int) = g := by
    rw [List.length_cons] at hplace
    unfold Binary64.signed
    by_cases hneg : place < 0
    · rw [decide_eq_true hneg, if_pos rfl]
      omega
    · rw [decide_eq_false hneg, if_neg (by decide)]
      omega
  rw [List.singleton_append, hvalue, hexp]
  exact h

/-- the significand is zero, or the double is written with its shortest digits -/
theorem double_read (style : DecimalStyle) (negative : Bool) {m : Nat} {e : Int} {rest : List Char}
    (hproper : Binary64.Proper m e) (hrest : Ends rest) :
    number {} ((style.render (.finite negative m e)).toList ++ rest)
      = .ok (.float (.finite negative m e), rest) := by
  have htext : ∀ body : List Char,
      (String.ofList (if negative then '-' :: body else body)).toList ++ rest
        = withSign negative (body ++ rest) := by
    intro body
    rw [String.toList_ofList]
    unfold withSign
    cases negative <;> rfl
  rw [DecimalStyle.render, htext]
  by_cases hm : m = 0
  · subst hm
    have he : e = Binary64.leastExponent := by
      by_contra hne
      have hnormal := hproper.normal (lt_of_le_of_ne hproper.least (Ne.symm hne))
      omega
    rw [if_pos rfl]
    refine (@number_point negative ['0'] ['0'] rest ⟨isDigit_zero, .inl rfl⟩
      (List.cons_ne_nil _ _) isDigit_zero hrest).trans ?_
    rw [Decimal.ofDigits_zero negative 0 rfl, he]
  · have hpos : 0 < m := Nat.pos_of_ne_zero hm
    have hrounds := Decimal.shortest_rounds (e := e) hpos hproper.significand
    have hc := Decimal.shortest_pos (e := e) hpos hproper.significand
    rw [if_neg hm]
    generalize Decimal.shortest m e = shortest at hrounds hc
    obtain ⟨c, g⟩ := shortest
    dsimp only
    split
    · exact positional_read negative hc hpos hproper hrounds hrest
    · exact exponential_read style negative hc hpos hproper hrounds hrest

end Json

end ListQuery
