import ListQuery.Json.Read
import ListQuery.Json.Write

/-!
# Texts in JSON

A text that is written reads back as itself, with escapes for what is outside ASCII or without.

* `Json.unit?_hex`           four hexadecimal digits;
* `Json.textFrom_character`  one character, however it is escaped;
* `Json.text_read`           a text.
-/

namespace ListQuery

namespace Json

/-! ## units -/

theorem hexDigit?_digitChar {k : Nat} (h : k < 16) : hexDigit? (Nat.digitChar k) = some k := by
  revert k
  decide

theorem hex_four {n : Nat} (h : n < 65536) :
    Text.hex 4 n = [Nat.digitChar (n / 4096), Nat.digitChar (n / 256 % 16),
      Nat.digitChar (n / 16 % 16), Nat.digitChar (n % 16)] := by
  have hstep : ∀ k, Nat.toDigits 16 k = if k < 16 then [Nat.digitChar k]
      else Nat.toDigits 16 (k / 16) ++ [Nat.digitChar (k % 16)] := fun k =>
    Nat.toDigits_eq_if (by decide)
  have hzero : '0' = Nat.digitChar 0 := rfl
  have hdiv : n / 16 / 16 = n / 256 := Nat.div_div_eq_div_mul n 16 16
  have hdiv' : n / 256 / 16 = n / 4096 := Nat.div_div_eq_div_mul n 256 16
  unfold Text.hex
  dsimp only
  rw [hstep n]
  split
  · have h1 : n / 4096 = 0 := by omega
    have h2 : n / 256 % 16 = 0 := by omega
    have h3 : n / 16 % 16 = 0 := by omega
    have h4 : n % 16 = n := by omega
    rw [h1, h2, h3, h4]
    rfl
  rw [hstep (n / 16)]
  split
  · have h1 : n / 4096 = 0 := by omega
    have h2 : n / 256 % 16 = 0 := by omega
    have h3 : n / 16 % 16 = n / 16 := by omega
    rw [h1, h2, h3]
    rfl
  rw [hdiv, hstep (n / 256)]
  split
  · have h1 : n / 4096 = 0 := by omega
    have h2 : n / 256 % 16 = n / 256 := by omega
    rw [h1, h2]
    rfl
  rw [hdiv', hstep (n / 4096), if_pos (by omega)]
  rfl

theorem unit?_hex {n : Nat} (h : n < 65536) (rest : List Char) :
    unit? (Text.hex 4 n ++ rest) = some (n, rest) := by
  rw [hex_four h]
  show (do
    let k := (← hexDigit? (Nat.digitChar (n / 4096))) * 4096
      + (← hexDigit? (Nat.digitChar (n / 256 % 16))) * 256
      + (← hexDigit? (Nat.digitChar (n / 16 % 16))) * 16 + (← hexDigit? (Nat.digitChar (n % 16)))
    some (k, rest)) = _
  rw [hexDigit?_digitChar (by omega), hexDigit?_digitChar (by omega), hexDigit?_digitChar (by omega),
    hexDigit?_digitChar (by omega)]
  have hsum : n / 4096 * 4096 + n / 256 % 16 * 256 + n / 16 % 16 * 16 + n % 16 = n := by omega
  show some (n / 4096 * 4096 + n / 256 % 16 * 256 + n / 16 % 16 * 16 + n % 16, rest) = _
  rw [hsum]

/-! ## characters -/

theorem textFrom_plain (bounds : Bounds) (opened fuel : Nat) (soFar : List Char) {c : Char}
    (tail : List Char) (hquote : c ≠ '"') (hback : c ≠ '\\') (hspace : 0x20 ≤ c.toNat) :
    textFrom bounds opened (fuel + 1) soFar (c :: tail) = textFrom bounds opened fuel (c :: soFar) tail := by
  rw [textFrom]
  · exact if_neg (by omega)
  · exact hquote
  · exact fun heq => absurd heq hback
  · exact fun _ heq => absurd heq hback
  · exact fun _ _ heq => absurd heq hback

theorem textFrom_unit (bounds : Bounds) (opened fuel : Nat) (soFar : List Char) {n : Nat} {c : Char}
    {tail after : List Char} (hn : n < 65536) (hne : tail ≠ [])
    (hc : character? n tail = (some c, after)) :
    textFrom bounds opened (fuel + 1) soFar (JsonStyle.unitEscape n ++ tail)
      = textFrom bounds opened fuel (c :: soFar) after := by
  have hunit := unit?_hex hn tail
  have hempty : tail.isEmpty = false := by
    cases tail with
    | nil => exact absurd rfl hne
    | cons => rfl
  show textFrom bounds opened (fuel + 1) soFar ('\\' :: 'u' :: (Text.hex 4 n ++ tail)) = _
  rw [textFrom]
  simp only [hunit, hempty, hc, Bool.false_eq_true, if_false]

theorem character?_whole {c : Char} (h : c.toNat < 0x10000) (tail : List Char) :
    character? c.toNat tail = (some c, tail) := by
  have hvalid : c.toNat < 0xd800 ∨ 0xdfff < c.toNat ∧ c.toNat < 0x110000 := c.valid
  have hhigh : Encoding.isHighHalf c.toNat = false := by
    unfold Encoding.isHighHalf
    rw [Bool.and_eq_false_iff, decide_eq_false_iff_not, decide_eq_false_iff_not]
    omega
  have hlow : Encoding.isLowHalf c.toNat = false := by
    unfold Encoding.isLowHalf
    rw [Bool.and_eq_false_iff, decide_eq_false_iff_not, decide_eq_false_iff_not]
    omega
  unfold character?
  rw [hhigh, hlow, if_neg (by decide), if_neg (by decide), Char.ofNat_toNat]

/-- the two halves of a character outside the first plane -/
theorem character?_halves {high low : Nat} (hhigh : Encoding.isHighHalf high = true)
    (hlow : Encoding.isLowHalf low = true) {tail : List Char} (hne : tail ≠ []) :
    character? high (JsonStyle.unitEscape low ++ tail) = (some (Encoding.joinHalves high low), tail) := by
  have hunit : unit? (Text.hex 4 low ++ tail) = some (low, tail) := by
    refine unit?_hex ?_ tail
    unfold Encoding.isLowHalf at hlow
    rw [Bool.and_eq_true, decide_eq_true_eq, decide_eq_true_eq] at hlow
    omega
  have hempty : tail.isEmpty = false := by
    cases tail with
    | nil => exact absurd rfl hne
    | cons => rfl
  show character? high ('\\' :: 'u' :: (Text.hex 4 low ++ tail)) = _
  unfold character?
  simp only [hhigh, if_true, hunit, hlow, hempty, Bool.not_false, Bool.and_self]

theorem halves {n high low : Nat} (hn : 0x10000 ≤ n) (hn' : n < 0x110000)
    (hhigh : high = 0xd800 + (n - 0x10000) / 0x400) (hlow : low = 0xdc00 + (n - 0x10000) % 0x400) :
    Encoding.isHighHalf high = true ∧ Encoding.isLowHalf low = true ∧
      Encoding.joinHalves high low = Char.ofNat n := by
  have hsum : 0x10000 + (high - 0xd800) * 0x400 + (low - 0xdc00) = n := by omega
  unfold Encoding.isHighHalf Encoding.isLowHalf Encoding.joinHalves
  rw [Bool.and_eq_true, Bool.and_eq_true, decide_eq_true_eq, decide_eq_true_eq, decide_eq_true_eq,
    decide_eq_true_eq, hsum]
  exact ⟨by omega, by omega, rfl⟩

theorem textFrom_character (ascii : Bool) (bounds : Bounds) (opened fuel : Nat) (soFar : List Char)
    (c : Char) {tail : List Char} (hne : tail ≠ []) :
    textFrom bounds opened (fuel + 1) soFar (JsonStyle.character ascii c ++ tail)
      = textFrom bounds opened fuel (c :: soFar) tail := by
  unfold JsonStyle.character
  dsimp only
  split
  · rename_i h
    rcases h with rfl | rfl <;> rfl
  rename_i hmarks
  rw [not_or] at hmarks
  split
  · rename_i h
    subst h
    rfl
  split
  · rename_i h
    subst h
    rfl
  split
  · rename_i h
    subst h
    rfl
  split
  · rename_i h
    have hc : c = Char.ofNat 8 := by rw [← h, Char.ofNat_toNat]
    subst hc
    rfl
  split
  · rename_i h
    have hc : c = Char.ofNat 12 := by rw [← h, Char.ofNat_toNat]
    subst hc
    rfl
  split
  · exact textFrom_unit bounds opened fuel soFar (by omega) hne (character?_whole (by omega) tail)
  split
  · exact textFrom_plain bounds opened fuel soFar tail hmarks.1 hmarks.2 (by omega)
  split
  · exact textFrom_unit bounds opened fuel soFar (by omega) hne (character?_whole (by omega) tail)
  · have hvalid : c.toNat < 0xd800 ∨ 0xdfff < c.toNat ∧ c.toNat < 0x110000 := c.valid
    generalize hhigh : 0xd800 + (c.toNat - 0x10000) / 0x400 = high
    generalize hlow : 0xdc00 + (c.toNat - 0x10000) % 0x400 = low
    obtain ⟨hhigh', hlow', hjoin⟩ := halves (by omega) (by omega) hhigh.symm hlow.symm
    have hread := character?_halves hhigh' hlow' hne
    rw [hjoin, Char.ofNat_toNat] at hread
    rw [List.append_assoc]
    exact textFrom_unit bounds opened fuel soFar (by omega) (List.cons_ne_nil _ _) hread

/-! ## texts -/

theorem textFrom_characters (ascii : Bool) (bounds : Bounds) (opened : Nat) (rest : List Char)
    (cs soFar : List Char) (fuel : Nat) (hfuel : cs.length < fuel) :
    textFrom bounds opened fuel soFar (cs.flatMap (JsonStyle.character ascii) ++ '"' :: rest)
      = .ok (cs.reverse ++ soFar, rest) := by
  induction cs generalizing soFar fuel with
  | nil =>
    obtain ⟨fuel, rfl⟩ := Nat.exists_eq_add_of_lt hfuel
    rfl
  | cons c cs ih =>
    obtain ⟨fuel, rfl⟩ : ∃ k, fuel = k + 1 := ⟨fuel - 1, by omega⟩
    rw [List.length_cons] at hfuel
    rw [List.flatMap_cons, List.append_assoc,
      textFrom_character ascii bounds opened fuel soFar c (by simp), ih (c :: soFar) fuel (by omega),
      List.reverse_cons, List.append_assoc, List.singleton_append]

theorem character_length (ascii : Bool) (c : Char) : 1 ≤ (JsonStyle.character ascii c).length := by
  unfold JsonStyle.character
  dsimp only
  repeat' split
  all_goals exact Nat.succ_pos _

theorem characters_length (ascii : Bool) (cs : List Char) :
    cs.length ≤ (cs.flatMap (JsonStyle.character ascii)).length := by
  induction cs with
  | nil => exact Nat.le_refl _
  | cons c cs ih =>
    have hc := character_length ascii c
    rw [List.flatMap_cons, List.length_append, List.length_cons]
    omega

/-- what stands between the quotes is read up to the closing one -/
theorem text_read (style : JsonStyle) (bounds : Bounds) (s : String) (rest : List Char) :
    text bounds (s.toList.flatMap (JsonStyle.character style.ascii) ++ '"' :: rest) = .ok (s, rest) := by
  have hlength := characters_length style.ascii s.toList
  unfold text
  rw [textFrom_characters style.ascii bounds _ rest s.toList []]
  · show Except.ok (String.ofList (s.toList.reverse ++ []).reverse, rest) = _
    rw [List.append_nil, List.reverse_reverse, String.ofList_toList]
  · rw [List.length_append]
    omega

end Json

end ListQuery
