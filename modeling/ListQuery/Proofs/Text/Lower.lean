import Mathlib.Data.List.Infix
import ListQuery.Text.Lower
import ListQuery.Text.Search

/-!
# The lower case of a part of a text

A text is lowered character by character, but for capital sigmas: whether one ends a word is told by
what stands around it, and a part of a text knows less of that than the whole.  So the lower case of
a part stands in the lower case of the whole where every sigma ends a word in the part exactly if it
does in the whole, and not otherwise.

* `Text.lowerWithin`          the lower case of a part, as it stands in the whole;
* `Text.lowerFrom_append`     the lower case of the whole, part by part;
* `Text.SigmasKept`           the sigmas of a part end words as they do in the whole;
* `Text.lowerWithin_eq_iff`   when the part is lowered as by itself;
* `Text.startsWith_iff`, `occursIn_iff`
                              texts at the start of others and within them.
-/

namespace ListQuery.Text

/-! ## texts within texts -/

theorem startsWith_iff {s t : List Char} : startsWith s t = true ↔ t <+: s := by
  induction s generalizing t with
  | nil =>
    cases t with
    | nil => exact iff_of_true rfl List.prefix_rfl
    | cons d t => exact iff_of_false Bool.false_ne_true fun h => by cases List.prefix_nil.mp h
  | cons c s ih =>
    cases t with
    | nil => exact iff_of_true rfl List.nil_prefix
    | cons d t =>
      rw [startsWith, Bool.and_eq_true, beq_iff_eq, ih, List.cons_prefix_cons]
      exact and_congr_left fun _ => eq_comm

theorem occursIn_iff {s t : List Char} : occursIn t s = true ↔ t <:+: s := by
  induction s with
  | nil => rw [occursIn, List.isEmpty_iff, List.infix_nil]
  | cons c s ih => rw [occursIn, Bool.or_eq_true, startsWith_iff, ih, List.infix_cons_iff]

/-! ## lower case within a text -/

/-- a word ends between the two texts, the first of them in reverse -/
def endsWord (before after : List Char) : Bool := meetsCased before && !meetsCased after

/-- the lower case of a character; that of a capital sigma depends on whether it ends a word -/
def lowered (c : Char) (ends : Bool) : List Char :=
  if c = 'Σ' then [if ends then 'ς' else 'σ']
  else if c = 'İ' then ['i', Char.ofNat 0x307]
  else [lowerChar c]

/-- the lower case of a part as it stands in a text, `before` being what precedes it in reverse -/
def lowerWithin (before : List Char) : (part after : List Char) → List Char
  | [], _ => []
  | c :: rest, after =>
    lowered c (endsWord before (rest ++ after)) ++ lowerWithin (c :: before) rest after

theorem lowerFrom_cons (before : List Char) (c : Char) (rest : List Char) :
    lowerFrom before (c :: rest) = lowered c (endsWord before rest) ++ lowerFrom (c :: before) rest :=
  rfl

theorem lowerFrom_append (before part after : List Char) :
    lowerFrom before (part ++ after)
      = lowerWithin before part after ++ lowerFrom (part.reverse ++ before) after := by
  induction part generalizing before with
  | nil => rfl
  | cons c rest ih =>
    rw [List.cons_append, lowerFrom_cons, ih, lowerWithin, List.append_assoc, List.reverse_cons,
      List.append_assoc]
    rfl

theorem lowerFrom_eq_within (before part : List Char) :
    lowerFrom before part = lowerWithin before part [] := by
  have hwhole := lowerFrom_append before part []
  rw [List.append_nil, lowerFrom, List.append_nil] at hwhole
  exact hwhole

theorem lowered_length (c : Char) (a b : Bool) : (lowered c a).length = (lowered c b).length := by
  unfold lowered
  split
  · rfl
  · rfl

/-- only of a capital sigma it matters whether it ends a word -/
theorem lowered_inj {c : Char} {a b : Bool} : lowered c a = lowered c b ↔ (c = 'Σ' → a = b) := by
  unfold lowered
  by_cases hc : c = 'Σ'
  · rw [if_pos hc, if_pos hc]
    revert a b
    simp only [hc, true_implies]
    decide
  · rw [if_neg hc, if_neg hc]
    exact iff_of_true rfl fun h => absurd h hc

theorem lowerWithin_length (before before' part after after' : List Char) :
    (lowerWithin before part after).length = (lowerWithin before' part after').length := by
  induction part generalizing before before' with
  | nil => rfl
  | cons c rest ih =>
    rw [lowerWithin, lowerWithin, List.length_append, List.length_append, ih, lowered_length]

/-! ## sigmas -/

/-- every capital sigma of a part ends a word in the text exactly if it does in the part by itself -/
def SigmasKept (before part after : List Char) : Prop :=
  ∀ front back, part = front ++ 'Σ' :: back →
    endsWord (front.reverse ++ before) (back ++ after) = endsWord front.reverse back

/-- two texts around the same part lower it alike if they tell the same of its sigmas -/
theorem lowerWithin_inj (part : List Char) {before before' after after' : List Char} :
    lowerWithin before part after = lowerWithin before' part after' ↔
      ∀ front back, part = front ++ 'Σ' :: back →
        endsWord (front.reverse ++ before) (back ++ after)
          = endsWord (front.reverse ++ before') (back ++ after') := by
  induction part generalizing before before' with
  | nil => exact iff_of_true rfl fun front back h => by cases front <;> cases h
  | cons c rest ih =>
    have hsplit (x y : Bool) (xs ys : List Char) (hlength : xs.length = ys.length) :
        lowered c x ++ xs = lowered c y ++ ys ↔ (c = 'Σ' → x = y) ∧ xs = ys := by
      rw [← lowered_inj]
      exact ⟨fun h => List.append_inj h (lowered_length c x y), fun h => congrArg₂ _ h.1 h.2⟩
    rw [lowerWithin, lowerWithin, hsplit _ _ _ _ (lowerWithin_length _ _ _ _ _), ih]
    constructor
    · rintro ⟨hhere, hrest⟩ front back h
      cases front with
      | nil =>
        cases h
        exact hhere rfl
      | cons d front =>
        cases h
        rw [List.reverse_cons, List.append_assoc, List.append_assoc]
        exact hrest front back rfl
    · refine fun h => ⟨fun hc => ?_, fun front back heq => ?_⟩
      · exact h [] rest (by rw [hc]; rfl)
      · have hhere := h (c :: front) back (by rw [heq]; rfl)
        rw [List.reverse_cons, List.append_assoc, List.append_assoc] at hhere
        exact hhere

/-- a part is lowered in a text as it is by itself exactly if its sigmas are kept -/
theorem lowerWithin_eq_iff {before part after : List Char} :
    lowerWithin before part after = lowerFrom [] part ↔ SigmasKept before part after := by
  rw [lowerFrom_eq_within, lowerWithin_inj]
  simp only [List.append_nil]
  rfl

theorem sigmasKept_of_notMem {part : List Char} (h : 'Σ' ∉ part) (before after : List Char) :
    SigmasKept before part after := by
  rintro front back rfl
  exact absurd (List.mem_append_right _ List.mem_cons_self) h

theorem infix_lowerFrom {before part after : List Char} (h : SigmasKept before.reverse part after) :
    lowerFrom [] part <:+: lowerFrom [] (before ++ part ++ after) := by
  rw [List.append_assoc, lowerFrom_append, lowerFrom_append, List.append_nil,
    lowerWithin_eq_iff.mpr h]
  exact ⟨_, _, List.append_assoc ..⟩

/-- the lower case of a part starts that of the text exactly if its sigmas are kept -/
theorem prefix_lowerFrom_iff {part after : List Char} :
    lowerFrom [] part <+: lowerFrom [] (part ++ after) ↔ SigmasKept [] part after := by
  rw [lowerFrom_append, ← lowerWithin_eq_iff]
  constructor
  · intro h
    have hlength : (lowerFrom [] part).length = (lowerWithin [] part after).length := by
      rw [lowerFrom_eq_within]
      exact lowerWithin_length ..
    have hpart := List.prefix_of_prefix_length_le h (List.prefix_append _ _) hlength.le
    exact (hpart.eq_of_length hlength).symm
  · intro h
    rw [h]
    exact List.prefix_append _ _

end ListQuery.Text
