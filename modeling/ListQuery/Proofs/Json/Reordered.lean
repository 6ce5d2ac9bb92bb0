import ListQuery.Proofs.Json.Value
import ListQuery.Proofs.Value.Reordered

/-!
# Keys of values with their entries in another order

Names are sorted in the parts of a cache key, at every depth.  So the order of entries does not show.

* `Text.order_eq`               texts in the order of their code points;
* `JsonStyle.byName_eq`         parts in the order of their names, however they came;
* `JsonStyle.write_reordered`   the text of a value in a key does not tell the order of entries.
-/

namespace ListQuery

open Std

/-! ## orders of names -/

theorem Text.order_eq (s t : List Char) :
    Text.order s t = List.compareLex compare (s.map Char.toNat) (t.map Char.toNat) := by
  induction s generalizing t with
  | nil => cases t <;> rfl
  | cons c s ih =>
    cases t with
    | nil => rfl
    | cons d t => rw [Text.order, ih, List.map_cons, List.map_cons, List.compareLex_cons_cons]

namespace JsonStyle

def behind (name other : String) : Bool := Text.order name.toList other.toList == .gt

theorem behind_trans {a b c : String} (hab : behind a b = true) (hbc : behind b c = true) :
    behind a c = true := by
  unfold behind at *
  rw [beq_iff_eq, Text.order_eq] at *
  exact TransCmp.gt_trans hab hbc

theorem behind_asymm {a b : String} (h : behind a b = true) : behind b a = false := by
  unfold behind at *
  rw [beq_iff_eq, Text.order_eq] at h
  rw [Text.order_eq, OrientedCmp.gt_iff_lt.mp h]
  rfl

theorem behind_total {a b : String} (h : a ≠ b) : behind a b = true ∨ behind b a = true := by
  unfold behind
  simp only [beq_iff_eq, Text.order_eq]
  rcases hab : List.compareLex compare (a.toList.map Char.toNat) (b.toList.map Char.toNat)
    with _ | _ | _
  · exact .inr (OrientedCmp.gt_iff_lt.mpr hab)
  · have hnats := LawfulEqCmp.eq_of_compare hab
    have hchars : Function.Injective Char.toNat := fun c d hcd => Char.toNat_inj.mp hcd
    exact absurd (String.toList_inj.mp (List.map_injective_iff.mpr hchars hnats)) h
  · exact .inl rfl

section
variable {α : Type}

theorem insertByName_cons (part other : String × α) (rest : List (String × α)) :
    insertByName part (other :: rest) =
      if behind other.1 part.1 then part :: other :: rest else other :: insertByName part rest := rfl

theorem insertByName_comm {p q : String × α} (h : behind q.1 p.1 = true) (parts : List (String × α)) :
    insertByName p (insertByName q parts) = insertByName q (insertByName p parts) := by
  have hpq := behind_asymm h
  induction parts with
  | nil =>
    show insertByName p [q] = insertByName q [p]
    rw [insertByName_cons, if_pos h, insertByName_cons, hpq]
    rfl
  | cons other rest ih =>
    rw [insertByName_cons q, insertByName_cons p]
    by_cases hq : behind other.1 q.1 = true
    · have hp := behind_trans hq h
      rw [if_pos hq, if_pos hp, insertByName_cons, if_pos h, insertByName_cons, hpq,
        if_neg Bool.false_ne_true, insertByName_cons, if_pos hq]
    · rw [if_neg hq]
      by_cases hp : behind other.1 p.1 = true
      · rw [if_pos hp, insertByName_cons, if_pos hp, insertByName_cons, hpq,
          if_neg Bool.false_ne_true, insertByName_cons, if_neg hq]
      · rw [if_neg hp, insertByName_cons, if_neg hp, insertByName_cons, if_neg hq, ih]

theorem byName_eq {xs ys : List (String × α)} (h : xs.Perm ys) (hnames : (xs.map Prod.fst).Nodup) :
    byName xs = byName ys := by
  refine h.foldl_eq' ?_ []
  intro p hp q hq sorted
  by_cases heq : p = q
  · rw [heq]
  · have hne : p.1 ≠ q.1 := fun hname => heq (List.inj_on_of_nodup_map hnames hp hq hname)
    rcases behind_total hne with h | h
    · exact insertByName_comm h sorted
    · exact (insertByName_comm h sorted).symm

end

/-! ## texts in keys -/

section
variable {depth : Nat}

theorem writeAll_item (before after : List Value) {v w : Value}
    (h : key.write depth v = key.write depth w) :
    key.writeAll depth (before ++ v :: after) = key.writeAll depth (before ++ w :: after) := by
  induction before with
  | nil => rw [List.nil_append, List.nil_append, writeAll, writeAll, h]
  | cons x before ih => rw [List.cons_append, List.cons_append, writeAll, writeAll, ih]

theorem writeEntries_entry (before after : List (String × Value)) (name : String) {v w : Value}
    (h : key.write depth v = key.write depth w) :
    key.writeEntries depth (before ++ (name, v) :: after)
      = key.writeEntries depth (before ++ (name, w) :: after) := by
  induction before with
  | nil => rw [List.nil_append, List.nil_append, writeEntries, writeEntries, h]
  | cons e before ih =>
    rw [List.cons_append, List.cons_append, writeEntries, writeEntries, ih]

theorem writeEntries_eq {written : Value → List Char}
    (h : ∀ v : Value, key.write depth v = Value.legible v.hasText (written v))
    (entries : List (String × Value)) :
    key.writeEntries depth entries
      = Value.legible (Value.entriesHaveText entries) (entries.map fun e => (e.1, written e.2)) := by
  induction entries with
  | nil => rfl
  | cons e rest ih =>
    obtain ⟨name, v⟩ := e
    rw [writeEntries, h, ih]
    exact Value.legible_pair _ _ _

end

theorem object_perm (depth : Nat) {xs ys : List (String × List Char)} (h : xs.Perm ys)
    (hnames : (xs.map Prod.fst).Nodup) : key.object depth xs = key.object depth ys := by
  have hsorted : key.sorted = true := rfl
  unfold object
  dsimp only
  rw [if_pos hsorted, if_pos hsorted, byName_eq h hnames]

theorem write_perm (depth : Nat) {xs ys : List (String × Value)} (h : xs.Perm ys)
    (hnames : (xs.map Prod.fst).Nodup) :
    key.write depth (.record xs) = key.write depth (.record ys) := by
  obtain ⟨written, hwritten⟩ := Classical.axiomOfChoice
    (@write_legible key rfl rfl (depth + 1))
  have hkept : Value.entriesHaveText xs = Value.entriesHaveText ys := by
    rw [Value.entriesHaveText_eq, Value.entriesHaveText_eq, h.all_eq]
  rw [write, write, writeEntries_eq hwritten, writeEntries_eq hwritten, hkept, Value.legible_map,
    Value.legible_map]
  refine congrArg _ (object_perm depth (h.map _) ?_)
  rw [List.map_map]
  exact hnames

/-- the order of the entries in a value does not show in what is written of it -/
theorem write_reordered {v w : Value} (h : v.Reordered w) (hv : v.JsonLike) (depth : Nat) :
    key.write depth v = key.write depth w := by
  induction h generalizing depth with
  | refl => rfl
  | trans hu _ ihu ihv => exact (ihu hv depth).trans (ihv (hu.jsonLike hv) depth)
  | entries hperm => exact write_perm depth hperm hv.1
  | item before after _ ih =>
    rw [write, write, writeAll_item before after (ih hv.item (depth + 1))]
  | entry before after name _ ih =>
    rw [write, write, writeEntries_entry before after name (ih hv.entry (depth + 1))]

end JsonStyle

end ListQuery
