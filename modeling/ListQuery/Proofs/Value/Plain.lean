import ListQuery.Proofs.Json.Value
import ListQuery.Proofs.Value.Reordered

/-!
# Values that JSON keeps

JSON keeps a plain value but for the order of the names in its records.

* `Value.Plain`            null, truth values, numbers, texts, and lists and records of them;
* `Value.Plain.regular`    a plain value reads back from JSON;
* `Value.Plain.reordered`  what JSON keeps of it is the value in another order of entries;
* `Value.reordered_of_kept`   so are plain values of which JSON keeps the same.
-/

namespace ListQuery

namespace Value

/-! ## what is kept of entries -/

theorem field?_keptEntries (name : String) (entries : List (String × Value)) :
    field? name (keptEntries entries) = (field? name entries).map kept := by
  induction entries with
  | nil =>
    rw [keptEntries]
    rfl
  | cons e rest ih =>
    obtain ⟨key, old⟩ := e
    rw [keptEntries, field?, field?]
    split
    · rfl
    · exact ih

theorem keptEntries_nodup {entries : List (String × Value)} (h : (entries.map Prod.fst).Nodup) :
    ((keptEntries entries).map Prod.fst).Nodup := by
  have hnames := keptEntries_names entries
  exact hnames ▸ h

theorem field?_kept {entries : List (String × Value)} (h : (entries.map Prod.fst).Nodup)
    (name : String) :
    field? name (JsonStyle.byName (keptEntries entries)) = (field? name entries).map kept := by
  rw [← field?_keptEntries]
  refine field?_perm (JsonStyle.byName_perm _) ?_ name
  exact ((JsonStyle.byName_perm _).map Prod.fst).nodup_iff.mpr (keptEntries_nodup h)

theorem keptAll_eq (items : List Value) : keptAll items = items.map kept := by
  induction items with
  | nil => rw [keptAll]; rfl
  | cons v rest ih => rw [keptAll, ih]; rfl

theorem keptEntries_eq (entries : List (String × Value)) :
    keptEntries entries = entries.map fun e => (e.1, kept e.2) := by
  induction entries with
  | nil => rw [keptEntries]; rfl
  | cons e rest ih => rw [keptEntries, ih]; rfl

/-! ## plain values -/

mutual

/-- a value that JSON knows, but for what is not a number -/
def Plain : Value → Prop
  | .null => True
  | .bool _ => True
  | .int _ => True
  | .float (.finite _ m e) => Binary64.Proper m e
  | .float (.infinity _) => True
  | .str _ => True
  | .list items => PlainAll items
  | .record entries => (entries.map Prod.fst).Nodup ∧ PlainEntries entries
  | _ => False

def PlainAll : List Value → Prop
  | [] => True
  | v :: rest => Plain v ∧ PlainAll rest

def PlainEntries : List (String × Value) → Prop
  | [] => True
  | (_, v) :: rest => Plain v ∧ PlainEntries rest

end

theorem plainAll_iff {items : List Value} : PlainAll items ↔ ∀ v ∈ items, Plain v := by
  induction items with
  | nil =>
    rw [PlainAll]
    exact ⟨fun _ _ h => absurd h List.not_mem_nil, fun _ => trivial⟩
  | cons v rest ih => rw [PlainAll, ih, List.forall_mem_cons]

theorem plainEntries_iff {entries : List (String × Value)} :
    PlainEntries entries ↔ ∀ e ∈ entries, Plain e.2 := by
  induction entries with
  | nil =>
    rw [PlainEntries]
    exact ⟨fun _ _ h => absurd h List.not_mem_nil, fun _ => trivial⟩
  | cons e rest ih => rw [PlainEntries, ih, List.forall_mem_cons]

mutual

theorem Plain.regular : (v : Value) → v.Plain → v.Regular
  | .float (.finite _ _ _), h => h
  | .list items, h => PlainAll.regular items h
  | .record entries, h => ⟨h.1, PlainEntries.regular entries h.2⟩
  | .float (.infinity _), _ | .null, _ | .bool _, _ | .int _, _ | .str _, _ => trivial
  | .float (.nan _), h | .tuple _, h | .set _, h | .date _, h | .instant _, h | .object _, h
  | .pageMeta _, h | .unset, h | .condition _, h | .operation _ _, h | .kind _, h | .zone _, h
  | .duration _, h => False.elim h

theorem PlainAll.regular : (items : List Value) → PlainAll items → RegularAll items
  | [], _ => trivial
  | v :: rest, h => ⟨Plain.regular v h.1, PlainAll.regular rest h.2⟩

theorem PlainEntries.regular :
    (entries : List (String × Value)) → PlainEntries entries → RegularEntries entries
  | [], _ => trivial
  | (_, v) :: rest, h => ⟨Plain.regular v h.1, PlainEntries.regular rest h.2⟩

end

theorem kept_whole {w : Value} (h : w.Plain) (hwhole : w.isWhole = true) : w.kept = w := by
  cases w with
  | float x => cases x <;> first | rfl | exact False.elim h
  | list items => cases hwhole
  | record entries => cases hwhole
  | _ => first | rfl | exact False.elim h

/-! ## the order of entries -/

mutual

theorem Plain.jsonLike : (v : Value) → v.Plain → v.JsonLike
  | .list items, h => PlainAll.jsonLike items h
  | .record entries, h => ⟨h.1, PlainEntries.jsonLike entries h.2⟩
  | .null, _ | .bool _, _ | .int _, _ | .float _, _ | .str _, _ => trivial
  | .tuple _, h | .set _, h | .date _, h | .instant _, h | .object _, h | .pageMeta _, h
  | .unset, h | .condition _, h | .operation _ _, h | .kind _, h | .zone _, h | .duration _, h =>
    False.elim h

theorem PlainAll.jsonLike : (items : List Value) → PlainAll items → JsonLikeAll items
  | [], _ => trivial
  | v :: rest, h => ⟨Plain.jsonLike v h.1, PlainAll.jsonLike rest h.2⟩

theorem PlainEntries.jsonLike :
    (entries : List (String × Value)) → PlainEntries entries → JsonLikeEntries entries
  | [], _ => trivial
  | (_, v) :: rest, h => ⟨Plain.jsonLike v h.1, PlainEntries.jsonLike rest h.2⟩

end

mutual

/-- JSON keeps a plain value but for the order of entries -/
theorem Plain.reordered : (v : Value) → v.Plain → v.Reordered v.kept
  | .list items, h => .of_items (PlainAll.reordered items h)
  | .record entries, h =>
    (Reordered.of_entries (PlainEntries.reordered entries h.2)).trans
      (.entries (JsonStyle.byName_perm _).symm)
  | .float x, h => by
    rw [kept_whole h rfl]
    exact .refl _
  | .null, _ | .bool _, _ | .int _, _ | .str _, _ => .refl _
  | .tuple _, h | .set _, h | .date _, h | .instant _, h | .object _, h | .pageMeta _, h
  | .unset, h | .condition _, h | .operation _ _, h | .kind _, h | .zone _, h | .duration _, h =>
    False.elim h

theorem PlainAll.reordered : (items : List Value) → PlainAll items →
    List.Forall₂ Reordered items (keptAll items)
  | [], _ => .nil
  | v :: rest, h => .cons (Plain.reordered v h.1) (PlainAll.reordered rest h.2)

theorem PlainEntries.reordered : (entries : List (String × Value)) → PlainEntries entries →
    List.Forall₂ SameEntry entries (keptEntries entries)
  | [], _ => .nil
  | (_, v) :: rest, h => .cons ⟨rfl, Plain.reordered v h.1⟩ (PlainEntries.reordered rest h.2)

end

/-- plain values of which JSON keeps the same -/
theorem reordered_of_kept {v w : Value} (hv : v.Plain) (hw : w.Plain) (h : v.kept = w.kept) :
    v.Reordered w := by
  have hv' := Plain.reordered v hv
  rw [h] at hv'
  exact hv'.trans (Plain.reordered w hw).symm

theorem truthy_kept {w : Value} (h : w.Plain) : w.kept.truthy = w.truthy :=
  ((Plain.reordered w h).comparisons (Plain.jsonLike w h)).truthy.symm

end Value

end ListQuery
