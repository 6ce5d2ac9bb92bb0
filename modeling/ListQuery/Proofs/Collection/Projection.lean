import ListQuery.Proofs.Collection.Window
import ListQuery.Proofs.Value.Plain

/-!
# Projections of which JSON keeps the same

Two such projections show the same fields of every row, though those that a mapping selects may come
in another order.

* `Value.Rearranged`     the same value, but for the order of its entries;
* `Outcome.Alike`        the same failure, or answers that stand in a relation;
* `Store.project_alike`  a row under two projections of which JSON keeps the same.
-/

namespace ListQuery

/-- the same value, or records with the same entries in different orders -/
def Value.Rearranged (v w : Value) : Prop :=
  v = w ∨ ∃ xs ys : List (String × Value), v = .record xs ∧ w = .record ys ∧
    (xs.map Prod.fst).Nodup ∧ xs.Perm ys

theorem Value.Rearranged.refl (v : Value) : v.Rearranged v := .inl rfl

namespace Outcome

variable {α β : Type}

/-- both fail in the same way, or their answers are related -/
inductive Alike (R : α → α → Prop) : Outcome α → Outcome α → Prop
  | ok {a b : α} (h : R a b) : Alike R (.ok a) (.ok b)
  | error (e : Fault) : Alike R (.error e) (.error e)

theorem Alike.of_eq {R : α → α → Prop} (hR : ∀ a, R a a) {x y : Outcome α} (h : x = y) :
    Alike R x y := by
  subst h
  cases x with
  | ok a => exact .ok (hR a)
  | error e => exact .error e

theorem Alike.bind {R : α → α → Prop} {Q : β → β → Prop} {x y : Outcome α} {f g : α → Outcome β}
    (h : Alike R x y) (hnext : ∀ a b, R a b → Alike Q (f a) (g b)) : Alike Q (x >>= f) (y >>= g) := by
  cases h with
  | ok hab => exact hnext _ _ hab
  | error e => exact .error e

theorem Alike.after {Q : β → β → Prop} (x : Outcome α) {f g : α → Outcome β}
    (hnext : ∀ a, Alike Q (f a) (g a)) : Alike Q (x >>= f) (x >>= g) := by
  cases x with
  | ok a => exact hnext a
  | error e => exact .error e

theorem Alike.mapM {R : β → β → Prop} {f g : α → Outcome β} (h : ∀ a, Alike R (f a) (g a))
    (xs : List α) : Alike (List.Forall₂ R) (xs.mapM f) (xs.mapM g) := by
  induction xs with
  | nil => exact .ok .nil
  | cons x rest ih =>
    rw [List.mapM_cons, List.mapM_cons]
    apply (h x).bind
    intro a b hab
    apply ih.bind
    intro as bs hrest
    exact .ok (.cons hab hrest)

end Outcome

namespace Store

open Value

def gather (row : Value) (fields : List Value) (entries : List (String × Value)) :
    Outcome (List (String × Value)) :=
  fields.foldlM (fun entries field => do putField field (← field.lookUp row) entries) entries

def shown (selection row : Value) : Outcome Value :=
  selected selection >>= fun fields => Value.record <$> gather row fields []

/-! ## selections by a list -/

theorem putField_kept {v : Value} (h : v.Plain) (row : Value) (entries : List (String × Value)) :
    (v.kept.lookUp row >>= fun x => putField v.kept x entries)
      = (v.lookUp row >>= fun x => putField v x entries) := by
  cases hwhole : v.isWhole with
  | true => rw [kept_whole h hwhole]
  | false =>
    -- a list or a record is no name
    cases v with
    | list items => cases row <;> rfl
    | record fields => cases row <;> rfl
    | _ => cases hwhole

theorem shown_list {items : List Value} (h : PlainAll items) (row : Value) :
    shown (.list (keptAll items)) row = shown (.list items) row := by
  have hfold : ∀ entries, gather row (items.map kept) entries = gather row items entries := by
    rw [plainAll_iff] at h
    induction items with
    | nil => intro entries; rfl
    | cons v rest ih =>
      rw [List.forall_mem_cons] at h
      intro entries
      rw [List.map_cons, gather, List.foldlM_cons, putField_kept h.1]
      exact congrArg _ (funext (ih h.2))
  show Value.record <$> gather row (keptAll items) [] = Value.record <$> gather row items []
  rw [keptAll_eq, hfold]

/-! ## selections by a mapping -/

def chosen (entries : List (String × Value)) : List String :=
  (entries.filter (·.2.truthy)).map Prod.fst

theorem chosen_nodup {entries : List (String × Value)} (h : (entries.map Prod.fst).Nodup) :
    (chosen entries).Nodup := h.sublist (List.filter_sublist.map Prod.fst)

theorem chosen_kept {entries : List (String × Value)} (h : PlainEntries entries) :
    (chosen (JsonStyle.byName (keptEntries entries))).Perm (chosen entries) := by
  have hkept : chosen (keptEntries entries) = chosen entries := by
    unfold chosen
    rw [keptEntries_eq, List.filter_map, List.map_map]
    have hsame : entries.filter ((fun e => e.2.truthy) ∘ fun e : String × Value => (e.1, e.2.kept))
        = entries.filter (·.2.truthy) :=
      List.filter_congr fun e he => truthy_kept (plainEntries_iff.mp h e he)
    rw [hsame]
    rfl
  have hperm := ((JsonStyle.byName_perm (keptEntries entries)).filter (·.2.truthy)).map Prod.fst
  rw [← hkept]
  exact hperm

theorem shownFields_eq {names : List String} (h : names.Nodup) (row : Value) :
    shownFields names row = names.map fun name => (name, row.member name) := by
  have hnames : ((names.map fun name => (name, row.member name)).map Prod.fst).Nodup := by
    rw [List.map_map]
    exact (List.map_id names).symm ▸ h
  have hfold := Value.overlay_new hnames [] fun _ _ => List.not_mem_nil
  rw [Value.overlay, List.foldl_map, List.nil_append] at hfold
  exact hfold

theorem shown_record {entries : List (String × Value)} (h : (entries.map Prod.fst).Nodup)
    (row : Value) :
    shown (.record entries) row = .ok (.record ((chosen entries).map fun name => (name, row.member name))) := by
  have hfields : ((entries.filter (·.2.truthy)).map fun e => Value.str e.1)
      = (chosen entries).map Value.str := by
    rw [chosen, List.map_map]
    rfl
  show Value.record <$> gather row ((entries.filter (·.2.truthy)).map fun e => Value.str e.1) [] = _
  rw [hfields, gather, foldlM_putField]
  show Except.ok (Value.record (shownFields (chosen entries) row)) = _
  rw [shownFields_eq (chosen_nodup h)]

/-! ## projections -/

theorem isWhole_kept {v : Value} (h : v.Plain) : v.kept.isWhole = v.isWhole := by
  cases hwhole : v.isWhole with
  | true => rw [kept_whole h hwhole, hwhole]
  | false =>
    cases v with
    | list items => rfl
    | record entries => rfl
    | _ => cases hwhole

/-- selections of which JSON keeps the same show the same of every row -/
theorem shown_alike {v w : Value} (hv : v.Plain) (hw : w.Plain) (h : v.kept = w.kept) (row : Value) :
    Outcome.Alike Rearranged (shown v row) (shown w row) := by
  have hsame : v.isWhole = w.isWhole := by rw [← isWhole_kept hv, h, isWhole_kept hw]
  cases hwhole : v.isWhole with
  | true =>
    rw [kept_whole hv hwhole, kept_whole hw (hsame ▸ hwhole)] at h
    exact .of_eq Rearranged.refl (by rw [h])
  | false =>
    rw [hwhole] at hsame
    cases v with
    | list xs =>
      cases w with
      | list ys =>
        have hitems : keptAll xs = keptAll ys := Value.list.inj h
        rw [← shown_list hv, hitems, shown_list hw]
        exact .of_eq Rearranged.refl rfl
      | record ys => cases h
      | _ => cases hsame
    | record xs =>
      cases w with
      | list ys => cases h
      | record ys =>
        have hentries : JsonStyle.byName (keptEntries xs) = JsonStyle.byName (keptEntries ys) :=
          Value.record.inj h
        have hperm : (chosen xs).Perm (chosen ys) :=
          (chosen_kept hv.2).symm.trans (hentries ▸ chosen_kept hw.2)
        rw [shown_record hv.1, shown_record hw.1]
        refine .ok (.inr ⟨_, _, rfl, rfl, ?_, hperm.map _⟩)
        rw [List.map_map]
        exact (List.map_id (chosen xs)).symm ▸ chosen_nodup hv.1
      | _ => cases hsame
    | _ => cases hwhole

theorem selection?_kept {p : Value} (h : p.Plain) : selection? p.kept = (selection? p).map kept := by
  cases p with
  | float x => rw [kept_whole h rfl]; rfl
  | record entries => exact field?_kept h.1 "select"
  | _ => rfl

theorem selection?_plain {p selection : Value} (h : p.Plain) (hs : selection? p = some selection) :
    selection.Plain := by
  cases p with
  | record entries => exact plainEntries_iff.mp h.2 _ (mem_of_field? hs)
  | _ => cases hs

theorem project_alike {p q : Value} (hp : p.Plain) (hq : q.Plain) (h : p.kept = q.kept) (row : Value) :
    Outcome.Alike Rearranged (project p row) (project q row) := by
  have hselections : (selection? p).map kept = (selection? q).map kept := by
    rw [← selection?_kept hp, h, selection?_kept hq]
  cases hv : selection? p with
  | none =>
    cases hw : selection? q with
    | none =>
      unfold project
      rw [hv, hw]
      exact .ok (.refl row)
    | some w =>
      rw [hv, hw] at hselections
      cases hselections
  | some v =>
    cases hw : selection? q with
    | none =>
      rw [hv, hw] at hselections
      cases hselections
    | some w =>
      rw [hv, hw] at hselections
      have hkept : v.kept = w.kept := Option.some.inj hselections
      rw [project_select hv, project_select hw]
      exact shown_alike (selection?_plain hp hv) (selection?_plain hq hw) hkept row

end Store

end ListQuery
