import Mathlib.Data.List.Forall2
import Mathlib.Data.List.Nodup
import Mathlib.Data.List.Perm.Basic
import ListQuery.Value.Convert

/-!
# Values with their entries in another order

The entries of the mappings in a value, at any depth, may come in another order.  No comparison with
the value tells.

* `Value.JsonLike`             null, truth values, numbers, texts, dates, lists and mappings of them;
* `Value.Reordered`            the same value, but for the order of entries;
* `Value.Reordered.jsonLike`   such values are of one kind;
* `Value.SameComparisons`      no comparison tells the values apart;
* `Value.Reordered.comparisons`   no comparison tells the order of entries.
-/

namespace ListQuery

namespace Value

/-! ## entries in any order -/

theorem field?_eq_some {name : String} {v : Value} {entries : List (String × Value)}
    (hnames : (entries.map Prod.fst).Nodup) :
    field? name entries = some v ↔ (name, v) ∈ entries := by
  refine ⟨mem_of_field?, ?_⟩
  induction entries with
  | nil => exact fun h => absurd h List.not_mem_nil
  | cons e rest ih =>
    obtain ⟨key, old⟩ := e
    rw [List.map_cons, List.nodup_cons] at hnames
    intro h
    rcases List.mem_cons.mp h with h | h
    · cases h
      exact if_pos rfl
    · have hne : key ≠ name := by
        rintro rfl
        exact hnames.1 (List.mem_map.mpr ⟨_, h, rfl⟩)
      rw [field?, if_neg hne]
      exact ih hnames.2 h

theorem field?_perm {xs ys : List (String × Value)} (h : xs.Perm ys)
    (hnames : (xs.map Prod.fst).Nodup) (name : String) : field? name xs = field? name ys := by
  apply Option.ext
  intro v
  rw [field?_eq_some hnames, field?_eq_some ((h.map Prod.fst).nodup_iff.mp hnames), h.mem_iff]

theorem field?_filter (keep : Value → Bool) {entries : List (String × Value)}
    (h : (entries.map Prod.fst).Nodup) (name : String) :
    field? name (entries.filter fun e => keep e.2) = (field? name entries).filter keep := by
  induction entries with
  | nil => rfl
  | cons e rest ih =>
    obtain ⟨key, v⟩ := e
    rw [List.map_cons, List.nodup_cons] at h
    by_cases hkey : key = name
    · subst hkey
      have hhere : field? key ((key, v) :: rest) = some v := if_pos rfl
      rw [hhere]
      cases hkeep : keep v with
      | true =>
        rw [List.filter_cons_of_pos (p := fun e : String × Value => keep e.2) hkeep,
          Option.filter_some_pos hkeep]
        exact if_pos rfl
      | false =>
        -- no later entry has the name
        have hnone : field? key (rest.filter fun e => keep e.2) = none := by
          cases hfield : field? key (rest.filter fun e => keep e.2) with
          | none => rfl
          | some w =>
            have hmem := List.mem_of_mem_filter (mem_of_field? hfield)
            exact absurd (List.mem_map.mpr ⟨_, hmem, rfl⟩) h.1
        rw [List.filter_cons_of_neg (by simp [hkeep]), hnone, Option.filter_some_neg (by simp [hkeep])]
    · have hthere : field? name ((key, v) :: rest) = field? name rest := if_neg hkey
      rw [hthere, ← ih h.2]
      cases hkeep : keep v with
      | true =>
        rw [List.filter_cons_of_pos (p := fun e : String × Value => keep e.2) hkeep]
        exact if_neg hkey
      | false => rw [List.filter_cons_of_neg (by simp [hkeep])]

/-! ## raw values -/

mutual

/-- a raw value; no mapping in it has a name twice -/
def JsonLike : Value → Prop
  | .null | .bool _ | .int _ | .float _ | .str _ | .date _ | .instant _ => True
  | .list items => JsonLikeAll items
  | .record entries => (entries.map Prod.fst).Nodup ∧ JsonLikeEntries entries
  | _ => False

def JsonLikeAll : List Value → Prop
  | [] => True
  | v :: rest => JsonLike v ∧ JsonLikeAll rest

def JsonLikeEntries : List (String × Value) → Prop
  | [] => True
  | (_, v) :: rest => JsonLike v ∧ JsonLikeEntries rest

end

mutual

def decideJsonLike : (v : Value) → Decidable v.JsonLike
  | .null | .bool _ | .int _ | .float _ | .str _ | .date _ | .instant _ => .isTrue trivial
  | .list items => decideJsonLikeAll items
  | .record entries => @instDecidableAnd _ _ _ (decideJsonLikeEntries entries)
  | .tuple _ | .set _ | .object _ | .pageMeta _ | .unset | .condition _ | .operation _ _ | .kind _
  | .zone _ | .duration _ => .isFalse id

def decideJsonLikeAll : (items : List Value) → Decidable (JsonLikeAll items)
  | [] => .isTrue trivial
  | v :: rest => @instDecidableAnd _ _ (decideJsonLike v) (decideJsonLikeAll rest)

def decideJsonLikeEntries : (entries : List (String × Value)) → Decidable (JsonLikeEntries entries)
  | [] => .isTrue trivial
  | (_, v) :: rest => @instDecidableAnd _ _ (decideJsonLike v) (decideJsonLikeEntries rest)

end

instance : DecidablePred JsonLike := decideJsonLike

theorem jsonLikeAll_iff {items : List Value} : JsonLikeAll items ↔ ∀ v ∈ items, JsonLike v := by
  induction items with
  | nil =>
    rw [JsonLikeAll]
    exact ⟨fun _ _ h => absurd h List.not_mem_nil, fun _ => trivial⟩
  | cons v rest ih => rw [JsonLikeAll, ih, List.forall_mem_cons]

theorem jsonLikeEntries_iff {entries : List (String × Value)} :
    JsonLikeEntries entries ↔ ∀ e ∈ entries, JsonLike e.2 := by
  induction entries with
  | nil =>
    rw [JsonLikeEntries]
    exact ⟨fun _ _ h => absurd h List.not_mem_nil, fun _ => trivial⟩
  | cons e rest ih => rw [JsonLikeEntries, ih, List.forall_mem_cons]

theorem jsonLike_list_iff {items : List Value} :
    (Value.list items).JsonLike ↔ ∀ v ∈ items, JsonLike v := jsonLikeAll_iff

theorem jsonLike_record_iff {entries : List (String × Value)} :
    (Value.record entries).JsonLike ↔
      (entries.map Prod.fst).Nodup ∧ ∀ e ∈ entries, JsonLike e.2 :=
  and_congr_right fun _ => jsonLikeEntries_iff

/-! ## reorderings -/

/-- the same value, but for the order of the entries of mappings in it -/
inductive Reordered : Value → Value → Prop
  | refl (v : Value) : Reordered v v
  | trans {u v w : Value} : Reordered u v → Reordered v w → Reordered u w
  | entries {xs ys : List (String × Value)} : xs.Perm ys → Reordered (.record xs) (.record ys)
  /-- within an item of a list -/
  | item (before after : List Value) {v w : Value} : Reordered v w →
      Reordered (.list (before ++ v :: after)) (.list (before ++ w :: after))
  /-- within what stands under a name -/
  | entry (before after : List (String × Value)) (name : String) {v w : Value} : Reordered v w →
      Reordered (.record (before ++ (name, v) :: after)) (.record (before ++ (name, w) :: after))

section
variable {v w : Value} {name : String} {items before after : List Value}
  {front back : List (String × Value)}

theorem JsonLike.item (h : (Value.list (before ++ v :: after)).JsonLike) : v.JsonLike :=
  jsonLike_list_iff.mp h v (by simp)

theorem JsonLike.entry (h : (Value.record (front ++ (name, v) :: back)).JsonLike) : v.JsonLike :=
  (jsonLike_record_iff.mp h).2 (name, v) (by simp)

theorem JsonLike.set_item (h : (Value.list (before ++ v :: after)).JsonLike) (hw : w.JsonLike) :
    (Value.list (before ++ w :: after)).JsonLike := by
  simp only [jsonLike_list_iff, List.forall_mem_append, List.forall_mem_cons] at h ⊢
  exact ⟨h.1, hw, h.2.2⟩

theorem JsonLike.set_entry (h : (Value.record (front ++ (name, v) :: back)).JsonLike)
    (hw : w.JsonLike) : (Value.record (front ++ (name, w) :: back)).JsonLike := by
  simp only [jsonLike_record_iff, List.forall_mem_append, List.forall_mem_cons, List.map_append,
    List.map_cons] at h ⊢
  exact ⟨h.1, h.2.1, hw, h.2.2.2⟩

theorem Reordered.jsonLike (h : v.Reordered w) (hv : v.JsonLike) : w.JsonLike := by
  induction h with
  | refl => exact hv
  | trans _ _ ihu ihv => exact ihv (ihu hv)
  | entries hperm =>
    obtain ⟨hnames, hparts⟩ := jsonLike_record_iff.mp hv
    exact jsonLike_record_iff.mpr ⟨(hperm.map Prod.fst).nodup_iff.mp hnames,
      fun e he => hparts e (hperm.mem_iff.mpr he)⟩
  | item before after _ ih => exact hv.set_item (ih hv.item)
  | entry before after name _ ih => exact hv.set_entry (ih hv.entry)

theorem Reordered.symm (h : v.Reordered w) : w.Reordered v := by
  induction h with
  | refl => exact .refl _
  | trans _ _ ihu ihv => exact ihv.trans ihu
  | entries hperm => exact .entries hperm.symm
  | item before after _ ih => exact .item before after ih
  | entry before after name _ ih => exact .entry before after name ih

theorem field?_set (front back : List (String × Value)) (name : String) (v w : Value) (field : String) :
    field? field (front ++ (name, v) :: back) = field? field (front ++ (name, w) :: back) ∨
      field? field (front ++ (name, v) :: back) = some v ∧
        field? field (front ++ (name, w) :: back) = some w := by
  induction front with
  | nil =>
    by_cases hname : name = field
    · exact .inr ⟨if_pos hname, if_pos hname⟩
    · left
      show field? field ((name, v) :: back) = field? field ((name, w) :: back)
      rw [field?, field?, if_neg hname, if_neg hname]
  | cons e front ih =>
    rw [List.cons_append, List.cons_append, field?, field?]
    split
    · exact .inl rfl
    · exact ih

theorem jsonLike_field {entries : List (String × Value)} (h : (Value.record entries).JsonLike)
    (name : String) : ((field? name entries).getD .null).JsonLike := by
  rcases hfield : field? name entries with _ | v
  · exact trivial
  · exact (jsonLike_record_iff.mp h).2 _ (mem_of_field? hfield)

end

/-! ## entries and items in turn -/

theorem forall₂_trans {α : Type} {r : α → α → Prop} (hr : ∀ x y z, r x y → r y z → r x z)
    {xs ys zs : List α} (h : List.Forall₂ r xs ys) (h' : List.Forall₂ r ys zs) :
    List.Forall₂ r xs zs := by
  induction h generalizing zs with
  | nil => exact h'
  | cons hxy _ ih =>
    cases h' with
    | cons hyz hrest => exact .cons (hr _ _ _ hxy hyz) (ih hrest)

structure SameEntry (d e : String × Value) : Prop where
  name : d.1 = e.1
  value : d.2.Reordered e.2

section
variable {d e f : String × Value} {xs ys : List (String × Value)} {v w : Value} {name : String}

theorem SameEntry.trans (h : SameEntry d e) (h' : SameEntry e f) : SameEntry d f :=
  ⟨h.name.trans h'.name, h.value.trans h'.value⟩

theorem sameEntries_refl (xs : List (String × Value)) : List.Forall₂ SameEntry xs xs :=
  List.forall₂_same.mpr fun e _ => ⟨rfl, .refl e.2⟩

theorem sameEntries_set (front back : List (String × Value)) (h : v.Reordered w) :
    List.Forall₂ SameEntry (front ++ (name, v) :: back) (front ++ (name, w) :: back) :=
  List.rel_append (sameEntries_refl front) (.cons ⟨rfl, h⟩ (sameEntries_refl back))

theorem sameEntries_names (h : List.Forall₂ SameEntry xs ys) : xs.map Prod.fst = ys.map Prod.fst := by
  induction h with
  | nil => rfl
  | cons hhere _ ih => rw [List.map_cons, List.map_cons, hhere.name, ih]

theorem Reordered.of_entries (h : List.Forall₂ SameEntry xs ys) :
    (Value.record xs).Reordered (.record ys) := by
  have hbehind (front : List (String × Value)) :
      (Value.record (front ++ xs)).Reordered (.record (front ++ ys)) := by
    induction h generalizing front with
    | nil => exact .refl _
    | @cons d e xs ys hhere _ ih =>
      obtain ⟨name, v⟩ := d
      obtain ⟨_, w⟩ := e
      cases hhere.name
      have hrest := ih (front ++ [(name, w)])
      rw [List.append_assoc, List.append_assoc] at hrest
      exact (Reordered.entry front xs name hhere.value).trans hrest
  exact hbehind []

theorem Reordered.of_items {items others : List Value} (h : List.Forall₂ Reordered items others) :
    (Value.list items).Reordered (.list others) := by
  have hbehind (before : List Value) :
      (Value.list (before ++ items)).Reordered (.list (before ++ others)) := by
    induction h generalizing before with
    | nil => exact .refl _
    | @cons v w items others hhere _ ih =>
      have hrest := ih (before ++ [w])
      rw [List.append_assoc, List.append_assoc] at hrest
      exact (Reordered.item before items hhere).trans hrest
  exact hbehind []

end

/-! ## what a value is reordered to -/

/-- a mapping is reordered to a mapping: what stands under each name, and then the names -/
theorem Reordered.matched {xs : List (String × Value)} {w : Value}
    (h : (Value.record xs).Reordered w) :
    ∃ ys zs, w = .record ys ∧ List.Forall₂ SameEntry xs zs ∧ zs.Perm ys := by
  generalize hv : Value.record xs = v at h
  induction h generalizing xs with
  | refl => exact ⟨xs, xs, hv.symm, sameEntries_refl xs, .refl xs⟩
  | trans _ _ ihu ihv =>
    obtain ⟨ys, zs, rfl, hxz, hzy⟩ := ihu hv
    obtain ⟨ys', zs', rfl, hyz', hzy'⟩ := ihv rfl
    obtain ⟨ms, hzm, hmz⟩ := List.perm_comp_forall₂ hzy hyz'
    exact ⟨ys', ms, rfl, forall₂_trans (fun _ _ _ => .trans) hxz hzm, hmz.trans hzy'⟩
  | @entries _ ys hperm =>
    cases hv
    exact ⟨ys, _, rfl, sameEntries_refl _, hperm⟩
  | item => cases hv
  | entry front back name h =>
    cases hv
    exact ⟨_, _, rfl, sameEntries_set front back h, .refl _⟩

theorem Reordered.of_list {xs : List Value} {w : Value} (h : (Value.list xs).Reordered w) :
    ∃ ys, w = .list ys ∧ List.Forall₂ Reordered xs ys := by
  generalize hv : Value.list xs = v at h
  induction h generalizing xs with
  | refl => exact ⟨xs, hv.symm, List.forall₂_same.mpr fun v _ => .refl v⟩
  | trans _ _ ihu ihv =>
    obtain ⟨ys, rfl, hxy⟩ := ihu hv
    obtain ⟨zs, rfl, hyz⟩ := ihv rfl
    exact ⟨zs, rfl, forall₂_trans (fun _ _ _ => .trans) hxy hyz⟩
  | entries => cases hv
  | @item before after v w h _ =>
    cases hv
    have hsame (items : List Value) : List.Forall₂ Reordered items items :=
      List.forall₂_same.mpr fun v _ => .refl v
    exact ⟨_, rfl, List.rel_append (hsame before) (.cons h (hsame after))⟩
  | entry => cases hv

structure SameFields (xs ys : List (String × Value)) : Prop where
  names : (xs.map Prod.fst).Perm (ys.map Prod.fst)
  isSome : ∀ name, (field? name xs).isSome = (field? name ys).isSome
  fields : ∀ name, ((field? name xs).getD .null).Reordered ((field? name ys).getD .null)

namespace SameFields

variable {xs ys zs front back : List (String × Value)} {v w : Value} {name : String}

theorem trans (h : SameFields xs ys) (h' : SameFields ys zs) : SameFields xs zs where
  names := h.names.trans h'.names
  isSome name := (h.isSome name).trans (h'.isSome name)
  fields name := (h.fields name).trans (h'.fields name)

theorem of_perm (h : xs.Perm ys) (hnames : (xs.map Prod.fst).Nodup) : SameFields xs ys where
  names := h.map Prod.fst
  isSome name := by rw [field?_perm h hnames]
  fields name := by
    rw [field?_perm h hnames]
    exact .refl _

theorem of_entries (h : List.Forall₂ SameEntry xs ys) : SameFields xs ys where
  names := .of_eq (sameEntries_names h)
  isSome name := by
    induction h with
    | nil => rfl
    | cons hhere _ ih =>
      rw [field?, field?, hhere.name]
      split
      · rfl
      · exact ih
  fields name := by
    induction h with
    | nil => exact .refl _
    | cons hhere _ ih =>
      rw [field?, field?, hhere.name]
      split
      · exact hhere.value
      · exact ih

theorem of_entry (h : v.Reordered w) :
    SameFields (front ++ (name, v) :: back) (front ++ (name, w) :: back) :=
  of_entries (sameEntries_set front back h)

theorem length_eq (h : SameFields xs ys) : xs.length = ys.length := by
  simpa using h.names.length_eq

theorem nonempty_iff (h : SameFields xs ys) : xs ≠ [] ↔ ys ≠ [] := by
  rw [Ne, Ne, ← List.length_eq_zero_iff, ← List.length_eq_zero_iff, h.length_eq]

theorem all_names (h : SameFields xs ys) (test : String → Bool) :
    (xs.all fun e => test e.1) = ys.all fun e => test e.1 := by
  have hall := h.names.all_eq (f := test)
  rwa [List.all_map, List.all_map] at hall

end SameFields

theorem Reordered.of_record {xs : List (String × Value)} {w : Value}
    (h : (Value.record xs).Reordered w) (hxs : (Value.record xs).JsonLike) :
    ∃ ys, w = .record ys ∧ SameFields xs ys := by
  obtain ⟨ys, zs, rfl, hxz, hzy⟩ := h.matched
  have hnames : (zs.map Prod.fst).Nodup := sameEntries_names hxz ▸ hxs.1
  exact ⟨ys, rfl, (SameFields.of_entries hxz).trans (.of_perm hzy hnames)⟩

/-- a test of all entries that does not tell the order of entries in a value -/
theorem Reordered.all_eq {xs ys : List (String × Value)} (h : (Value.record xs).Reordered (.record ys))
    (hxs : (Value.record xs).JsonLike) {test : String × Value → Bool}
    (htest : ∀ (name : String) {v w : Value}, v.JsonLike → v.Reordered w →
      test (name, v) = test (name, w)) : xs.all test = ys.all test := by
  obtain ⟨_, zs, hys, hxz, hzy⟩ := h.matched
  cases hys
  have hparts := (jsonLike_record_iff.mp hxs).2
  rw [← hzy.all_eq]
  clear h hxs hzy
  induction hxz with
  | nil => rfl
  | @cons d e xs zs hhere _ ih =>
    rw [List.forall_mem_cons] at hparts
    obtain ⟨name, v⟩ := d
    obtain ⟨_, w⟩ := e
    cases hhere.name
    rw [List.all_cons, List.all_cons, htest name hparts.1 hhere.value, ih hparts.2]

def isWhole : Value → Bool
  | .list _ => false
  | .record _ => false
  | _ => true

theorem Reordered.of_whole {v w : Value} (h : v.Reordered w) (hv : v.isWhole = true) : w = v := by
  induction h with
  | refl => rfl
  | trans _ _ ihu ihv =>
    obtain rfl := ihu hv
    exact ihv hv
  | entries | item | entry => cases hv

theorem Reordered.entries_eq {v w : Value} {xs : List (String × Value)} (h : v.Reordered w)
    (hv : v.JsonLike) (hxs : v.entries = .ok xs) :
    ∃ ys, w.entries = .ok ys ∧ (Value.record xs).JsonLike ∧
      (Value.record xs).Reordered (.record ys) := by
  cases v with
  | record entries =>
    cases hxs
    obtain ⟨ys, rfl, _⟩ := h.of_record hv
    exact ⟨ys, rfl, hv, h⟩
  | _ => cases hxs

theorem Reordered.items_eq {v w : Value} {items : List Value} (h : v.Reordered w) (hv : v.JsonLike)
    (hrecord : ∀ entries, v ≠ .record entries) (hitems : v.items = .ok items) :
    ∃ others, w.items = .ok others ∧ (∀ x ∈ items, x.JsonLike) ∧
      List.Forall₂ Reordered items others := by
  cases v with
  | list xs =>
    cases hitems
    obtain ⟨ys, rfl, hxy⟩ := h.of_list
    exact ⟨ys, rfl, jsonLike_list_iff.mp hv, hxy⟩
  | str s =>
    rw [h.of_whole rfl]
    refine ⟨items, hitems, ?_, List.forall₂_same.mpr fun x _ => .refl x⟩
    cases hitems
    intro x hx
    obtain ⟨c, _, rfl⟩ := List.mem_map.mp hx
    exact trivial
  | record entries => exact absurd rfl (hrecord entries)
  | _ => first | exact False.elim hv | cases hitems

/-! ## comparisons -/

/-- no comparison with the values tells them apart -/
structure SameComparisons (v w : Value) : Prop where
  sameNaN : ∀ u, Value.sameNaN u v = Value.sameNaN u w
  equals : ∀ u : Value, u.equals v = u.equals w
  compares : ∀ (r : Relation) (u : Value), u.compares r v = u.compares r w
  isNull : v.isNull = w.isNull
  truthy : v.truthy = w.truthy

namespace SameComparisons

variable {u v w : Value}

theorem refl (v : Value) : SameComparisons v v :=
  ⟨fun _ => rfl, fun _ => rfl, fun _ _ => rfl, rfl, rfl⟩

theorem trans (h : SameComparisons u v) (h' : SameComparisons v w) : SameComparisons u w where
  sameNaN x := (h.sameNaN x).trans (h'.sameNaN x)
  equals x := (h.equals x).trans (h'.equals x)
  compares r x := (h.compares r x).trans (h'.compares r x)
  isNull := h.isNull.trans h'.isNull
  truthy := h.truthy.trans h'.truthy

theorem agrees (h : SameComparisons v w) (x : Value) : x.agrees v = x.agrees w := by
  unfold Value.agrees
  rw [h.sameNaN, h.equals]

theorem record {xs ys : List (String × Value)} (hlength : xs.length = ys.length)
    (hfields : ∀ (name : String) (x : Value), (match field? name xs with
        | some y => x.agrees y
        | none => false) = match field? name ys with
        | some y => x.agrees y
        | none => false) :
    SameComparisons (.record xs) (.record ys) := by
  have hentries (us : List (String × Value)) : allEntriesIn us xs = allEntriesIn us ys := by
    induction us with
    | nil => rfl
    | cons e rest ih =>
      rw [allEntriesIn, allEntriesIn, ih]
      exact congrArg (· && allEntriesIn rest ys) (hfields e.1 e.2)
  have hempty : xs.isEmpty = ys.isEmpty := by
    rw [Bool.eq_iff_iff, List.isEmpty_iff_length_eq_zero, List.isEmpty_iff_length_eq_zero, hlength]
  refine ⟨fun x => ?_, fun x => ?_, fun r x => ?_, rfl, congrArg not hempty⟩
  · cases x <;> rfl
  · cases x with
    | record us =>
      show (us.length == xs.length && allEntriesIn us xs) = _
      rw [hlength, hentries]
      rfl
    | _ => rfl
  · cases x <;> rfl

theorem equalItems_set (h : SameComparisons v w) (before after us : List Value) :
    equalItems us (before ++ v :: after) = equalItems us (before ++ w :: after) := by
  induction before generalizing us with
  | nil =>
    cases us with
    | nil => rfl
    | cons x us => exact congrArg (· && equalItems us after) (h.agrees x)
  | cons b before ih =>
    cases us with
    | nil => rfl
    | cons x us => exact congrArg ((x.agrees b) && ·) (ih us)

theorem comparesItems_set (h : SameComparisons v w) (r : Relation) (before after us : List Value) :
    comparesItems r us (before ++ v :: after) = comparesItems r us (before ++ w :: after) := by
  induction before generalizing us with
  | nil =>
    cases us with
    | nil => rfl
    | cons x us =>
      rw [List.nil_append, List.nil_append, comparesItems, comparesItems, h.agrees, h.compares]
  | cons b before ih =>
    cases us with
    | nil =>
      have hlength : (before ++ v :: after).length = (before ++ w :: after).length := by simp
      show Except.ok (r.holds (compare 0 ((before ++ v :: after).length + 1))) = _
      rw [hlength]
      rfl
    | cons x us => rw [List.cons_append, List.cons_append, comparesItems, comparesItems, ih]

theorem list (before after : List Value) (h : SameComparisons v w) :
    SameComparisons (.list (before ++ v :: after)) (.list (before ++ w :: after)) := by
  refine ⟨fun x => ?_, fun x => ?_, fun r x => ?_, rfl, ?_⟩
  · cases x <;> rfl
  · cases x with
    | list us => exact h.equalItems_set before after us
    | _ => rfl
  · cases x with
    | list us => exact h.comparesItems_set r before after us
    | _ => rfl
  · cases before <;> rfl

end SameComparisons

/-- no comparison tells the order of entries -/
theorem Reordered.comparisons {v w : Value} (h : v.Reordered w) (hv : v.JsonLike) :
    SameComparisons v w := by
  induction h with
  | refl => exact .refl _
  | trans hu _ ihu ihv => exact (ihu hv).trans (ihv (hu.jsonLike hv))
  | entries hperm =>
    refine .record hperm.length_eq fun name x => ?_
    rw [field?_perm hperm hv.1]
  | item before after _ ih => exact .list before after (ih hv.item)
  | @entry before after name v w _ ih =>
    refine .record (by simp) fun field x => ?_
    rcases field?_set before after name v w field with hsame | ⟨hv', hw'⟩
    · rw [hsame]
    · rw [hv', hw']
      exact (ih hv.entry).agrees x

end Value

end ListQuery
