import ListQuery.Value.Basic
import Mathlib.Data.List.Nodup
import Mathlib.Data.List.Perm.Basic

/-!
# Mappings written over others

What is read from a mapping that was written over another one, in which order it was written, and
what stays in its place.

* `mem_put_iff`                      what is there when one entry is written;
* `read_overlay`, `field?_overlay`   what is read under a name;
* `overlay_split`                    entries in their old places, and the new ones behind them;
* `overlay_perm`                     the order in which entries are written does not change their places.
-/

namespace ListQuery

namespace Value

/-! ## writing one entry -/

section
variable {α : Type} {name other : String} {base : List (String × α)}

theorem map_fst_put (value : α) (h : name ∈ base.map Prod.fst) :
    (put name value base).map Prod.fst = base.map Prod.fst := by
  induction base with
  | nil => cases h
  | cons entry rest ih =>
    obtain ⟨key, old⟩ := entry
    by_cases hkey : key = name
    · rw [put, if_pos hkey, List.map_cons, List.map_cons]
    · rw [List.map_cons, List.mem_cons] at h
      have hrest := h.resolve_left (Ne.symm hkey)
      rw [put, if_neg hkey, List.map_cons, List.map_cons, ih hrest]

theorem put_of_notMem (value : α) (h : name ∉ base.map Prod.fst) :
    put name value base = base ++ [(name, value)] := by
  induction base with
  | nil => rfl
  | cons entry rest ih =>
    obtain ⟨key, old⟩ := entry
    rw [List.map_cons, List.mem_cons, not_or] at h
    rw [put, if_neg (Ne.symm h.1), ih h.2]
    rfl

theorem nodup_put (value : α) (h : (base.map Prod.fst).Nodup) :
    ((put name value base).map Prod.fst).Nodup := by
  by_cases hname : name ∈ base.map Prod.fst
  · rw [map_fst_put value hname]
    exact h
  · rw [put_of_notMem value hname, List.map_append, List.map_singleton, List.nodup_append]
    refine ⟨h, by simp, ?_⟩
    intro key hkey other hother heq
    rw [List.mem_singleton.mp hother] at heq
    have hsame : key = name := heq
    exact hname (hsame ▸ hkey)

theorem mem_put_self (name : String) (value : α) (base : List (String × α)) :
    (name, value) ∈ put name value base := by
  induction base with
  | nil => exact List.mem_singleton_self _
  | cons entry rest ih =>
    rw [put]
    split
    · rename_i hkey
      exact hkey ▸ List.mem_cons_self
    · exact List.mem_cons_of_mem _ ih

theorem mem_put_of_ne {x : α} (hne : name ≠ other) (value : α) (h : (other, x) ∈ base) :
    (other, x) ∈ put name value base := by
  induction base with
  | nil => cases h
  | cons entry rest ih =>
    rw [put]
    split
    · rename_i hkey
      rcases List.mem_cons.mp h with rfl | h
      · exact absurd hkey hne.symm
      · exact List.mem_cons_of_mem _ h
    · rcases List.mem_cons.mp h with rfl | h
      · exact List.mem_cons_self
      · exact List.mem_cons_of_mem _ (ih h)

theorem mem_put {entry : String × α} {value : α} (h : entry ∈ put name value base) :
    entry = (name, value) ∨ entry ∈ base := by
  induction base with
  | nil => exact .inl (List.mem_singleton.mp h)
  | cons e rest ih =>
    obtain ⟨key, old⟩ := e
    rw [put] at h
    split at h
    · rename_i hkey
      subst hkey
      exact (List.mem_cons.mp h).imp_right (List.mem_cons_of_mem _)
    · rcases List.mem_cons.mp h with h | h
      · exact .inr (h ▸ List.mem_cons_self)
      · exact (ih h).imp_right (List.mem_cons_of_mem _)

/-- with every name once, what is under the name is what was written last -/
theorem mem_put_iff {value x : α} (h : (base.map Prod.fst).Nodup) :
    (other, x) ∈ put name value base ↔
      (name, value) = (other, x) ∨ name ≠ other ∧ (other, x) ∈ base := by
  constructor
  · intro hmem
    by_cases hname : name = other
    · -- the names of what is written are as they should be, so there is one entry under the name
      subst hname
      have hself := mem_put_self name value base
      exact .inl (List.inj_on_of_nodup_map (nodup_put value h) hself hmem rfl)
    · exact .inr ⟨hname, (mem_put hmem).resolve_left fun heq => hname (Prod.mk.inj heq).1.symm⟩
  · rintro (heq | ⟨hne, hmem⟩)
    · exact heq ▸ mem_put_self name value base
    · exact mem_put_of_ne hne value hmem

theorem put_append (value : α) (h : name ∈ base.map Prod.fst) (other : List (String × α)) :
    put name value (base ++ other) = put name value base ++ other := by
  induction base with
  | nil => cases h
  | cons entry rest ih =>
    obtain ⟨key, old⟩ := entry
    by_cases hkey : key = name
    · rw [List.cons_append, put, put, if_pos hkey, if_pos hkey, List.cons_append]
    · rw [List.map_cons, List.mem_cons] at h
      have hrest := h.resolve_left (Ne.symm hkey)
      rw [List.cons_append, put, put, if_neg hkey, if_neg hkey, ih hrest, List.cons_append]

end

/-! ## reading -/

variable {name : String} {base other extra : List (String × Value)}

/-- what is read alike under a name is read alike when the same is written over it -/
theorem read_overlay {α : Type} (read : Option Value → α)
    (h : read (field? name base) = read (field? name other)) (extra : List (String × Value)) :
    read (field? name (overlay base extra)) = read (field? name (overlay other extra)) := by
  induction extra generalizing base other with
  | nil => exact h
  | cons entry rest ih =>
    obtain ⟨key, value⟩ := entry
    rw [overlay_cons, overlay_cons]
    apply ih
    by_cases hkey : name = key
    · subst hkey
      rw [field?_put_self, field?_put_self]
    · rw [field?_put_of_ne hkey, field?_put_of_ne hkey]
      exact h

theorem field?_eq_none (h : name ∉ extra.map Prod.fst) : field? name extra = none := by
  induction extra with
  | nil => rfl
  | cons entry rest ih =>
    obtain ⟨key, value⟩ := entry
    rw [List.map_cons, List.mem_cons, not_or] at h
    rw [field?, if_neg (Ne.symm h.1), ih h.2]

theorem field?_overlay_other (h : name ∉ extra.map Prod.fst) :
    field? name (overlay base extra) = field? name base := by
  induction extra generalizing base with
  | nil => rfl
  | cons entry rest ih =>
    obtain ⟨key, value⟩ := entry
    rw [List.map_cons, List.mem_cons, not_or] at h
    rw [overlay_cons, ih h.2, field?_put_of_ne h.1]

theorem field?_overlay (h : (extra.map Prod.fst).Nodup) (base : List (String × Value)) :
    field? name (overlay base extra) = (field? name extra).or (field? name base) := by
  induction extra generalizing base with
  | nil => rfl
  | cons entry rest ih =>
    obtain ⟨key, value⟩ := entry
    rw [List.map_cons, List.nodup_cons] at h
    rw [overlay_cons, ih h.2, field?]
    by_cases hkey : key = name
    · subst hkey
      rw [if_pos rfl, field?_put_self, field?_eq_none h.1]
      rfl
    · rw [if_neg hkey, field?_put_of_ne (Ne.symm hkey)]

theorem field?_overlay_named (v : String → Value) {names : List String}
    (h : name ∈ names ∨ field? name base = some (v name)) :
    field? name (overlay base (names.map fun name => (name, v name))) = some (v name) := by
  induction names generalizing base with
  | nil =>
    rcases h with h | h
    · cases h
    · exact h
  | cons other names ih =>
    rw [List.map_cons, overlay_cons]
    apply ih
    by_cases hname : name = other
    · subst hname
      exact .inr (field?_put_self ..)
    · rw [field?_put_of_ne hname]
      exact h.imp (fun h => (List.mem_cons.mp h).resolve_left hname) id

/-- two mappings in turn, or the second written over the first -/
theorem field?_overlay_overlay {first second : List (String × Value)}
    (h : (first.map Prod.fst).Nodup) (base : List (String × Value)) :
    field? name (overlay (overlay base first) second)
      = field? name (overlay base (overlay first second)) := by
  induction second generalizing first with
  | nil => rfl
  | cons entry rest ih =>
    obtain ⟨key, value⟩ := entry
    rw [overlay_cons, overlay_cons, ← ih (nodup_put value h)]
    apply read_overlay id
    show field? name (put key value (overlay base first))
      = field? name (overlay base (put key value first))
    rw [field?_overlay (nodup_put value h)]
    by_cases hkey : name = key
    · subst hkey
      rw [field?_put_self, field?_put_self, Option.some_or]
    · rw [field?_put_of_ne hkey, field?_put_of_ne hkey, field?_overlay h]

/-! ## places -/

theorem overlay_append (base first second : List (String × Value)) :
    overlay base (first ++ second) = overlay (overlay base first) second := List.foldl_append ..

theorem mem_overlay {entry : String × Value} (h : entry ∈ overlay base extra) :
    entry ∈ extra ∨ entry ∈ base := by
  induction extra generalizing base with
  | nil => exact .inr h
  | cons e rest ih =>
    rcases ih h with h | h
    · exact .inl (List.mem_cons_of_mem _ h)
    · rcases mem_put h with rfl | h
      · exact .inl List.mem_cons_self
      · exact .inr h

theorem put_comm {first second : String} (hne : first ≠ second) (v w : Value)
    (h : first ∈ base.map Prod.fst) :
    put second w (put first v base) = put first v (put second w base) := by
  induction base with
  | nil => cases h
  | cons entry rest ih =>
    obtain ⟨key, old⟩ := entry
    by_cases hfirst : key = first
    · subst hfirst
      rw [put, if_pos rfl, put, if_neg hne, put, if_neg hne, put, if_pos rfl]
    · rw [List.map_cons, List.mem_cons] at h
      have hrest := h.resolve_left (Ne.symm hfirst)
      by_cases hsecond : key = second
      · subst hsecond
        rw [put, if_neg hfirst, put, if_pos rfl, put, if_pos rfl, put, if_neg hfirst]
      · rw [put, if_neg hfirst, put, if_neg hsecond, put, if_neg hsecond, put, if_neg hfirst, ih hrest]

theorem overlay_behind (h : ∀ e ∈ extra, e.1 ∈ base.map Prod.fst) (other : List (String × Value)) :
    overlay (base ++ other) extra = overlay base extra ++ other := by
  induction extra generalizing base with
  | nil => rfl
  | cons entry rest ih =>
    obtain ⟨key, value⟩ := entry
    rw [List.forall_mem_cons] at h
    rw [overlay_cons, overlay_cons, put_append value h.1, ih]
    rw [map_fst_put value h.1]
    exact h.2

theorem overlay_new (h : (extra.map Prod.fst).Nodup) (base : List (String × Value))
    (hnew : ∀ name ∈ extra.map Prod.fst, name ∉ base.map Prod.fst) :
    overlay base extra = base ++ extra := by
  induction extra generalizing base with
  | nil => exact (List.append_nil _).symm
  | cons entry rest ih =>
    obtain ⟨key, value⟩ := entry
    rw [List.map_cons, List.nodup_cons] at h
    rw [List.map_cons, List.forall_mem_cons] at hnew
    rw [overlay_cons, put_of_notMem value hnew.1, ih h.2]
    · exact List.append_assoc _ _ _
    · intro name hname
      rw [List.map_append, List.mem_append, not_or, List.map_singleton, List.mem_singleton]
      exact ⟨hnew.2 name hname, fun heq => h.1 (heq ▸ hname)⟩

/-- an entry whose name is there takes its place; the others come behind all in their order -/
theorem overlay_split (h : (extra.map Prod.fst).Nodup) (base : List (String × Value)) :
    overlay base extra = overlay base (extra.filter (·.1 ∈ base.map Prod.fst))
      ++ extra.filter (·.1 ∉ base.map Prod.fst) := by
  induction extra generalizing base with
  | nil => exact (List.append_nil base).symm
  | cons entry rest ih =>
    obtain ⟨key, value⟩ := entry
    rw [List.map_cons, List.nodup_cons] at h
    rw [overlay_cons, ih h.2]
    by_cases hkey : key ∈ base.map Prod.fst
    · rw [map_fst_put value hkey, List.filter_cons_of_pos (by simpa using hkey),
        List.filter_cons_of_neg (by simpa using hkey), overlay_cons]
    · -- the new name is none of those that follow, so these see the same names as before
      have hsame : ∀ e ∈ rest,
          (e.1 ∈ (put key value base).map Prod.fst ↔ e.1 ∈ base.map Prod.fst) := by
        intro e he
        have hne : e.1 ≠ key := fun heq => h.1 (List.mem_map.mpr ⟨e, he, heq⟩)
        rw [put_of_notMem value hkey, List.map_append, List.mem_append, List.map_singleton,
          List.mem_singleton, or_iff_left hne]
      have hthere : rest.filter (·.1 ∈ (put key value base).map Prod.fst)
          = rest.filter (·.1 ∈ base.map Prod.fst) :=
        List.filter_congr fun e he => decide_eq_decide.mpr (hsame e he)
      have hnew : rest.filter (·.1 ∉ (put key value base).map Prod.fst)
          = rest.filter (·.1 ∉ base.map Prod.fst) :=
        List.filter_congr fun e he => decide_eq_decide.mpr (not_congr (hsame e he))
      have hplaces : ∀ e ∈ rest.filter (·.1 ∈ base.map Prod.fst), e.1 ∈ base.map Prod.fst :=
        fun e he => of_decide_eq_true (List.mem_filter.mp he).2
      rw [hthere, hnew, put_of_notMem value hkey, overlay_behind hplaces,
        List.filter_cons_of_neg (by simpa using hkey), List.filter_cons_of_pos (by simpa using hkey),
        List.append_assoc]
      rfl

/-- entries in their places may be written in any order -/
theorem overlay_perm {other : List (String × Value)} (hperm : extra.Perm other)
    (hnames : (extra.map Prod.fst).Nodup) (h : ∀ e ∈ extra, e.1 ∈ base.map Prod.fst) :
    overlay base extra = overlay base other := by
  induction hperm generalizing base with
  | nil => rfl
  | cons entry hperm ih =>
    obtain ⟨key, value⟩ := entry
    rw [List.map_cons, List.nodup_cons] at hnames
    rw [List.forall_mem_cons] at h
    rw [overlay_cons, overlay_cons]
    apply ih hnames.2
    rw [map_fst_put value h.1]
    exact h.2
  | swap first second rest =>
    obtain ⟨key, value⟩ := first
    obtain ⟨key', value'⟩ := second
    rw [List.map_cons, List.map_cons, List.nodup_cons] at hnames
    rw [List.forall_mem_cons] at h
    have hne : key' ≠ key := fun heq => hnames.1 (heq ▸ List.mem_cons_self)
    rw [overlay_cons, overlay_cons, overlay_cons, overlay_cons, put_comm hne _ _ h.1]
  | trans hperm _ ih ih' =>
    rw [ih hnames h, ih' ((hperm.map Prod.fst).nodup_iff.mp hnames)]
    intro e he
    exact h e (hperm.mem_iff.mpr he)

end Value

end ListQuery
