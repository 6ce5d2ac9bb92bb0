import ListQuery.Collection.Store
import ListQuery.Proofs.Value.Equality

/-!
# Groups of rows

Rows are put behind the first one with an equal key, one row after the other.  What comes out can be
told from the rows alone: the rows that open a group are those whose key equals none before it, and a
group holds the row that opens it and the later ones with an equal key.

* `Store.keyOf`, `Store.opened`   the key of a row, and the groups that rows open;
* `Store.groups_eq`               the groups are the opened ones;
* `Store.opened_apart`            keys of different groups are not equal;
* `Store.opened_perm`             every row is in one group.
-/

namespace ListQuery

namespace Store

/-! ## keys -/

def keyOf (names : List String) (row : Value) : List Value := names.map fun name => row.resolve name

theorem zip_keyOf (names : List String) (row : Value) :
    names.zip (keyOf names row) = names.map fun name => (name, row.resolve name) := by
  induction names with
  | nil => rfl
  | cons name names ih => exact congrArg ((name, row.resolve name) :: ·) ih

theorem groupKey_ite (names : List String) (row : Value) :
    groupKey (names.map .str) row = if Value.hashableAll (keyOf names row) then
      .ok (keyOf names row) else .error .wrongKind := by
  have hkey : ((names.map Value.str).mapM fun name => do return row.resolve (← name.path))
      = .ok (keyOf names row) := by
    rw [List.mapM_map]
    exact Outcome.mapM_of_forall fun name _ => rfl
  unfold groupKey
  rw [hkey, Outcome.ok_bind]
  rfl

theorem groupKey_eq {names : List String} {row : Value}
    (h : Value.hashableAll (keyOf names row) = true) :
    groupKey (names.map .str) row = .ok (keyOf names row) := (groupKey_ite names row).trans (if_pos h)

/-! ## groups told from the rows -/

variable {names : List String}

/-- the groups that rows open behind others with the given keys: a row opens one unless its key
equals that of a row before it, and with it stand the later rows whose keys equal its own -/
def opened (names : List String) :
    (earlier : List (List Value)) → List Value → List (List Value × List Value)
  | _, [] => []
  | earlier, row :: later =>
    let key := keyOf names row
    let others := opened names (key :: earlier) later
    if earlier.any fun other => Value.equalItems other key then others
    else (key, row :: later.filter fun next => Value.equalItems key (keyOf names next)) :: others

/-- groups with keys that can be compared, no two of them equal -/
structure Keyed (groups : List (List Value × List Value)) : Prop where
  hashable : ∀ g ∈ groups, Value.hashableAll g.1 = true
  apart : groups.Pairwise fun g h => Value.equalItems g.1 h.1 = false

def grown (names : List String) (rows : List Value) (g : List Value × List Value) :
    List Value × List Value :=
  (g.1, g.2 ++ rows.filter fun row => Value.equalItems g.1 (keyOf names row))

theorem grown_nil (g : List Value × List Value) : grown names [] g = g := by
  rw [grown, List.filter_nil, List.append_nil]

theorem grown_cons (row : Value) (rows : List Value) (g : List Value × List Value) :
    grown names rows (grown names [row] g) = grown names (row :: rows) g := by
  unfold grown
  rw [List.append_assoc, ← List.filter_append, List.singleton_append]

theorem grown_other {row : Value} {g : List Value × List Value}
    (h : Value.equalItems g.1 (keyOf names row) = false) : grown names [row] g = g := by
  rw [grown, List.filter_cons_of_neg (by rw [h]; decide), List.filter_nil, List.append_nil]

theorem grown_known {row : Value} {g : List Value × List Value}
    (h : Value.equalItems g.1 (keyOf names row) = true) :
    grown names [row] g = (g.1, g.2 ++ [row]) := by
  have hfilter : [row].filter (fun row => Value.equalItems g.1 (keyOf names row)) = [row] :=
    List.filter_cons_of_pos h
  rw [grown, hfilter]

/-! ## one row -/

theorem joinGroup_new {key : List Value} {row : Value} {groups : List (List Value × List Value)}
    (h : ∀ g ∈ groups, Value.equalItems g.1 key = false) :
    joinGroup key row groups = groups ++ [(key, [row])] := by
  induction groups with
  | nil => rfl
  | cons g rest ih =>
    have hother := h g List.mem_cons_self
    rw [joinGroup, if_neg (by rw [hother]; decide), ih fun g hg => h g (List.mem_cons_of_mem _ hg),
      List.cons_append]

/-- a row with a known key joins the one group that has it; the others do not have it -/
theorem joinGroup_known {row : Value} {groups : List (List Value × List Value)} (hgroups : Keyed groups)
    (h : ∃ g ∈ groups, Value.equalItems g.1 (keyOf names row) = true) :
    joinGroup (keyOf names row) row groups = groups.map (grown names [row]) := by
  induction groups with
  | nil => obtain ⟨g, hg, _⟩ := h; cases hg
  | cons g rest ih =>
    obtain ⟨hapart, hrest⟩ := List.pairwise_cons.mp hgroups.apart
    have hkeys := fun g hg => hgroups.hashable g (List.mem_cons_of_mem _ hg)
    rw [joinGroup, List.map_cons]
    by_cases heq : Value.equalItems g.1 (keyOf names row) = true
    · have hothers : rest.map (grown names [row]) = rest := by
        refine (List.map_congr_left fun other hother => grown_other ?_).trans (List.map_id rest)
        rw [← Bool.not_eq_true]
        intro hequal
        have hg := hgroups.hashable g List.mem_cons_self
        have hsymm := Value.equalItems_symm _ _ (hkeys other hother) hequal
        have hboth := Value.equalItems_trans _ _ _ hg heq hsymm
        rw [hapart other hother] at hboth
        cases hboth
      rw [if_pos heq, hothers, grown_known heq]
    · rw [if_neg heq, grown_other (Bool.not_eq_true _ ▸ heq)]
      obtain ⟨found, hfound, hequal⟩ := h
      rcases List.mem_cons.mp hfound with rfl | hfound
      · exact absurd hequal heq
      · rw [ih ⟨hkeys, hrest⟩ ⟨found, hfound, hequal⟩]

/-! ## all rows -/

theorem Keyed.map_grown {groups : List (List Value × List Value)} (h : Keyed groups)
    (rows : List Value) : Keyed (groups.map (grown names rows)) where
  hashable g hg := by
    obtain ⟨known, hknown, rfl⟩ := List.mem_map.mp hg
    exact h.hashable known hknown
  apart := List.pairwise_map.mpr h.apart

theorem Keyed.append {groups : List (List Value × List Value)} (h : Keyed groups) {key : List Value}
    (hkey : Value.hashableAll key = true) (hnew : ∀ g ∈ groups, Value.equalItems g.1 key = false)
    (row : Value) : Keyed (groups ++ [(key, [row])]) where
  hashable g hg := by
    rcases List.mem_append.mp hg with hg | hg
    · exact h.hashable g hg
    · cases List.mem_singleton.mp hg
      exact hkey
  apart := by
    refine List.pairwise_append.mpr ⟨h.apart, List.pairwise_singleton .., fun g hg other hother => ?_⟩
    cases List.mem_singleton.mp hother
    exact hnew g hg

theorem foldlM_joinGroup {rows : List Value} {groups : List (List Value × List Value)}
    {earlier : List (List Value)} (hrows : ∀ row ∈ rows, Value.hashableAll (keyOf names row) = true)
    (hgroups : Keyed groups)
    (hearlier : ∀ key, (earlier.any fun other => Value.equalItems other key)
      = groups.any fun g => Value.equalItems g.1 key) :
    rows.foldlM (fun groups row => do
        return joinGroup (← groupKey (names.map .str) row) row groups) groups
      = .ok (groups.map (grown names rows) ++ opened names earlier rows) := by
  induction rows generalizing groups earlier with
  | nil =>
    have hsame : groups.map (grown names []) = groups :=
      (List.map_congr_left fun g _ => grown_nil g).trans (List.map_id groups)
    rw [hsame, opened, List.append_nil]
    rfl
  | cons row rows ih =>
    have hrow := hrows row List.mem_cons_self
    have hlater := fun later h => hrows later (List.mem_cons_of_mem _ h)
    rw [List.foldlM_cons, groupKey_eq hrow, Outcome.ok_bind]
    show rows.foldlM _ (joinGroup (keyOf names row) row groups) = _
    rw [opened]
    rw [hearlier]
    by_cases hknown : (groups.any fun g => Value.equalItems g.1 (keyOf names row)) = true
    · obtain ⟨known, hg, hequal⟩ := List.any_eq_true.mp hknown
      have hkeys : ∀ key, ((keyOf names row :: earlier).any fun other => Value.equalItems other key)
          = (groups.map (grown names [row])).any fun g => Value.equalItems g.1 key := by
        intro key
        rw [List.any_cons, hearlier, List.any_map]
        -- what equals the key of the row equals that of its group
        have habsorbed : Value.equalItems (keyOf names row) key = true →
            (groups.any fun g => Value.equalItems g.1 key) = true := fun h =>
          List.any_eq_true.mpr ⟨known, hg,
            Value.equalItems_trans _ _ _ (hgroups.hashable known hg) hequal h⟩
        rw [Bool.or_eq_right_iff_imp.mpr habsorbed]
        rfl
      rw [joinGroup_known hgroups ⟨known, hg, hequal⟩, ih hlater (hgroups.map_grown _) hkeys,
        if_pos hknown, List.map_map]
      simp only [Function.comp_def, grown_cons]
    · have hnew : ∀ g ∈ groups, Value.equalItems g.1 (keyOf names row) = false := fun g hg =>
        (Bool.not_eq_true _).mp fun h => hknown (List.any_eq_true.mpr ⟨g, hg, h⟩)
      have hkeys : ∀ key, ((keyOf names row :: earlier).any fun other => Value.equalItems other key)
          = (groups ++ [(keyOf names row, [row])]).any fun g => Value.equalItems g.1 key := by
        intro key
        rw [List.any_cons, hearlier, List.any_append, Bool.or_comm, List.any_cons, List.any_nil,
          Bool.or_false]
      rw [joinGroup_new hnew, ih hlater (hgroups.append hrow hnew row) hkeys, if_neg hknown,
        List.map_append, List.append_assoc]
      have hsame : groups.map (grown names rows) = groups.map (grown names (row :: rows)) :=
        List.map_congr_left fun g hg => by rw [← grown_cons, grown_other (hnew g hg)]
      rw [hsame]
      rfl

/-- rows are put together as they open groups -/
theorem groups_eq {rows : List Value}
    (hrows : ∀ row ∈ rows, Value.hashableAll (keyOf names row) = true) :
    groups (names.map .str) rows = .ok (opened names [] rows) :=
  foldlM_joinGroup hrows ⟨by simp, .nil⟩ fun _ => rfl

/-! ## the groups and the rows -/

theorem mem_opened {earlier : List (List Value)} {rows : List Value} {g : List Value × List Value}
    (h : g ∈ opened names earlier rows) :
    ∃ row ∈ rows, g.1 = keyOf names row ∧ ∃ later, g.2 = row :: later ∧
      (earlier.any fun other => Value.equalItems other g.1) = false := by
  induction rows generalizing earlier with
  | nil => cases h
  | cons row rows ih =>
    have hothers : g ∈ opened names (keyOf names row :: earlier) rows →
        ∃ row' ∈ row :: rows, g.1 = keyOf names row' ∧ ∃ later, g.2 = row' :: later ∧
          (earlier.any fun other => Value.equalItems other g.1) = false := by
      intro hg
      obtain ⟨first, hfirst, hkey, later, hlater, hnone⟩ := ih hg
      rw [List.any_cons, Bool.or_eq_false_iff] at hnone
      exact ⟨first, List.mem_cons_of_mem _ hfirst, hkey, later, hlater, hnone.2⟩
    rw [opened] at h
    split at h
    · exact hothers h
    · rename_i hnone
      rcases List.mem_cons.mp h with rfl | h
      · exact ⟨row, List.mem_cons_self, rfl, _, rfl, (Bool.not_eq_true _).mp hnone⟩
      · exact hothers h

/-- the keys of different groups are not equal -/
theorem opened_apart (earlier : List (List Value)) (rows : List Value) :
    (opened names earlier rows).Pairwise fun g h => Value.equalItems g.1 h.1 = false := by
  induction rows generalizing earlier with
  | nil => exact .nil
  | cons row rows ih =>
    rw [opened]
    split
    · exact ih _
    · refine List.pairwise_cons.mpr ⟨fun g hg => ?_, ih _⟩
      obtain ⟨_, _, _, _, _, hnone⟩ := mem_opened hg
      rw [List.any_cons, Bool.or_eq_false_iff] at hnone
      exact hnone.1

/-- every row that finds no equal key before the rows is in one of the groups that they open -/
theorem opened_perm_filter {earlier : List (List Value)} {rows : List Value}
    (hearlier : ∀ key ∈ earlier, Value.hashableAll key = true)
    (hrows : ∀ row ∈ rows, Value.hashableAll (keyOf names row) = true) :
    ((opened names earlier rows).flatMap Prod.snd).Perm
      (rows.filter fun row => !earlier.any fun other => Value.equalItems other (keyOf names row)) := by
  induction rows generalizing earlier with
  | nil => exact .nil
  | cons row rows ih =>
    have hrow := hrows row List.mem_cons_self
    have hlater := fun later h => hrows later (List.mem_cons_of_mem _ h)
    have hkeys : ∀ key ∈ keyOf names row :: earlier, Value.hashableAll key = true :=
      List.forall_mem_cons.mpr ⟨hrow, hearlier⟩
    have hperm := ih hkeys hlater
    rw [opened]
    by_cases hknown : (earlier.any fun other => Value.equalItems other (keyOf names row)) = true
    · rw [if_pos hknown, List.filter_cons_of_neg (by simpa using hknown)]
      refine hperm.trans (.of_eq (List.filter_congr fun next hnext => ?_))
      obtain ⟨other, hother, hequal⟩ := List.any_eq_true.mp hknown
      rw [List.any_cons, Bool.or_eq_right_iff_imp.mpr]
      intro h
      exact List.any_eq_true.mpr ⟨other, hother,
        Value.equalItems_trans _ _ _ (hearlier other hother) hequal h⟩
    · -- the rows with the key of the row find no equal key before it, as it finds none
      have hfree : ∀ next ∈ rows, Value.equalItems (keyOf names row) (keyOf names next) = true →
          (earlier.any fun other => Value.equalItems other (keyOf names next)) = false := by
        intro next _ hequal
        rw [← Bool.not_eq_true]
        intro hany
        obtain ⟨other, hother, hequal'⟩ := List.any_eq_true.mp hany
        have hsymm := Value.equalItems_symm _ _ hrow hequal
        exact hknown (List.any_eq_true.mpr ⟨other, hother,
          Value.equalItems_trans _ _ _ (hearlier other hother) hequal' hsymm⟩)
      rw [if_neg hknown, List.filter_cons_of_pos (by simpa using hknown), List.flatMap_cons,
        List.cons_append]
      refine .cons row (.trans (.append_left _ hperm) ?_)
      have hsplit := List.filter_append_perm
        (fun next => Value.equalItems (keyOf names row) (keyOf names next))
        (rows.filter fun next => !earlier.any fun other => Value.equalItems other (keyOf names next))
      rw [List.filter_filter, List.filter_filter] at hsplit
      refine .trans (.of_eq ?_) hsplit
      congr 1
      · refine List.filter_congr fun next hnext => ?_
        cases hequal : Value.equalItems (keyOf names row) (keyOf names next)
        · rfl
        · rw [hfree next hnext hequal]
          rfl
      · refine List.filter_congr fun next _ => ?_
        rw [List.any_cons, Bool.not_or]

theorem opened_perm {rows : List Value}
    (hrows : ∀ row ∈ rows, Value.hashableAll (keyOf names row) = true) :
    ((opened names [] rows).flatMap Prod.snd).Perm rows := by
  exact (opened_perm_filter (List.forall_mem_nil _) hrows).trans
    (.of_eq (List.filter_eq_self.mpr fun _ _ => rfl))

end Store

end ListQuery
