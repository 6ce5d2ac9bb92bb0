import ListQuery.Proofs.Condition.Meaning
import ListQuery.Proofs.Value.Plain

/-!
# Filters as they are written back

The conditions of a filter are written in one of the ways in which the filter could have been
written, and read back they are the same conditions.

* `Condition.raw`, `bare`   no condition stands where a filter's value is read, or none at all;
* `Condition.spelled`     a filter's value as its condition is written;
* `Condition.toValue_ofValue`   the condition of a value is written so;
* `Condition.ofValue_spelled`   and reads back as itself;
* `Condition.spelledRelation`   the same of a relation's filter.
-/

namespace ListQuery

namespace Condition

mutual

/-- no condition stands where a filter's value is read -/
def raw : Value → Bool
  | .condition _ => false
  | .record entries => rawEntries entries
  | _ => true

def rawEntries : List (String × Value) → Bool
  | [] => true
  | (_, v) :: rest => raw v && rawEntries rest

end

mutual

/-- no condition stands anywhere in the value -/
def bare : Value → Bool
  | .condition _ => false
  | .record entries => bareEntries entries
  | .list items => bareItems items
  | .tuple items => bareItems items
  | .set items => bareItems items
  | _ => true

def bareItems : List Value → Bool
  | [] => true
  | v :: rest => bare v && bareItems rest

def bareEntries : List (String × Value) → Bool
  | [] => true
  | (_, v) :: rest => bare v && bareEntries rest

end

mutual

def spelled : Value → Value
  | .tuple items => .list items
  | .set items => .list items
  | .record [(name, payload)] =>
    if name = "from" then .record [("from", payload), ("to", .null)]
    else if name = "to" then .record [("from", .null), ("to", payload)]
    else if name = "not" then .record [("not", payload)]
    else if name ∈ quantifiers then .record [(name, .record (spelledNested payload))]
    else .record [(name, payload)]
  | .record entries =>
    if entries ≠ [] ∧ entries.all fun entry => entry.1 = "from" || entry.1 = "to" then
      .record [("from", (Value.field? "from" entries).getD .null),
        ("to", (Value.field? "to" entries).getD .null)]
    else .record entries
  | v => v

def spelledNested : Value → List (String × Value)
  | .record entries => spelledEntries entries
  | _ => []

def spelledEntries : List (String × Value) → List (String × Value)
  | [] => []
  | (_, .unset) :: rest => spelledEntries rest
  | (name, v) :: rest => (name, spelled v) :: spelledEntries rest

end

theorem spelled_record {entries : List (String × Value)} (h : entries.length ≠ 1) :
    spelled (.record entries) =
      if entries ≠ [] ∧ entries.all fun entry => entry.1 = "from" || entry.1 = "to" then
        .record [("from", (Value.field? "from" entries).getD .null),
          ("to", (Value.field? "to" entries).getD .null)]
      else .record entries := by
  match entries, h with
  | [], _ => rfl
  | [_], h => exact absurd rfl h
  | _ :: _ :: _, _ => rfl

theorem spelled_ne_unset {v : Value} (h : v ≠ .unset) : spelled v ≠ .unset := by
  cases v with
  | record entries =>
    by_cases hone : ∃ name payload, entries = [(name, payload)]
    · obtain ⟨name, payload, rfl⟩ := hone
      rw [spelled]
      repeat' split
      all_goals exact fun h => by cases h
    · rw [spelled_record]
      · split
        all_goals exact fun h => by cases h
      · intro hlength
        obtain ⟨e, rfl⟩ := List.length_eq_one_iff.mp hlength
        exact hone ⟨e.1, e.2, rfl⟩
  | unset => exact absurd rfl h
  | _ => exact fun h => by cases h

/-! ## values without conditions -/

mutual

theorem raw_of_bare : (v : Value) → bare v = true → raw v = true
  | .record entries, h => rawEntries_of_bare entries h
  | .condition _, h => by cases h
  | .null, _ | .bool _, _ | .int _, _ | .float _, _ | .str _, _ | .list _, _ | .tuple _, _ | .set _, _
  | .date _, _ | .instant _, _ | .object _, _ | .pageMeta _, _ | .unset, _ | .operation _ _, _
  | .kind _, _ | .zone _, _ | .duration _, _ => rfl

theorem rawEntries_of_bare : (entries : List (String × Value)) → bareEntries entries = true →
    rawEntries entries = true
  | [], _ => rfl
  | (_, v) :: rest, h => by
    rw [bareEntries, Bool.and_eq_true] at h
    rw [rawEntries, raw_of_bare v h.1, rawEntries_of_bare rest h.2]
    rfl

end

mutual

theorem sound_of_bare : (v : Value) → bare v = true → sound v = true
  | .list items, h | .tuple items, h | .set items, h => itemsSound_of_bare items h
  | .record entries, h => entriesSound_of_bare entries h
  | .condition _, h => by cases h
  | .null, _ | .bool _, _ | .int _, _ | .float _, _ | .str _, _ | .date _, _ | .instant _, _
  | .object _, _ | .pageMeta _, _ | .unset, _ | .operation _ _, _ | .kind _, _ | .zone _, _
  | .duration _, _ => rfl

theorem itemsSound_of_bare : (items : List Value) → bareItems items = true → itemsSound items = true
  | [], _ => rfl
  | v :: rest, h => by
    rw [bareItems, Bool.and_eq_true] at h
    rw [itemsSound, sound_of_bare v h.1, itemsSound_of_bare rest h.2]
    rfl

theorem entriesSound_of_bare : (entries : List (String × Value)) → bareEntries entries = true →
    entriesSound entries = true
  | [], _ => rfl
  | (_, v) :: rest, h => by
    rw [bareEntries, Bool.and_eq_true] at h
    rw [entriesSound, sound_of_bare v h.1, entriesSound_of_bare rest h.2]
    rfl

end

theorem bare_of_mem {items : List Value} (h : bareItems items = true) :
    ∀ v ∈ items, bare v = true := by
  induction items with
  | nil => exact fun _ hv => absurd hv List.not_mem_nil
  | cons v rest ih =>
    rw [bareItems, Bool.and_eq_true] at h
    rw [List.forall_mem_cons]
    exact ⟨h.1, ih h.2⟩

theorem ofRelation_tuple {items : List Value} (h : bareItems items = true) :
    ofRelation (.tuple items) = [] := by
  show (allRelated? items).getD [] = []
  cases items with
  | nil => rfl
  | cons v rest =>
    cases v with
    | condition c => cases h
    | _ => rfl

theorem ofRelation_bare {v : Value} (h : bare v = true) (hrecord : ∀ entries, v ≠ .record entries) :
    ofRelation v = [] := by
  cases v with
  | record entries => exact absurd rfl (hrecord entries)
  | tuple items => exact ofRelation_tuple h
  | condition c => cases h
  | _ => rfl

/-! ## writing -/

mutual

/-- the condition of a value is written in the way it is spelled -/
theorem toValue_ofValue : (v : Value) → raw v = true → (ofValue v).toValue = .ok (spelled v)
  | .condition _, h => by cases h
  | .record [], _ => rfl
  | .record [(name, payload)], h => by
    have hpayload : raw payload = true := (Bool.and_eq_true _ _ ▸ h : _ ∧ _).1
    rw [ofValue, spelled]
    split
    · rfl
    split
    · rfl
    split
    · rfl
    split
    · have hnested := nested_written payload hpayload
      show (do return Value.record [(name, .record (← entriesToValue (asEntries (ofNested payload))))])
        = _
      rw [hnested]
      rfl
    · rfl
  | .record (a :: b :: rest), _ => by
    rw [ofValue_record (by simp), spelled_record (by simp)]
    split <;> rfl
  | .null, _ | .bool _, _ | .int _, _ | .float _, _ | .str _, _ | .list _, _ | .tuple _, _ | .set _, _
  | .date _, _ | .instant _, _ | .object _, _ | .pageMeta _, _ | .unset, _ | .operation _ _, _
  | .kind _, _ | .zone _, _ | .duration _, _ => rfl

theorem nested_written : (v : Value) → raw v = true →
    entriesToValue (asEntries (ofNested v)) = .ok (spelledNested v)
  | .record entries, h => entries_written entries h
  | .condition _, h => by cases h
  | .null, _ | .bool _, _ | .int _, _ | .float _, _ | .str _, _ | .list _, _ | .tuple _, _ | .set _, _
  | .date _, _ | .instant _, _ | .object _, _ | .pageMeta _, _ | .unset, _ | .operation _ _, _
  | .kind _, _ | .zone _, _ | .duration _, _ => rfl

theorem entries_written : (entries : List (String × Value)) → rawEntries entries = true →
    entriesToValue (asEntries (ofEntries entries)) = .ok (spelledEntries entries)
  | [], _ => rfl
  | (name, v) :: rest, h => by
    obtain ⟨hv, hrest⟩ : raw v = true ∧ rawEntries rest = true := by
      rw [rawEntries, Bool.and_eq_true] at h
      exact h
    have hothers := entries_written rest hrest
    by_cases hunset : v = .unset
    · subst hunset
      exact hothers
    · have hhere := toValue_ofValue v hv
      rw [ofEntries, spelledEntries]
      · show (do
          let written ← toValue (ofValue v)
          return (name, written) :: (← entriesToValue (asEntries (ofEntries rest)))) = _
        rw [hhere, hothers]
        rfl
      · exact hunset
      · exact hunset

end

theorem filtersToValue_eq (cs : List (String × Condition)) :
    filtersToValue cs = entriesToValue (asEntries cs) := by
  induction cs with
  | nil => rfl
  | cons e rest ih =>
    show (do
      let written ← e.2.toValue
      return (e.1, written) :: (← filtersToValue rest)) = _
    rw [ih]
    rfl

theorem filtersToValue_ofEntries {entries : List (String × Value)} (h : rawEntries entries = true) :
    filtersToValue (ofEntries entries) = .ok (spelledEntries entries) := by
  rw [filtersToValue_eq, entries_written entries h]

/-! ## reading back -/

mutual

/-- a value and the way it is spelled stand for one condition -/
theorem ofValue_spelled : (v : Value) → ofValue (spelled v) = ofValue v
  | .record [] => rfl
  | .record [(name, payload)] => by
    have hnested := ofNested_spelled payload
    rw [spelled]
    split
    · rename_i hname
      subst hname
      rfl
    split
    · rename_i hname
      subst hname
      rfl
    split
    · rename_i hname
      subst hname
      rfl
    split
    · rename_i hfrom hto hnot hq
      rw [ofValue, ofValue, if_neg hfrom, if_neg hfrom, if_neg hto, if_neg hto, if_neg hnot,
        if_neg hnot, if_pos hq, if_pos hq]
      show Condition.related name (.record (asEntries (ofEntries (spelledNested payload)))) = _
      rw [hnested]
    · rfl
  | .record (a :: b :: rest) => by
    rw [spelled_record (by simp)]
    split
    · rename_i hbounds
      rw [ofValue_record (by simp), ofValue_record (by simp), if_pos hbounds]
      rfl
    · rfl
  | .null | .bool _ | .int _ | .float _ | .str _ | .list _ | .tuple _ | .set _ | .date _ | .instant _
  | .object _ | .pageMeta _ | .unset | .condition _ | .operation _ _ | .kind _ | .zone _
  | .duration _ => rfl

theorem ofNested_spelled : (v : Value) → ofEntries (spelledNested v) = ofNested v
  | .record entries => ofEntries_spelled entries
  | .null | .bool _ | .int _ | .float _ | .str _ | .list _ | .tuple _ | .set _ | .date _ | .instant _
  | .object _ | .pageMeta _ | .unset | .condition _ | .operation _ _ | .kind _ | .zone _
  | .duration _ => rfl

theorem ofEntries_spelled : (entries : List (String × Value)) →
    ofEntries (spelledEntries entries) = ofEntries entries
  | [] => rfl
  | (name, v) :: rest => by
    have hothers := ofEntries_spelled rest
    by_cases hunset : v = .unset
    · subst hunset
      exact hothers
    · rw [spelledEntries, ofEntries, ofEntries, ofValue_spelled v, hothers]
      · exact hunset
      · exact spelled_ne_unset hunset
      · exact hunset

end

/-! ## kinds of values -/

theorem spelledEntries_subset (entries : List (String × Value)) :
    ((spelledEntries entries).map Prod.fst).Sublist (entries.map Prod.fst) := by
  induction entries with
  | nil => exact .refl _
  | cons e rest ih =>
    by_cases hunset : e.2 = .unset
    · obtain ⟨name, v⟩ := e
      cases hunset
      exact ih.cons name
    · rw [spelledEntries]
      · exact ih.cons_cons e.1
      · exact hunset

/-- a kind of values without conditions, that what stands in a list or a mapping is of with it -/
structure Hereditary (P : Value → Prop) : Prop where
  null : P .null
  list {items : List Value} : P (.list items) → ∀ v ∈ items, P v
  record_iff {entries : List (String × Value)} :
    P (.record entries) ↔ (entries.map Prod.fst).Nodup ∧ ∀ e ∈ entries, P e.2
  tuple {items : List Value} : ¬ P (.tuple items)
  set {items : List Value} : ¬ P (.set items)
  unset : ¬ P .unset
  condition {c : Condition} : ¬ P (.condition c)

namespace Hereditary

variable {P : Value → Prop} {v w : Value} {entries : List (String × Value)}

theorem single (hP : Hereditary P) (name : String) (h : P v) : P (.record [(name, v)]) :=
  hP.record_iff.mpr ⟨List.nodup_singleton name, fun e he => by rw [List.mem_singleton.mp he]; exact h⟩

theorem range (hP : Hereditary P) (hlower : P v) (hupper : P w) :
    P (.record [("from", v), ("to", w)]) := by
  rw [hP.record_iff]
  simp only [List.forall_mem_cons]
  exact ⟨(by decide : ["from", "to"].Nodup), hlower, hupper, fun _ h => absurd h List.not_mem_nil⟩

theorem field (hP : Hereditary P) (h : P (.record entries)) (name : String) :
    P ((Value.field? name entries).getD .null) := by
  rcases hfield : Value.field? name entries with _ | v
  · exact hP.null
  · exact (hP.record_iff.mp h).2 _ (Value.mem_of_field? hfield)

mutual

theorem spelled (hP : Hereditary P) : (v : Value) → P v → P (spelled v)
  | .record [], h => h
  | .record [(name, payload)], h => by
    have hpayload : P payload := (hP.record_iff.mp h).2 _ List.mem_cons_self
    rw [Condition.spelled]
    split
    · exact hP.range hpayload hP.null
    split
    · exact hP.range hP.null hpayload
    split
    · exact hP.single "not" hpayload
    split
    · exact hP.single name (hP.nested payload hpayload)
    · exact h
  | .record (a :: b :: rest), h => by
    rw [spelled_record (by simp)]
    split
    · exact hP.range (hP.field h "from") (hP.field h "to")
    · exact h
  | .tuple _, h => absurd h hP.tuple
  | .set _, h => absurd h hP.set
  | .null, h | .bool _, h | .int _, h | .float _, h | .str _, h | .list _, h | .date _, h
  | .instant _, h | .object _, h | .pageMeta _, h | .unset, h | .condition _, h | .operation _ _, h
  | .kind _, h | .zone _, h | .duration _, h => h

theorem nested (hP : Hereditary P) : (v : Value) → P v → P (.record (spelledNested v))
  | .record entries, h =>
    hP.record_iff.mpr ⟨(hP.record_iff.mp h).1.sublist (spelledEntries_subset entries),
      hP.spelled_entries entries (hP.record_iff.mp h).2⟩
  | .null, _ | .bool _, _ | .int _, _ | .float _, _ | .str _, _ | .list _, _ | .tuple _, _
  | .set _, _ | .date _, _ | .instant _, _ | .object _, _ | .pageMeta _, _ | .unset, _
  | .condition _, _ | .operation _ _, _ | .kind _, _ | .zone _, _ | .duration _, _ =>
    hP.record_iff.mpr ⟨List.nodup_nil, fun _ h => absurd h List.not_mem_nil⟩

theorem spelled_entries (hP : Hereditary P) : (entries : List (String × Value)) →
    (∀ e ∈ entries, P e.2) → ∀ e ∈ spelledEntries entries, P e.2
  | [], h => h
  | (name, v) :: rest, h => by
    rw [List.forall_mem_cons] at h
    rw [spelledEntries, List.forall_mem_cons]
    · exact ⟨hP.spelled v h.1, hP.spelled_entries rest h.2⟩
    · rintro rfl
      exact hP.unset h.1

end

mutual

theorem bare (hP : Hereditary P) : (v : Value) → P v → bare v = true
  | .list items, h => hP.bare_items items (hP.list h)
  | .record entries, h => hP.bare_entries entries (hP.record_iff.mp h).2
  | .tuple _, h => absurd h hP.tuple
  | .set _, h => absurd h hP.set
  | .condition _, h => absurd h hP.condition
  | .null, _ | .bool _, _ | .int _, _ | .float _, _ | .str _, _ | .date _, _ | .instant _, _
  | .object _, _ | .pageMeta _, _ | .unset, _ | .operation _ _, _ | .kind _, _ | .zone _, _
  | .duration _, _ => rfl

theorem bare_items (hP : Hereditary P) : (items : List Value) → (∀ v ∈ items, P v) →
    bareItems items = true
  | [], _ => rfl
  | v :: rest, h => by
    rw [List.forall_mem_cons] at h
    rw [bareItems, hP.bare v h.1, hP.bare_items rest h.2]
    rfl

theorem bare_entries (hP : Hereditary P) : (entries : List (String × Value)) →
    (∀ e ∈ entries, P e.2) → bareEntries entries = true
  | [], _ => rfl
  | (_, v) :: rest, h => by
    rw [List.forall_mem_cons] at h
    rw [bareEntries, hP.bare v h.1, hP.bare_entries rest h.2]
    rfl

end

end Hereditary

theorem hereditary_plain : Hereditary Value.Plain where
  null := trivial
  list := Value.plainAll_iff.mp
  record_iff := and_congr_right fun _ => Value.plainEntries_iff
  tuple := id
  set := id
  unset := id
  condition := id

/-! ## relations -/

def named (entries : List (String × Value)) : List String :=
  quantifiers.filter fun q => (Value.field? q entries).isSome

def spelledRelation (entries : List (String × Value)) : List (String × Value) :=
  if named entries ≠ [] ∧ (named entries).length = entries.length then
    (named entries).map fun q =>
      (q, .record (spelledNested ((Value.field? q entries).getD .null)))
  else [("some", .record (spelledEntries entries))]

theorem ofRelationEntries_eq (entries : List (String × Value)) :
    ofRelationEntries entries =
      if named entries ≠ [] ∧ (named entries).length = entries.length then
        (named entries).map fun q =>
          .related q (.record (asEntries (ofNested ((Value.field? q entries).getD .null))))
      else [.related "some" (.record (asEntries (ofEntries entries)))] := rfl

theorem named_nodup (entries : List (String × Value)) : (named entries).Nodup :=
  List.Nodup.filter _ (by decide)

theorem foldlM_related (qs : List String) (nested : String → List (String × Value))
    (written : String → List (String × Value)) (soFar : List (String × Value))
    (hqs : qs.Nodup) (hnew : ∀ q ∈ qs, q ∉ soFar.map Prod.fst)
    (h : ∀ q ∈ qs, entriesToValue (nested q) = .ok (written q)) :
    (qs.map fun q => Condition.related q (.record (nested q))).foldlM (fun entries c => do
        return Value.overlay entries (← (← c.toValue).entries)) soFar
      = (.ok (soFar ++ qs.map fun q => (q, .record (written q))) :
          Outcome (List (String × Value))) := by
  induction qs generalizing soFar with
  | nil =>
    show Except.ok soFar = Except.ok (soFar ++ [])
    rw [List.append_nil]
  | cons q qs ih =>
    rw [List.nodup_cons] at hqs
    rw [List.forall_mem_cons] at hnew h
    have hvalue : (Condition.related q (.record (nested q))).toValue
        = .ok (.record [(q, .record (written q))]) := by
      show (do return Value.record [(q, .record (← entriesToValue (nested q)))]) = _
      rw [h.1]
      rfl
    have hput : Value.overlay soFar [(q, .record (written q))]
        = soFar ++ [(q, .record (written q))] := Value.put_of_notMem _ hnew.1
    rw [List.map_cons, List.foldlM_cons, hvalue]
    show (List.foldlM _ (Value.overlay soFar [(q, .record (written q))]) _) = _
    rw [hput, ih _ hqs.2 ?_ h.2, List.append_assoc]
    · rfl
    · intro name hname
      rw [List.map_append, List.mem_append, not_or]
      refine ⟨hnew.2 name hname, ?_⟩
      show name ∉ [q]
      rw [List.mem_singleton]
      rintro rfl
      exact hqs.1 hname

theorem relationToValue_eq {entries : List (String × Value)} (h : rawEntries entries = true) :
    Request.relationToValue (ofRelationEntries entries) = .ok (.record (spelledRelation entries)) := by
  have hfold : ∀ (qs : List String) (nested written : String → List (String × Value)), qs.Nodup →
      (∀ q ∈ qs, entriesToValue (nested q) = .ok (written q)) →
      Request.relationToValue (qs.map fun q => .related q (.record (nested q)))
        = .ok (.record (qs.map fun q => (q, .record (written q)))) := by
    intro qs nested written hqs hwritten
    unfold Request.relationToValue
    rw [foldlM_related qs nested written [] hqs (fun _ _ => List.not_mem_nil) hwritten]
    rfl
  have hpayload : ∀ q, raw ((Value.field? q entries).getD .null) = true := by
    intro q
    rcases hfield : Value.field? q entries with _ | v
    · rfl
    · have hmem := Value.mem_of_field? hfield
      clear hfield
      induction entries with
      | nil => cases hmem
      | cons e rest ih =>
        rw [rawEntries, Bool.and_eq_true] at h
        rcases List.mem_cons.mp hmem with rfl | hmem
        · exact h.1
        · exact ih h.2 hmem
  rw [ofRelationEntries_eq]
  unfold spelledRelation
  split
  · exact hfold _ _ _ (named_nodup entries) fun q _ => nested_written _ (hpayload q)
  · exact hfold ["some"] (fun _ => asEntries (ofEntries entries)) (fun _ => spelledEntries entries)
      (by decide) fun _ _ => entries_written entries h

theorem field?_map_mem {f : String → Value} {q : String} {qs : List String} :
    Value.field? q (qs.map fun q => (q, f q)) = if q ∈ qs then some (f q) else none := by
  induction qs with
  | nil => rfl
  | cons x qs ih =>
    rw [List.map_cons, Value.field?, ih]
    by_cases hx : x = q
    · subst hx
      simp
    · simp [hx, Ne.symm hx]

/-- a relation's filter and the way it is spelled stand for the same conditions -/
theorem ofRelation_spelled (entries : List (String × Value)) :
    ofRelationEntries (spelledRelation entries) = ofRelationEntries entries := by
  unfold spelledRelation
  split
  · rename_i hnamed
    have hsame : named ((named entries).map fun q =>
        (q, Value.record (spelledNested ((Value.field? q entries).getD .null)))) = named entries := by
      conv_lhs => unfold named
      simp only [field?_map_mem]
      unfold named
      apply List.filter_congr
      intro q hq
      by_cases hsome : (Value.field? q entries).isSome = true
      · rw [if_pos (List.mem_filter.mpr ⟨hq, hsome⟩), hsome]
        rfl
      · have hmem : q ∉ List.filter (fun q => (Value.field? q entries).isSome) quantifiers :=
          fun hmem => hsome (List.mem_filter.mp hmem).2
        rw [if_neg hmem]
        simpa using hsome
    rw [ofRelationEntries_eq, hsame, List.length_map, if_pos ⟨hnamed.1, rfl⟩, ofRelationEntries_eq,
      if_pos hnamed]
    apply List.map_congr_left
    intro q hq
    rw [field?_map_mem, if_pos hq]
    show Condition.related q (.record (asEntries (ofEntries (spelledNested _)))) = _
    rw [ofNested_spelled]
  · rename_i hnamed
    have hspelled := ofEntries_spelled entries
    have hsome : named [("some", Value.record (spelledEntries entries))] = ["some"] := rfl
    rw [ofRelationEntries_eq, hsome, if_pos ⟨List.cons_ne_nil _ _, rfl⟩, ofRelationEntries_eq,
      if_neg hnamed]
    show [Condition.related "some" (.record (asEntries (ofEntries (spelledEntries entries))))] = _
    rw [hspelled]

theorem Hereditary.relation {P : Value → Prop} (hP : Hereditary P) {entries : List (String × Value)}
    (h : P (.record entries)) : P (.record (spelledRelation entries)) := by
  unfold spelledRelation
  split
  · refine hP.record_iff.mpr ⟨?_, fun e he => ?_⟩
    · rw [List.map_map]
      show ((named entries).map id).Nodup
      rw [List.map_id]
      exact named_nodup entries
    · obtain ⟨q, _, rfl⟩ := List.mem_map.mp he
      exact hP.nested _ (hP.field h q)
  · exact hP.single "some" (hP.nested (.record entries) h)

end Condition

end ListQuery
