import ListQuery.Proofs.Condition.Supplied
import ListQuery.Proofs.Predicate.Compiled
import ListQuery.Proofs.Value.Reordered

/-!
# Trees of filters with values that were never supplied

A value that was never supplied is not left out of a filter unless it is that of a field: as a bound of
a range, as what a value is to differ from, or within a mapping to compare with, it is compared with
like any other value, and for the filter on related records it asks for any record.  So the tree shows
it, and only there.

* `Predicate.operands`              what the comparisons of a tree compare with;
* `Condition.present_entries`       a complete filter compares with nothing that was not supplied;
* `Condition.grows_entries`         without what was not supplied a filter compares with as much, and
                                    with more where it lacked more than fields;
* `Predicate.untraced_iff_fieldwise`  where what was not supplied leaves no trace;
* `Predicate.bound_traced`          bounds and differences that do.
-/

namespace ListQuery

namespace Condition

/-! ## what a filter's conditions compare with -/

/-- what a condition compares the value at its path with -/
def terms : Condition → List Value
  | .exact v => [v]
  | .oneOf vs => [.tuple vs]
  | .range lower upper => [lower, upper].filter fun bound => !bound.isNull
  | .flag v => [v]
  | .differs v => [v]
  | .related _ _ => []

end Condition

namespace Predicate

def operands (p : Predicate) : List Value := p.comparisons.map fun c => c.2.2

end Predicate

namespace Condition

def operands (cs : List (String × Condition)) : List Value :=
  cs.flatMap fun e => (e.2.tree e.1).operands

theorem operands_all (cs : List (String × Condition)) :
    (Predicate.all (trees cs)).operands = operands cs := by
  rw [Predicate.operands, comparisons_trees, asked, List.map_flatMap]
  rfl

theorem tree_plain (path : String) {c : Condition} (h : c.isRelated = false) :
    c.tree path = Predicate.ofPlain path c := by
  cases c with
  | related => cases h
  | _ =>
    rw [tree]
    simp

theorem operands_plain (path : String) {c : Condition} (h : c.isRelated = false) :
    (c.tree path).operands = c.terms := by
  rw [tree_plain path h]
  cases c with
  | related => cases h
  | range lower upper =>
    show (Predicate.ofRange path lower upper).comparisons.map (·.2.2) = _
    rw [Predicate.ofRange, Predicate.comparisons_all, terms, List.filter_cons, List.filter_cons]
    cases lower.isNull <;> cases upper.isNull <;> rfl
  | exact v | differs v => cases v <;> rfl
  | _ => rfl

theorem entryTrees_asEntries (cs : List (String × Condition)) :
    entryTrees (asEntries cs) = trees cs := by
  induction cs with
  | nil => rfl
  | cons e rest ih =>
    show e.2.tree e.1 :: entryTrees (asEntries rest) = _
    rw [ih]
    rfl

theorem operands_quantified {q : String} (hq : q ∈ quantifiers) (payload : Value) (path : String) :
    ((ofValue (.record [(q, payload)])).tree path).operands = operands (ofNested payload) := by
  rw [Predicate.ofValue_quantified hq, tree, ← operands_all, nestedTree, entryTrees_asEntries]
  rfl

theorem operands_cons (e : String × Condition) (rest : List (String × Condition)) :
    operands (e :: rest) = (e.2.tree e.1).operands ++ operands rest := List.flatMap_cons

theorem terms_range (lower upper : Value) :
    (∀ w ∈ (Condition.range lower upper).terms, w.Present) ↔ lower.Present ∧ upper.Present := by
  have hbound : ∀ v : Value, (v.isNull = false → v.Present) ↔ v.Present := by
    intro v
    refine ⟨fun h => ?_, fun h _ => h⟩
    cases v with
    | null => exact ⟨rfl, rfl⟩
    | _ => exact h rfl
  simp only [terms, List.mem_filter, Bool.not_eq_true', and_imp, List.forall_mem_cons,
    List.not_mem_nil, false_implies, implies_true, and_true, hbound]

theorem terms_single {name : String} (hname : name ∉ quantifiers) (payload : Value) :
    (∀ w ∈ (ofValue (.record [(name, payload)])).terms, w.Present)
      ↔ Value.completeEntries [(name, payload)] = true := by
  have hpayload : Value.completeEntries [(name, payload)] = true ↔ payload.Present :=
    Value.completeEntries_cons.trans (and_iff_left rfl)
  have hnull : Value.null.Present := ⟨rfl, rfl⟩
  rw [ofValue, if_neg hname]
  split
  · rw [hpayload, terms_range, and_iff_left hnull]
  split
  · rw [hpayload, terms_range, and_iff_right hnull]
  split
  · rw [hpayload]
    exact List.forall_mem_singleton
  · exact List.forall_mem_singleton.trans (and_iff_right rfl)

theorem present_bound {entries : List (String × Value)} (h : Value.completeEntries entries = true)
    (name : String) : ((Value.field? name entries).getD .null).Present := by
  rcases hfield : Value.field? name entries with _ | v
  · exact ⟨rfl, rfl⟩
  · exact Value.completeEntries_iff.mp h _ (Value.mem_of_field? hfield)

theorem complete_of_bounds {entries : List (String × Value)} (hnodup : (entries.map Prod.fst).Nodup)
    (hnames : (entries.all fun e => e.1 = "from" || e.1 = "to") = true)
    (hlower : ((Value.field? "from" entries).getD .null).Present)
    (hupper : ((Value.field? "to" entries).getD .null).Present) :
    Value.completeEntries entries = true := by
  refine Value.completeEntries_iff.mpr fun e he => ?_
  have hfield : Value.field? e.1 entries = some e.2 := (Value.field?_eq_some hnodup).mpr he
  have hname := List.all_eq_true.mp hnames e he
  rw [Bool.or_eq_true, decide_eq_true_eq, decide_eq_true_eq] at hname
  rcases hname with hname | hname
  · rw [← hname, hfield] at hlower
    exact hlower
  · rw [← hname, hfield] at hupper
    exact hupper

theorem present_several {entries : List (String × Value)} (hmany : entries.length ≠ 1)
    (h : Value.completeEntries entries = true) :
    ∀ w ∈ (ofValue (.record entries)).terms, w.Present := by
  rw [ofValue_record hmany]
  split
  · exact (terms_range _ _).mpr ⟨present_bound h "from", present_bound h "to"⟩
  · exact List.forall_mem_singleton.mpr ⟨rfl, h⟩

theorem complete_several {entries : List (String × Value)} (hmany : entries.length ≠ 1)
    (hnodup : (entries.map Prod.fst).Nodup)
    (h : ∀ w ∈ (ofValue (.record entries)).terms, w.Present) :
    Value.completeEntries entries = true := by
  rw [ofValue_record hmany] at h
  split at h
  · rename_i hrange
    obtain ⟨hlower, hupper⟩ := (terms_range _ _).mp h
    exact complete_of_bounds hnodup hrange.2 hlower hupper
  · exact (List.forall_mem_singleton.mp h).2

theorem terms_plain {v : Value} (hbare : bare v = true) (hrecord : ∀ entries, v ≠ .record entries) :
    ∃ w, (ofValue v).terms = [w] ∧ w.complete = v.complete ∧ w.isUnset = v.isUnset := by
  cases v with
  | record entries => exact absurd rfl (hrecord entries)
  | condition => cases hbare
  | _ => exact ⟨_, rfl, rfl, rfl⟩

/-- without a quantifier, what is compared with is present if the whole value is -/
theorem present_unquantified {v : Value} (hbare : bare v = true) (hunset : v.isUnset = false)
    (hplain : quantifies v = false) (h : v.complete = true) :
    ∀ w ∈ (ofValue v).terms, w.Present := by
  rcases unquantified_cases hplain with ⟨name, payload, hname, rfl⟩ | ⟨entries, hmany, rfl⟩ | hrecord
  · exact (terms_single hname payload).mpr h
  · exact present_several hmany h
  · obtain ⟨w, hw, hcomplete, hwunset⟩ := terms_plain hbare hrecord
    rw [hw]
    exact List.forall_mem_singleton.mpr ⟨hwunset.trans hunset, hcomplete.trans h⟩

theorem complete_unquantified {v : Value} (hbare : bare v = true) (hnamed : v.Named)
    (hplain : quantifies v = false) (h : ∀ w ∈ (ofValue v).terms, w.Present) :
    v.complete = true := by
  rcases unquantified_cases hplain with ⟨name, payload, hname, rfl⟩ | ⟨entries, hmany, rfl⟩ | hrecord
  · exact (terms_single hname payload).mp h
  · exact complete_several hmany hnamed.1 h
  · obtain ⟨w, hw, hcomplete, _⟩ := terms_plain hbare hrecord
    rw [hw] at h
    exact hcomplete.symm.trans (List.forall_mem_singleton.mp h).2

/-! ## complete filters -/

theorem present_plain (path : String) {v : Value} (hbare : bare v = true)
    (hunset : v.isUnset = false) (hplain : quantifies v = false) (h : v.complete = true) :
    ∀ w ∈ ((ofValue v).tree path).operands, w.Present := by
  rw [operands_plain path (isRelated_of_unquantified hbare hplain)]
  exact present_unquantified hbare hunset hplain h

mutual

theorem present_tree (path : String) : (v : Value) → bare v = true → v.isUnset = false →
    v.complete = true → ∀ w ∈ ((ofValue v).tree path).operands, w.Present
  | .record [(name, payload)], hbare, hunset, h => by
    by_cases hq : name ∈ quantifiers
    · rw [operands_quantified hq]
      have hpayload : bare payload = true := bare_of_mem_entries hbare _ List.mem_cons_self
      exact present_nested payload hpayload (Value.completeEntries_iff.mp h _ List.mem_cons_self).2
    · exact present_plain path hbare hunset (decide_eq_false hq) h
  | .record [], hbare, hunset, h | .record (_ :: _ :: _), hbare, hunset, h
  | .null, hbare, hunset, h | .bool _, hbare, hunset, h | .int _, hbare, hunset, h
  | .float _, hbare, hunset, h | .str _, hbare, hunset, h | .list _, hbare, hunset, h
  | .tuple _, hbare, hunset, h | .set _, hbare, hunset, h | .date _, hbare, hunset, h
  | .instant _, hbare, hunset, h | .object _, hbare, hunset, h | .pageMeta _, hbare, hunset, h
  | .unset, hbare, hunset, h | .condition _, hbare, hunset, h | .operation _ _, hbare, hunset, h
  | .kind _, hbare, hunset, h | .zone _, hbare, hunset, h | .duration _, hbare, hunset, h =>
    present_plain path hbare hunset rfl h

theorem present_nested : (payload : Value) → bare payload = true → payload.complete = true →
    ∀ w ∈ operands (ofNested payload), w.Present
  | .record filter, hbare, h => present_entries filter hbare h
  | .null, _, _ | .bool _, _, _ | .int _, _, _ | .float _, _, _ | .str _, _, _ | .list _, _, _
  | .tuple _, _, _ | .set _, _, _ | .date _, _, _ | .instant _, _, _ | .object _, _, _
  | .pageMeta _, _, _ | .unset, _, _ | .condition _, _, _ | .operation _ _, _, _ | .kind _, _, _
  | .zone _, _, _ | .duration _, _, _ => fun _ hw => absurd hw List.not_mem_nil

/-- a complete filter compares with nothing that was not supplied -/
theorem present_entries : (filter : List (String × Value)) → bareEntries filter = true →
    Value.completeEntries filter = true → ∀ w ∈ operands (ofEntries filter), w.Present
  | [], _, _ => fun _ hw => absurd hw List.not_mem_nil
  | (name, v) :: rest, hbare, h => by
    rw [bareEntries, Bool.and_eq_true] at hbare
    obtain ⟨⟨hunset, hv⟩, hrest⟩ := Value.completeEntries_cons.mp h
    rw [ofEntries_cons, hunset, if_neg Bool.false_ne_true, operands_cons, List.forall_mem_append]
    exact ⟨present_tree name v hbare.1 hunset hv, present_entries rest hbare.2 hrest⟩

end

/-! ## what comes in where more than fields was not supplied -/

/-- as much is compared with on the right as on the left, and more unless a property holds -/
def Grows (left right : List Value) (stays : Bool) : Prop :=
  left.length ≤ right.length ∧ (left.length = right.length → stays = true)

theorem Grows.same (xs : List Value) {b : Bool} (h : b = true) : Grows xs xs b :=
  ⟨Nat.le_refl _, fun _ => h⟩

theorem Grows.append {xs ys us vs : List Value} {a b : Bool} (h : Grows xs ys a)
    (h' : Grows us vs b) : Grows (xs ++ us) (ys ++ vs) (a && b) := by
  obtain ⟨hle, hstays⟩ := h
  obtain ⟨hle', hstays'⟩ := h'
  rw [Grows, List.length_append, List.length_append, Bool.and_eq_true]
  exact ⟨by omega, fun heq => ⟨hstays (by omega), hstays' (by omega)⟩⟩

def ValueGrows (path : String) (v : Value) : Prop :=
  (∀ w ∈ ((ofValue v).tree path).operands, w.Present) → vacant v = false ∧
    Grows ((ofValue v).tree path).operands ((ofValue (occupied v).supplied).tree path).operands
      (fieldwise v)

theorem grows_plain (path : String) {v : Value} (hbare : bare v = true) (hnamed : v.Named)
    (hplain : quantifies v = false) : ValueGrows path v := by
  intro h
  rw [operands_plain path (isRelated_of_unquantified hbare hplain)] at h
  have hcomplete := complete_unquantified hbare hnamed hplain h
  rw [occupied_of_complete v hcomplete, Value.supplied_of_complete v hcomplete]
  exact ⟨vacant_of_complete hcomplete, .same _ ((fieldwise_of_unquantified hplain).trans hcomplete)⟩

mutual

theorem grows_value (path : String) : (v : Value) → bare v = true → v.Named → ValueGrows path v
  | .record [(name, payload)], hbare, hnamed => by
    by_cases hq : name ∈ quantifiers
    · intro h
      rw [operands_quantified hq] at h ⊢
      refine ⟨vacant_quantified hq payload, ?_⟩
      rw [fieldwise, if_pos hq]
      cases hunset : payload.isUnset with
      | true =>
        -- the quantifier asks for any record, where an empty mapping is compared with
        cases Value.isUnset_iff.mp hunset
        rw [occupied_quantified hq]
        exact ⟨Nat.zero_le _, fun h => by cases h⟩
      | false =>
        rw [ofValue_supplied_quantified hq hunset, ← Predicate.ofValue_quantified hq,
          operands_quantified hq]
        exact grows_nested payload (bare_of_mem_entries hbare _ List.mem_cons_self) hnamed.2.1 hunset h
    · exact grows_plain path hbare hnamed (decide_eq_false hq)
  | .record [], hbare, hnamed | .record (_ :: _ :: _), hbare, hnamed
  | .null, hbare, hnamed | .bool _, hbare, hnamed | .int _, hbare, hnamed
  | .float _, hbare, hnamed | .str _, hbare, hnamed | .list _, hbare, hnamed
  | .tuple _, hbare, hnamed | .set _, hbare, hnamed | .date _, hbare, hnamed
  | .instant _, hbare, hnamed | .object _, hbare, hnamed | .pageMeta _, hbare, hnamed
  | .unset, hbare, hnamed | .condition _, hbare, hnamed | .operation _ _, hbare, hnamed
  | .kind _, hbare, hnamed | .zone _, hbare, hnamed | .duration _, hbare, hnamed =>
    grows_plain path hbare hnamed rfl

theorem grows_nested : (payload : Value) → bare payload = true → payload.Named →
    payload.isUnset = false → (∀ w ∈ operands (ofNested payload), w.Present) →
    Grows (operands (ofNested payload)) (operands (ofNested (occupiedNested payload).supplied))
      (fieldwiseNested payload)
  | .record filter, hbare, hnamed, _, h => grows_entries filter hbare hnamed.2 h
  | .null, _, _, _, _ | .bool _, _, _, _, _ | .int _, _, _, _, _ | .float _, _, _, _, _
  | .str _, _, _, _, _ | .list _, _, _, _, _ | .tuple _, _, _, _, _ | .set _, _, _, _, _
  | .date _, _, _, _, _ | .instant _, _, _, _, _ | .object _, _, _, _, _ | .pageMeta _, _, _, _, _
  | .condition _, _, _, _, _ | .operation _ _, _, _, _, _ | .kind _, _, _, _, _
  | .zone _, _, _, _, _ | .duration _, _, _, _, _ => .same _ rfl

theorem grows_entries : (filter : List (String × Value)) → bareEntries filter = true →
    Value.NamedEntries filter → (∀ w ∈ operands (ofEntries filter), w.Present) →
    Grows (operands (ofEntries filter)) (operands (ofEntries (suppliedEntries filter)))
      (fieldwiseEntries filter)
  | [], _, _, _ => .same _ rfl
  | (name, v) :: rest, hbare, hnamed, h => by
    rw [bareEntries, Bool.and_eq_true] at hbare
    have hrest := grows_entries rest hbare.2 hnamed.2
    rw [ofEntries_cons] at h ⊢
    rw [ofEntries_suppliedEntries, fieldwiseEntries]
    cases hunset : v.isUnset with
    | true =>
      rw [hunset, if_pos rfl] at h
      rw [if_pos rfl, Bool.true_or, Bool.true_or, Bool.true_and, if_pos rfl]
      exact hrest h
    | false =>
      rw [hunset, if_neg Bool.false_ne_true, operands_cons, List.forall_mem_append] at h
      obtain ⟨hvacant, hhere⟩ := grows_value name v hbare.1 hnamed.1 h.1
      rw [hvacant, Bool.or_false, if_neg Bool.false_ne_true, if_neg Bool.false_ne_true, operands_cons,
        operands_cons, Bool.false_or]
      exact hhere.append (hrest h.2)

end

end Condition

/-! ## where what was not supplied leaves no trace -/

namespace Predicate

variable {filter : List (String × Value)}

/-- A filter is compiled as the filter without what was never supplied exactly if nothing but fields
was not supplied: fields of the filter itself, or of the filter that one quantifier asks of related
records, to any depth.  The other tree compares with nothing that was not supplied, so neither does
this one then. -/
theorem untraced_iff_fieldwise (hbare : Condition.bareEntries filter = true)
    (hnamed : Value.Named (.record filter)) :
    ∃ p q, ofFilters (.record filter) = .ok p ∧
      ofFilters (.record (Condition.suppliedEntries filter)) = .ok q ∧
      (p = q ↔ Condition.fieldwiseEntries filter = true) ∧ ∀ w ∈ q.operands, w.Present := by
  have hsupplied := Condition.bareEntries_suppliedEntries hbare
  have hpresent : ∀ w ∈ Condition.operands
      (Condition.ofEntries (Condition.suppliedEntries filter)), w.Present :=
    Condition.present_entries _ hsupplied (Value.completeEntries_supplied _)
  refine ⟨_, _, ofFilters_bare hbare, ofFilters_bare hsupplied, ⟨fun heq => ?_, fun h => ?_⟩, ?_⟩
  · have hoperands := congrArg operands heq
    rw [Condition.operands_all, Condition.operands_all] at hoperands
    have hgrows := Condition.grows_entries filter hbare hnamed.2 (hoperands ▸ hpresent)
    exact hgrows.2 (congrArg List.length hoperands)
  · rw [Condition.ofEntries_supplied filter h]
  · rw [Condition.operands_all]
    exact hpresent

/-- a field of a filter, and one of the filter on related records, that were not supplied -/
theorem untraced_draft :
    let filter : List (String × Value) :=
      [("age", .unset), ("name", .str "ada"),
        ("posts", .record [("some", .record [("draft", .unset), ("title", .str "x")])])]
    let given : List (String × Value) :=
      [("name", .str "ada"), ("posts", .record [("some", .record [("title", .str "x")])])]
    Condition.bareEntries filter = true ∧ Value.Named (.record filter) ∧
      ∃ p, ofFilters (.record filter) = .ok p ∧ ofFilters (.record given) = .ok p ∧
        ∀ w ∈ p.operands, w.Present := by
  intro filter given
  have hnamed : Value.Named (.record filter) := by
    refine ⟨(by decide : ["age", "name", "posts"].Nodup), trivial, trivial, ?_, trivial⟩
    refine ⟨List.nodup_singleton _, ⟨?_, trivial, trivial, trivial⟩, trivial⟩
    exact (by decide : ["draft", "title"].Nodup)
  obtain ⟨p, q, hp, hq, hiff, hpresent⟩ := @untraced_iff_fieldwise filter rfl hnamed
  have heq : p = q := hiff.mpr rfl
  exact ⟨rfl, hnamed, q, heq ▸ hp, hq, hpresent⟩

/-- A bound that was not supplied is compared with, and so is what a value is to differ from. -/
theorem bound_traced :
    let bound : List (String × Value) := [("age", .record [("from", .unset), ("to", .int 5)])]
    let difference : List (String × Value) := [("age", .record [("not", .unset)])]
    ofFilters (.record bound)
        = .ok (.conjunction [.compare "age" .ge .unset, .compare "age" .le (.int 5)]) ∧
      ofFilters (.record (Condition.suppliedEntries bound))
        = .ok (.compare "age" .le (.int 5)) ∧
      ofFilters (.record bound) ≠ ofFilters (.record (Condition.suppliedEntries bound)) ∧
      ofFilters (.record difference) = .ok (.compare "age" .ne .unset) ∧
      ofFilters (.record (Condition.suppliedEntries difference)) = .ok .unrestricted ∧
      ofFilters (.record difference)
        ≠ ofFilters (.record (Condition.suppliedEntries difference)) := by
  refine ⟨rfl, rfl, ?_, rfl, rfl, ?_⟩
  · intro h
    cases h
  · intro h
    cases h

end Predicate

end ListQuery
