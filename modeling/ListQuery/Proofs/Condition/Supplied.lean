import ListQuery.Proofs.Predicate.Quantified
import ListQuery.Proofs.Value.Supplied

/-!
# Filters with values that were never supplied

A field whose value was never supplied is left out of a filter, and so is a field of the filter on
related records.  So a filter that lacks nothing but fields has the conditions of the filter without
them.

* `Condition.vacant`              a range or a difference of which nothing was supplied;
* `Condition.suppliedEntries`     a filter without what was never supplied, vacant fields included;
* `Condition.fieldwiseEntries`    nothing but fields of filters was not supplied;
* `Condition.quantifies`          the mappings of one quantifier;
* `Condition.ofEntries_supplied`  the conditions of a filter that lacks nothing but fields.
-/

namespace ListQuery

namespace Condition

/-- a range none of whose bounds was supplied, or a difference from nothing supplied -/
def vacant : Value → Bool
  | .record entries =>
    !entries.isEmpty && (entries.all fun e => e.2.isUnset) &&
      ((entries.all fun e => e.1 = "from" || e.1 = "to") || entries.all fun e => e.1 = "not")
  | _ => false

mutual

/-- a field's value without the vacant fields of the filters on related records in it -/
def occupied : Value → Value
  | .record entries =>
    if entries.all fun e => e.1 ∈ quantifiers then .record (occupiedQuantifiers entries)
    else .record entries
  | v => v

def occupiedQuantifiers : List (String × Value) → List (String × Value)
  | [] => []
  | (q, payload) :: rest => (q, occupiedNested payload) :: occupiedQuantifiers rest

def occupiedNested : Value → Value
  | .record filter => .record (occupiedEntries filter)
  | v => v

def occupiedEntries : List (String × Value) → List (String × Value)
  | [] => []
  | (name, v) :: rest =>
    if vacant v then occupiedEntries rest else (name, occupied v) :: occupiedEntries rest

end

def suppliedEntries (filter : List (String × Value)) : List (String × Value) :=
  Value.suppliedEntries (occupiedEntries filter)

mutual

/-- nothing within the value was not supplied, but for fields of filters on related records -/
def fieldwise : Value → Bool
  | .record [(name, payload)] =>
    if name ∈ quantifiers then fieldwiseNested payload else Value.completeEntries [(name, payload)]
  | v => v.complete

def fieldwiseNested : Value → Bool
  | .record filter => fieldwiseEntries filter
  | v => !v.isUnset

def fieldwiseEntries : List (String × Value) → Bool
  | [] => true
  | (_, v) :: rest => (v.isUnset || fieldwise v) && fieldwiseEntries rest

end

theorem ofEntries_cons (name : String) (v : Value) (rest : List (String × Value)) :
    ofEntries ((name, v) :: rest) =
      if v.isUnset then ofEntries rest else (name, ofValue v) :: ofEntries rest := by
  cases v <;> rfl

/-! ## filters without conditions -/

mutual

theorem bare_supplied : (v : Value) → bare v = true → bare v.supplied = true
  | .list items, h | .tuple items, h | .set items, h => bareItems_supplied items h
  | .record entries, h => bareEntries_supplied entries h
  | .condition _, h => by cases h
  | .null, _ | .bool _, _ | .int _, _ | .float _, _ | .str _, _ | .date _, _ | .instant _, _
  | .object _, _ | .pageMeta _, _ | .unset, _ | .operation _ _, _ | .kind _, _ | .zone _, _
  | .duration _, _ => rfl

theorem bareItems_supplied : (items : List Value) → bareItems items = true →
    bareItems (Value.suppliedItems items) = true
  | [], _ => rfl
  | v :: rest, h => by
    rw [bareItems, Bool.and_eq_true] at h
    rw [Value.suppliedItems, bareItems, bare_supplied v h.1, bareItems_supplied rest h.2]
    rfl

theorem bareEntries_supplied : (entries : List (String × Value)) → bareEntries entries = true →
    bareEntries (Value.suppliedEntries entries) = true
  | [], _ => rfl
  | (name, v) :: rest, h => by
    rw [bareEntries, Bool.and_eq_true] at h
    rw [Value.suppliedEntries]
    split
    · exact bareEntries_supplied rest h.2
    · rw [bareEntries, bare_supplied v h.1, bareEntries_supplied rest h.2]
      rfl

end

mutual

theorem bare_occupied : (v : Value) → bare v = true → bare (occupied v) = true
  | .record entries, h => by
    rw [occupied]
    split
    · exact bareEntries_occupiedQuantifiers entries h
    · exact h
  | .null, h | .bool _, h | .int _, h | .float _, h | .str _, h | .list _, h | .tuple _, h | .set _, h
  | .date _, h | .instant _, h | .object _, h | .pageMeta _, h | .unset, h | .condition _, h
  | .operation _ _, h | .kind _, h | .zone _, h | .duration _, h => h

theorem bareEntries_occupiedQuantifiers : (entries : List (String × Value)) →
    bareEntries entries = true → bareEntries (occupiedQuantifiers entries) = true
  | [], _ => rfl
  | (q, payload) :: rest, h => by
    rw [bareEntries, Bool.and_eq_true] at h
    rw [occupiedQuantifiers, bareEntries, bare_occupiedNested payload h.1,
      bareEntries_occupiedQuantifiers rest h.2]
    rfl

theorem bare_occupiedNested : (v : Value) → bare v = true → bare (occupiedNested v) = true
  | .record filter, h => bareEntries_occupied filter h
  | .null, h | .bool _, h | .int _, h | .float _, h | .str _, h | .list _, h | .tuple _, h | .set _, h
  | .date _, h | .instant _, h | .object _, h | .pageMeta _, h | .unset, h | .condition _, h
  | .operation _ _, h | .kind _, h | .zone _, h | .duration _, h => h

theorem bareEntries_occupied : (filter : List (String × Value)) → bareEntries filter = true →
    bareEntries (occupiedEntries filter) = true
  | [], _ => rfl
  | (name, v) :: rest, h => by
    rw [bareEntries, Bool.and_eq_true] at h
    rw [occupiedEntries]
    split
    · exact bareEntries_occupied rest h.2
    · rw [bareEntries, bare_occupied v h.1, bareEntries_occupied rest h.2]
      rfl

end

theorem bareEntries_suppliedEntries {filter : List (String × Value)}
    (h : bareEntries filter = true) : bareEntries (suppliedEntries filter) = true :=
  bareEntries_supplied _ (bareEntries_occupied filter h)

/-! ## filters with nothing to leave out -/

theorem vacant_of_complete {v : Value} (h : v.complete = true) : vacant v = false := by
  cases v with
  | record entries =>
    rcases entries with _ | ⟨e, rest⟩
    · rfl
    · have hunset : e.2.isUnset = false := (Value.completeEntries_cons.mp h).1.1
      rw [vacant, List.all_cons, hunset]
      rfl
  | _ => rfl

mutual

theorem occupied_of_complete : (v : Value) → v.complete = true → occupied v = v
  | .record entries, h => by
    rw [occupied]
    split
    · rw [occupiedQuantifiers_of_complete entries h]
    · rfl
  | .null, _ | .bool _, _ | .int _, _ | .float _, _ | .str _, _ | .list _, _ | .tuple _, _ | .set _, _
  | .date _, _ | .instant _, _ | .object _, _ | .pageMeta _, _ | .unset, _ | .condition _, _
  | .operation _ _, _ | .kind _, _ | .zone _, _ | .duration _, _ => rfl

theorem occupiedQuantifiers_of_complete : (entries : List (String × Value)) →
    Value.completeEntries entries = true → occupiedQuantifiers entries = entries
  | [], _ => rfl
  | (q, payload) :: rest, h => by
    obtain ⟨⟨_, hpayload⟩, hrest⟩ := Value.completeEntries_cons.mp h
    rw [occupiedQuantifiers, occupiedNested_of_complete payload hpayload,
      occupiedQuantifiers_of_complete rest hrest]

theorem occupiedNested_of_complete : (v : Value) → v.complete = true → occupiedNested v = v
  | .record filter, h => congrArg Value.record (occupiedEntries_of_complete filter h)
  | .null, _ | .bool _, _ | .int _, _ | .float _, _ | .str _, _ | .list _, _ | .tuple _, _ | .set _, _
  | .date _, _ | .instant _, _ | .object _, _ | .pageMeta _, _ | .unset, _ | .condition _, _
  | .operation _ _, _ | .kind _, _ | .zone _, _ | .duration _, _ => rfl

theorem occupiedEntries_of_complete : (filter : List (String × Value)) →
    Value.completeEntries filter = true → occupiedEntries filter = filter
  | [], _ => rfl
  | (name, v) :: rest, h => by
    obtain ⟨⟨_, hv⟩, hrest⟩ := Value.completeEntries_cons.mp h
    rw [occupiedEntries, vacant_of_complete hv, occupied_of_complete v hv,
      occupiedEntries_of_complete rest hrest]
    rfl

end

/-! ## mappings of one quantifier -/

def quantifies : Value → Bool
  | .record [(name, _)] => name ∈ quantifiers
  | _ => false

theorem quantifies_iff {v : Value} :
    quantifies v = true ↔ ∃ q payload, q ∈ quantifiers ∧ v = .record [(q, payload)] := by
  constructor
  · intro h
    unfold quantifies at h
    split at h
    · exact ⟨_, _, of_decide_eq_true h, rfl⟩
    · cases h
  · rintro ⟨q, payload, hq, rfl⟩
    exact decide_eq_true hq

theorem unquantified_cases {v : Value} (h : quantifies v = false) :
    (∃ name payload, name ∉ quantifiers ∧ v = .record [(name, payload)]) ∨
      (∃ entries, entries.length ≠ 1 ∧ v = .record entries) ∨ ∀ entries, v ≠ .record entries := by
  cases v with
  | record entries =>
    by_cases hone : entries.length = 1
    · obtain ⟨⟨name, payload⟩, rfl⟩ := List.length_eq_one_iff.mp hone
      exact .inl ⟨name, payload, of_decide_eq_false h, rfl⟩
    · exact .inr (.inl ⟨entries, hone, rfl⟩)
  | _ => exact .inr (.inr fun _ => nofun)

theorem isRelated_of_unquantified {v : Value} (hbare : bare v = true) (h : quantifies v = false) :
    (ofValue v).isRelated = false := by
  rcases unquantified_cases h with ⟨name, payload, hname, rfl⟩ | ⟨entries, hmany, rfl⟩ | hrecord
  · exact Predicate.ofValue_unquantified hname payload
  · rw [ofValue_record hmany]
    split <;> rfl
  · cases v with
    | record entries => exact absurd rfl (hrecord entries)
    | condition => cases hbare
    | _ => rfl

theorem fieldwise_of_unquantified {v : Value} (h : quantifies v = false) :
    fieldwise v = v.complete := by
  unfold fieldwise
  split
  · exact if_neg (of_decide_eq_false h)
  · rfl

section
variable {q : String} (hq : q ∈ quantifiers) (payload : Value)
include hq

theorem vacant_quantified : vacant (.record [(q, payload)]) = false := by
  simp only [quantifiers, List.mem_cons, List.not_mem_nil, or_false] at hq
  rcases hq with rfl | rfl | rfl <;> exact Bool.and_false _

theorem occupied_quantified :
    occupied (.record [(q, payload)]) = .record [(q, occupiedNested payload)] := by
  rw [occupied, if_pos]
  · rfl
  · rw [List.all_cons, List.all_nil, Bool.and_true, decide_eq_true_eq]
    exact hq

end

/-! ## filters that lack nothing but fields -/

theorem occupied_isUnset (v : Value) : (occupied v).isUnset = v.isUnset := by
  cases v with
  | record entries =>
    rw [occupied]
    split <;> rfl
  | _ => rfl

theorem occupiedNested_isUnset (v : Value) : (occupiedNested v).isUnset = v.isUnset := by
  cases v <;> rfl

theorem ofValue_supplied_quantified {q : String} (hq : q ∈ quantifiers) {payload : Value}
    (h : payload.isUnset = false) :
    ofValue (occupied (.record [(q, payload)])).supplied
      = .related q (.record (asEntries (ofNested (occupiedNested payload).supplied))) := by
  rw [occupied_quantified hq payload, ← Predicate.ofValue_quantified hq]
  show ofValue (.record (Value.suppliedEntries [(q, occupiedNested payload)])) = _
  rw [Value.suppliedEntries, occupiedNested_isUnset, h]
  rfl

theorem isUnset_of_fieldwiseNested {v : Value} (h : fieldwiseNested v = true) : v.isUnset = false := by
  cases v <;> first | rfl | cases h

theorem vacant_of_fieldwise {v : Value} (h : fieldwise v = true) : vacant v = false := by
  cases hquantifies : quantifies v with
  | false =>
    rw [fieldwise_of_unquantified hquantifies] at h
    exact vacant_of_complete h
  | true =>
    obtain ⟨q, payload, hq, rfl⟩ := quantifies_iff.mp hquantifies
    exact vacant_quantified hq payload

/-- the conditions of a filter without what was never supplied, entry by entry -/
theorem ofEntries_suppliedEntries (name : String) (v : Value) (rest : List (String × Value)) :
    ofEntries (suppliedEntries ((name, v) :: rest)) =
      if v.isUnset || vacant v then ofEntries (suppliedEntries rest)
      else (name, ofValue (occupied v).supplied) :: ofEntries (suppliedEntries rest) := by
  rw [suppliedEntries, occupiedEntries]
  cases hunset : v.isUnset with
  | true => cases v <;> first | rfl | cases hunset
  | false =>
    rw [Bool.false_or]
    split
    · rfl
    · rw [Value.suppliedEntries, occupied_isUnset, hunset, if_neg Bool.false_ne_true, ofEntries_cons,
        Value.supplied_isUnset, occupied_isUnset, hunset, if_neg Bool.false_ne_true]
      rfl

mutual

theorem ofValue_supplied : (v : Value) → fieldwise v = true →
    ofValue (occupied v).supplied = ofValue v
  | .record [(name, payload)], h => by
    rw [fieldwise] at h
    split at h
    · rename_i hq
      rw [ofValue_supplied_quantified hq (isUnset_of_fieldwiseNested h), Predicate.ofValue_quantified hq,
        ofNested_supplied payload h]
    · have hcomplete : (Value.record [(name, payload)]).complete = true := h
      rw [occupied_of_complete _ hcomplete, Value.supplied_of_complete _ hcomplete]
  | .record [], _ => rfl
  | .record (a :: b :: rest), h => by
    have hcomplete : (Value.record (a :: b :: rest)).complete = true := h
    rw [occupied_of_complete _ hcomplete, Value.supplied_of_complete _ hcomplete]
  | .list items, h | .tuple items, h | .set items, h =>
    congrArg ofValue (Value.supplied_of_complete _ h)
  | .null, _ | .bool _, _ | .int _, _ | .float _, _ | .str _, _ | .date _, _ | .instant _, _
  | .object _, _ | .pageMeta _, _ | .unset, _ | .condition _, _ | .operation _ _, _ | .kind _, _
  | .zone _, _ | .duration _, _ => rfl

theorem ofNested_supplied : (v : Value) → fieldwiseNested v = true →
    ofNested (occupiedNested v).supplied = ofNested v
  | .record filter, h => ofEntries_supplied filter h
  | .null, _ | .bool _, _ | .int _, _ | .float _, _ | .str _, _ | .list _, _ | .tuple _, _ | .set _, _
  | .date _, _ | .instant _, _ | .object _, _ | .pageMeta _, _ | .unset, _ | .condition _, _
  | .operation _ _, _ | .kind _, _ | .zone _, _ | .duration _, _ => rfl

/-- a filter that lacks nothing but fields has the same conditions without them -/
theorem ofEntries_supplied : (filter : List (String × Value)) → fieldwiseEntries filter = true →
    ofEntries (suppliedEntries filter) = ofEntries filter
  | [], _ => rfl
  | (name, v) :: rest, h => by
    rw [fieldwiseEntries, Bool.and_eq_true, Bool.or_eq_true] at h
    rw [ofEntries_cons, ofEntries_suppliedEntries, ofEntries_supplied rest h.2]
    cases hunset : v.isUnset with
    | true => rfl
    | false =>
      have hv : fieldwise v = true := h.1.resolve_left (by rw [hunset]; exact Bool.false_ne_true)
      rw [vacant_of_fieldwise hv, ofValue_supplied v hv]
      rfl

end

end Condition

end ListQuery
