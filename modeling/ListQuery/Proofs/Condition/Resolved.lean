import ListQuery.Request

/-!
# Resolved conditions

A request holds its filters as conditions whose quantifiers are known and whose nested entries are
conditions again.  Of these a tree is made without fail, and here the tree is a function of them.

* `Condition.resolved`      the conditions a request holds, nested to any depth;
* `Condition.tree`          what a condition asks of the value at a path;
* `Request.Resolved`        all conditions of a request are resolved;
* `Request.tree`            what a request asks of a row;
* `Request.predicate_eq_tree`  the tree is the one that the request is compiled to.
-/

namespace ListQuery

namespace Condition

/-! ## resolved conditions -/

mutual

/-- a relation has one of the quantifiers, and its nested entries are resolved conditions -/
def resolved : Condition → Bool
  | .related q nested => quantifiers.contains q && nestedResolved nested
  | _ => true

def nestedResolved : Value → Bool
  | .record entries => entriesResolved entries
  | _ => false

def entriesResolved : List (String × Value) → Bool
  | [] => true
  | (_, .condition c) :: rest => c.resolved && entriesResolved rest
  | _ :: _ => false

end

def isRelated : Condition → Bool
  | .related _ _ => true
  | _ => false

/-! ## trees of conditions -/

mutual

def tree (path : String) : Condition → Predicate
  | .related q nested => .related path ((Operator.ofQuantifier? q).getD .some) (nestedTree nested)
  | c => Predicate.ofPlain path c

def nestedTree : Value → Predicate
  | .record entries => .all (entryTrees entries)
  | _ => .unrestricted

def entryTrees : List (String × Value) → List Predicate
  | [] => []
  | (path, .condition c) :: rest => c.tree path :: entryTrees rest
  | _ :: rest => entryTrees rest

end

def trees (cs : List (String × Condition)) : List Predicate := cs.map fun entry => entry.2.tree entry.1

theorem quantifier_eq {q : String} (h : quantifiers.contains q = true) :
    Predicate.quantifier q = .ok ((Operator.ofQuantifier? q).getD .some) := by
  simp only [quantifiers, List.contains_eq_mem, List.mem_cons, List.not_mem_nil, or_false,
    decide_eq_true_eq] at h
  rcases h with rfl | rfl | rfl <;> rfl

mutual

theorem ofCondition_eq (path : String) :
    (c : Condition) → c.resolved = true → Predicate.ofCondition path c = .ok (c.tree path)
  | .related q nested, h => by
    rw [resolved, Bool.and_eq_true] at h
    rw [Predicate.ofCondition, quantifier_eq h.1, ofNested_eq nested h.2, tree]
    rfl
  | .exact _, _ => by rw [Predicate.ofCondition, tree] <;> simp
  | .oneOf _, _ => by rw [Predicate.ofCondition, tree] <;> simp
  | .range _ _, _ => by rw [Predicate.ofCondition, tree] <;> simp
  | .flag _, _ => by rw [Predicate.ofCondition, tree] <;> simp
  | .differs _, _ => by rw [Predicate.ofCondition, tree] <;> simp

theorem ofNested_eq :
    (v : Value) → nestedResolved v = true → Predicate.ofNested v = .ok (nestedTree v)
  | .record entries, h => by
    rw [nestedResolved] at h
    rw [Predicate.ofNested, ofEntries_eq entries h, nestedTree]
    rfl

theorem ofEntries_eq :
    (entries : List (String × Value)) → entriesResolved entries = true →
      Predicate.ofEntries entries = .ok (entryTrees entries)
  | [], _ => by rw [Predicate.ofEntries, entryTrees]
  | (path, .condition c) :: rest, h => by
    rw [entriesResolved, Bool.and_eq_true] at h
    rw [Predicate.ofEntries, Predicate.ofValue, ofCondition_eq path c h.1, ofEntries_eq rest h.2,
      entryTrees]
    · rfl
    · simp

end

theorem ofConditionList_eq {cs : List (String × Condition)} (h : ∀ e ∈ cs, e.2.resolved = true) :
    Predicate.ofConditionList cs = .ok (trees cs) := by
  induction cs with
  | nil => rfl
  | cons e rest ih =>
    obtain ⟨path, c⟩ := e
    have hhere := ofCondition_eq path c (h (path, c) List.mem_cons_self)
    have hrest := ih fun e he => h e (List.mem_cons_of_mem _ he)
    rw [Predicate.ofConditionList, hhere, hrest]
    rfl

theorem ofConditions_eq {cs : List (String × Condition)} (h : ∀ e ∈ cs, e.2.resolved = true) :
    Predicate.ofConditions cs = .ok (.all (trees cs)) := by
  rw [Predicate.ofConditions, ofConditionList_eq h]
  rfl

/-! ## conditions read from filters -/

mutual

/-- a condition that stands in a loosely written filter is resolved -/
def sound : Value → Bool
  | .condition c => c.resolved
  | .record entries => entriesSound entries
  | .list items => itemsSound items
  | .tuple items => itemsSound items
  | .set items => itemsSound items
  | _ => true

def itemsSound : List Value → Bool
  | [] => true
  | v :: rest => sound v && itemsSound rest

def entriesSound : List (String × Value) → Bool
  | [] => true
  | (_, v) :: rest => sound v && entriesSound rest

end

theorem entriesResolved_asEntries {cs : List (String × Condition)} :
    entriesResolved (asEntries cs) = true ↔ ∀ e ∈ cs, e.2.resolved = true := by
  induction cs with
  | nil => simp [asEntries, entriesResolved]
  | cons e rest ih =>
    show (e.2.resolved && entriesResolved (asEntries rest)) = true ↔ _
    rw [Bool.and_eq_true, ih, List.forall_mem_cons]

mutual

theorem ofValue_resolved : (v : Value) → sound v = true → (ofValue v).resolved = true
  | .condition c, h => by rw [ofValue]; exact h
  | .record [], _ => by rw [ofValue] <;> simp [resolved]
  | .record [(name, payload)], h => by
    rw [sound, entriesSound, Bool.and_eq_true] at h
    rw [ofValue]
    split
    · rfl
    split
    · rfl
    split
    · rfl
    split
    · rename_i hq
      rw [resolved, nestedResolved, Bool.and_eq_true, entriesResolved_asEntries]
      exact ⟨by simpa using hq, ofNested_resolved payload h.1⟩
    · rfl
  | .record (a :: b :: rest), _ => by
    rw [ofValue]
    · split <;> rfl
    · simp
  | .null, _ => rfl
  | .bool _, _ => rfl
  | .int _, _ => rfl
  | .float _, _ => rfl
  | .str _, _ => rfl
  | .list _, _ => rfl
  | .tuple _, _ => rfl
  | .set _, _ => rfl
  | .date _, _ => rfl
  | .instant _, _ => rfl
  | .object _, _ => rfl
  | .pageMeta _, _ => rfl
  | .unset, _ => rfl
  | .operation _ _, _ => rfl
  | .kind _, _ => rfl
  | .zone _, _ => rfl
  | .duration _, _ => rfl

theorem ofNested_resolved :
    (v : Value) → sound v = true → ∀ e ∈ ofNested v, e.2.resolved = true
  | .record entries, h => by
    rw [sound] at h
    rw [ofNested]
    exact ofEntries_resolved entries h
  | .null, _ | .bool _, _ | .int _, _ | .float _, _ | .str _, _ | .list _, _ | .tuple _, _
  | .set _, _ | .date _, _ | .instant _, _ | .object _, _ | .pageMeta _, _ | .unset, _
  | .condition _, _ | .operation _ _, _ | .kind _, _ | .zone _, _ | .duration _, _ => by
    simp [ofNested]

theorem ofEntries_resolved :
    (entries : List (String × Value)) → entriesSound entries = true →
      ∀ e ∈ ofEntries entries, e.2.resolved = true
  | [], _ => by simp [ofEntries]
  | (name, v) :: rest, h => by
    rw [entriesSound, Bool.and_eq_true] at h
    have hrest := ofEntries_resolved rest h.2
    by_cases hv : v = .unset
    · subst hv
      rw [ofEntries]
      exact hrest
    · rw [ofEntries, List.forall_mem_cons]
      · exact ⟨ofValue_resolved v h.1, hrest⟩
      · exact hv

end

theorem sound_of_mem {entries : List (String × Value)} (h : entriesSound entries = true)
    {e : String × Value} (he : e ∈ entries) : sound e.2 = true := by
  induction entries with
  | nil => cases he
  | cons x rest ih =>
    rw [entriesSound, Bool.and_eq_true] at h
    rcases List.mem_cons.mp he with rfl | he
    · exact h.1
    · exact ih h.2 he

theorem sound_of_mem_items {items : List Value} (h : itemsSound items = true) {v : Value}
    (hv : v ∈ items) : sound v = true := by
  induction items with
  | nil => cases hv
  | cons x rest ih =>
    rw [itemsSound, Bool.and_eq_true] at h
    rcases List.mem_cons.mp hv with rfl | hv
    · exact h.1
    · exact ih h.2 hv

theorem field?_sound {name : String} {v : Value} {entries : List (String × Value)}
    (h : entriesSound entries = true) (hv : Value.field? name entries = some v) :
    sound v = true := by
  exact sound_of_mem h (Value.mem_of_field? hv)

theorem nested_resolved {v : Value} (h : sound v = true) {q : String}
    (hq : quantifiers.contains q = true) :
    (Condition.related q (.record (asEntries (ofNested v)))).resolved = true := by
  rw [resolved, nestedResolved, Bool.and_eq_true, entriesResolved_asEntries]
  exact ⟨hq, ofNested_resolved v h⟩

/-- the conditions read from a sequence stand in it, and are about related records -/
theorem mem_of_allRelated? {items : List Value} {cs : List Condition}
    (h : allRelated? items = some cs) :
    ∀ c ∈ cs, c.isRelated = true ∧ .condition c ∈ items := by
  fun_induction allRelated? items generalizing cs with
  | case1 => cases h; simp
  | case2 rest q nested ih =>
    obtain ⟨others, hothers, rfl⟩ := Option.map_eq_some_iff.mp h
    rw [List.forall_mem_cons]
    refine ⟨⟨rfl, List.mem_cons_self⟩, fun c hc => ?_⟩
    exact (ih hothers c hc).imp_right (List.mem_cons_of_mem _)
  | case3 => cases h

theorem mem_ofRelation {v : Value} {c : Condition} (h : c ∈ ofRelation v) :
    (c.isRelated = true ∧ (v = .condition c ∨ ∃ items, v = .tuple items ∧ .condition c ∈ items)) ∨
      ∃ entries q w, v = .record entries ∧ (w = v ∨ Value.field? q entries = some w) ∧
        quantifiers.contains q = true ∧ c = .related q (.record (asEntries (ofNested w))) := by
  unfold ofRelation at h
  split at h
  · rw [List.mem_singleton] at h
    subst h
    exact .inl ⟨rfl, .inl rfl⟩
  · rename_i items
    rcases hitems : allRelated? items with _ | cs
    · rw [hitems] at h; cases h
    · rw [hitems] at h
      obtain ⟨hrelated, hmem⟩ := mem_of_allRelated? hitems c h
      exact .inl ⟨hrelated, .inr ⟨items, rfl, hmem⟩⟩
  · rename_i entries
    unfold ofRelationEntries at h
    dsimp only at h
    split at h
    · obtain ⟨q, hq, rfl⟩ := List.mem_map.mp h
      obtain ⟨hmem, hsome⟩ := List.mem_filter.mp hq
      obtain ⟨w, hw⟩ := Option.isSome_iff_exists.mp hsome
      exact .inr ⟨entries, q, w, rfl, .inr hw, by simpa using hmem, by rw [hw]; rfl⟩
    · rw [List.mem_singleton] at h
      subst h
      exact .inr ⟨entries, "some", .record entries, rfl, .inl rfl, rfl, by rw [ofNested]⟩
  · cases h

theorem ofRelation_related (v : Value) : ∀ c ∈ ofRelation v, c.isRelated = true := by
  intro c hc
  rcases mem_ofRelation hc with ⟨hrelated, -⟩ | ⟨_, _, _, -, -, -, rfl⟩
  · exact hrelated
  · rfl

theorem ofRelation_resolved {v : Value} (h : sound v = true) :
    ∀ c ∈ ofRelation v, c.resolved = true := by
  intro c hc
  rcases mem_ofRelation hc with ⟨-, rfl | ⟨items, rfl, hmem⟩⟩ | ⟨entries, q, w, rfl, hw, hq, rfl⟩
  · exact h
  · exact sound_of_mem_items h hmem
  · refine nested_resolved ?_ hq
    rcases hw with rfl | hw
    · exact h
    · exact field?_sound h hw

theorem ofFilters_resolved {v : Value} {cs : List (String × Condition)} (h : sound v = true)
    (hcs : ofFilters v = .ok cs) : ∀ e ∈ cs, e.2.resolved = true := by
  unfold ofFilters at hcs
  split at hcs
  · obtain ⟨entries, hv, hcs⟩ := Outcome.bind_eq_ok.mp hcs
    cases hcs
    cases v <;> cases hv
    exact ofEntries_resolved _ h
  · cases hcs; simp

end Condition

end ListQuery
