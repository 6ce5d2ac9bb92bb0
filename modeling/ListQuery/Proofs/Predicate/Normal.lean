import ListQuery.Proofs.Request.Resolved
import ListQuery.Predicate.Evaluate
import ListQuery.Plan

/-!
# Normal trees

The combinators drop what does not restrict, so a tree that a request is compiled to holds
conjunctions and disjunctions of two parts at least, and comparisons and quantifiers that can be
carried out.  Such a tree can be written, and the plan it stands in can be reported.

* `Predicate.normal`      the shape of a tree that restricts;
* `Predicate.clean`       a tree that restricts nothing, or is normal;
* `Request.predicate_clean`
                          the tree that a request is compiled to is clean;
* `Plan.announcement_ok`  a plan with a clean tree can be reported.
-/

namespace ListQuery

def Operator.isQuantifier (op : Operator) : Bool := op == .some || op == .none || op == .every

namespace Predicate

/-! ## normal trees -/

mutual

/-- no part is without restriction, connectives join two parts at least, comparisons compare, and
quantifiers count -/
def normal : Predicate → Bool
  | .conjunction parts => 2 ≤ parts.length && normalAll parts
  | .disjunction parts => 2 ≤ parts.length && normalAll parts
  | .complement part => normal part
  | .compare _ op _ => op.check?.isSome
  | .related _ quantifier nested => quantifier.isQuantifier && (!nested.restricts || normal nested)
  | .unrestricted => false
  | .blank => false

def normalAll : List Predicate → Bool
  | [] => true
  | p :: rest => normal p && normalAll rest

end

/-- a tree that restricts nothing, or is normal -/
def clean (p : Predicate) : Bool := !p.restricts || p.normal

theorem clean_of_normal {p : Predicate} (h : p.normal = true) : p.clean = true := by
  rw [clean, h, Bool.or_true]

theorem normal_of_clean {p : Predicate} (h : p.clean = true) (hp : p.restricts = true) :
    p.normal = true := by
  simpa [clean, hp] using h

theorem normalAll_iff {ps : List Predicate} : normalAll ps = true ↔ ∀ p ∈ ps, p.normal = true := by
  induction ps with
  | nil => simp [normalAll]
  | cons p rest ih => rw [normalAll, Bool.and_eq_true, ih, List.forall_mem_cons]

theorem normal_of_mem_filter {ps : List Predicate} (h : ∀ p ∈ ps, p.clean = true) :
    ∀ p ∈ ps.filter restricts, p.normal = true := by
  intro p hp
  obtain ⟨hmem, hr⟩ := List.mem_filter.mp hp
  exact normal_of_clean (h p hmem) hr

theorem joined_normal {ps : List Predicate} (h : ∀ p ∈ ps, p.clean = true)
    (hnil : ps.filter restricts ≠ []) (hone : ∀ p, ps.filter restricts ≠ [p]) :
    (decide (2 ≤ (ps.filter restricts).length) && normalAll (ps.filter restricts)) = true := by
  rw [Bool.and_eq_true, normalAll_iff]
  refine ⟨?_, normal_of_mem_filter h⟩
  rcases hps : ps.filter restricts with _ | ⟨p, _ | ⟨q, rest⟩⟩
  · exact absurd hps hnil
  · exact absurd hps (hone p)
  · simp

theorem all_clean {ps : List Predicate} (h : ∀ p ∈ ps, p.clean = true) : (all ps).clean = true := by
  unfold all
  split
  · rfl
  · rename_i p heq
    exact clean_of_normal (normal_of_mem_filter h p (heq ▸ List.mem_cons_self))
  · rename_i hnil hone
    exact clean_of_normal (joined_normal h hnil hone)

theorem any_clean {ps : List Predicate} (h : ∀ p ∈ ps, p.clean = true) : (any ps).clean = true := by
  unfold any
  split
  · rfl
  · rename_i p heq
    exact clean_of_normal (normal_of_mem_filter h p (heq ▸ List.mem_cons_self))
  · rename_i hnil hone
    exact clean_of_normal (joined_normal h hnil hone)

theorem negation_clean {ps : List Predicate} (h : ∀ p ∈ ps, p.clean = true) :
    (negation ps).clean = true := by
  have hall := all_clean h
  unfold negation
  split
  · rfl
  · rename_i p hp
    have hr : (all ps).restricts = true := by
      cases hps : all ps <;> first | exact absurd hps hp | rfl
    apply clean_of_normal
    rw [normal]
    exact normal_of_clean hall hr

/-! ## trees of conditions -/

theorem compare_normal {op : Operator} (h : op.check?.isSome = true) (path : String) (v : Value) :
    (Predicate.compare path op v).normal = true := by
  rw [normal, h]

theorem ofRange_clean (path : String) (lo hi : Value) : (ofRange path lo hi).clean = true := by
  apply all_clean
  intro p hp
  simp only [List.mem_cons, List.not_mem_nil, or_false] at hp
  rcases hp with rfl | rfl
  · split
    · rfl
    · exact clean_of_normal (compare_normal rfl path lo)
  · split
    · rfl
    · exact clean_of_normal (compare_normal rfl path hi)

theorem ofPlain_clean (path : String) (c : Condition) : (ofPlain path c).clean = true := by
  unfold ofPlain
  split
  · exact clean_of_normal (compare_normal rfl ..)
  · exact clean_of_normal (compare_normal rfl ..)
  · exact ofRange_clean ..
  · exact clean_of_normal (compare_normal rfl ..)
  · exact clean_of_normal (compare_normal rfl ..)
  · exact clean_of_normal (compare_normal rfl ..)
  · exact clean_of_normal (compare_normal rfl ..)
  · rfl

theorem search_clean (mode : SearchMode) (term : Value) (fields : List String) :
    (search mode term fields).clean = true := by
  unfold search
  split
  · apply any_clean
    intro p hp
    obtain ⟨path, _, rfl⟩ := List.mem_map.mp hp
    exact clean_of_normal (compare_normal (by cases mode <;> rfl) path term)
  · rfl

theorem quantifier_counts {name : String} {op : Operator} (h : quantifier name = .ok op) :
    op.isQuantifier = true := by
  unfold quantifier at h
  split at h
  · rename_i found hfound
    cases h
    have hmem := List.mem_of_find?_eq_some hfound
    simp only [List.mem_cons, List.not_mem_nil, or_false] at hmem
    rcases hmem with rfl | rfl | rfl <;> rfl
  · cases h

theorem related_clean {op : Operator} (hop : op.isQuantifier = true) (path : String) {p : Predicate}
    (hp : p.clean = true) : (Predicate.related path op p).clean = true := by
  apply clean_of_normal
  rw [normal, hop, Bool.true_and]
  exact hp

mutual

theorem ofCondition_clean (path : String) : (c : Condition) → {p : Predicate} →
    ofCondition path c = .ok p → p.clean = true
  | .related name nested, p, h => by
    rw [ofCondition, Outcome.bind_eq_ok] at h
    obtain ⟨op, hop, h⟩ := h
    obtain ⟨q, hq, h⟩ := Outcome.bind_eq_ok.mp h
    cases h
    exact related_clean (quantifier_counts hop) path (ofNested_clean nested hq)
  | .exact _, p, h | .oneOf _, p, h | .range _ _, p, h | .flag _, p, h | .differs _, p, h => by
    cases h
    exact ofPlain_clean ..

theorem ofNested_clean : (v : Value) → {p : Predicate} → ofNested v = .ok p → p.clean = true
  | .record entries, p, h => by
    rw [ofNested, Outcome.bind_eq_ok] at h
    obtain ⟨ps, hps, h⟩ := h
    cases h
    exact all_clean (ofEntries_clean entries hps)
  | .null, p, h | .bool _, p, h | .int _, p, h | .float _, p, h | .str _, p, h | .list _, p, h
  | .tuple _, p, h | .set _, p, h | .date _, p, h | .instant _, p, h | .object _, p, h
  | .pageMeta _, p, h | .unset, p, h | .condition _, p, h | .operation _ _, p, h | .kind _, p, h
  | .zone _, p, h | .duration _, p, h => by
    rw [ofNested] at h
    · split at h
      · cases h
      · cases h
        rfl
    · simp

theorem ofValue_clean (path : String) : (v : Value) → {p : Predicate} →
    ofValue path v = .ok p → p.clean = true
  | .condition c, p, h => by
    rw [ofValue] at h
    exact ofCondition_clean path c h
  | .record [], p, h => by
    cases h
    exact ofPlain_clean ..
  | .record [(name, payload)], p, h => by
    rw [ofValue] at h
    split at h
    · obtain ⟨op, hop, h⟩ := Outcome.bind_eq_ok.mp h
      cases payload with
      | record entries =>
        obtain ⟨ps, hps, h⟩ := Outcome.bind_eq_ok.mp h
        cases h
        exact related_clean (quantifier_counts hop) path (all_clean (ofEntries_clean entries hps))
      | _ =>
        cases h
        exact related_clean (quantifier_counts hop) path rfl
    · cases h
      exact ofPlain_clean ..
  | .record (_ :: _ :: _), p, h => by
    cases h
    exact ofPlain_clean ..
  | .null, p, h | .bool _, p, h | .int _, p, h | .float _, p, h | .str _, p, h | .list _, p, h
  | .tuple _, p, h | .set _, p, h | .date _, p, h | .instant _, p, h | .object _, p, h
  | .pageMeta _, p, h | .unset, p, h | .operation _ _, p, h | .kind _, p, h
  | .zone _, p, h | .duration _, p, h => by
    cases h
    exact ofPlain_clean ..

theorem ofEntries_clean : (entries : List (String × Value)) → {ps : List Predicate} →
    ofEntries entries = .ok ps → ∀ p ∈ ps, p.clean = true
  | [], ps, h => by
    cases h
    exact fun _ hp => absurd hp List.not_mem_nil
  | (path, v) :: rest, ps, h => by
    by_cases hunset : v = .unset
    · subst hunset
      exact ofEntries_clean rest h
    · rw [ofEntries, Outcome.bind_eq_ok] at h
      · obtain ⟨p, hp, h⟩ := h
        obtain ⟨others, hothers, h⟩ := Outcome.bind_eq_ok.mp h
        cases h
        rw [List.forall_mem_cons]
        exact ⟨ofValue_clean path v hp, ofEntries_clean rest hothers⟩
      · exact hunset

end

theorem ofConditions_clean {cs : List (String × Condition)} {p : Predicate}
    (h : ofConditions cs = .ok p) : p.clean = true := by
  have hlist {cs : List (String × Condition)} {ps : List Predicate}
      (h : ofConditionList cs = .ok ps) : ∀ p ∈ ps, p.clean = true := by
    induction cs generalizing ps with
    | nil =>
      cases h
      exact fun _ hp => absurd hp List.not_mem_nil
    | cons e rest ih =>
      rw [ofConditionList, Outcome.bind_eq_ok] at h
      obtain ⟨p, hp, h⟩ := h
      obtain ⟨others, hothers, h⟩ := Outcome.bind_eq_ok.mp h
      cases h
      rw [List.forall_mem_cons]
      exact ⟨ofCondition_clean e.1 e.2 hp, ih hothers⟩
  rw [ofConditions, Outcome.bind_eq_ok] at h
  obtain ⟨ps, hps, h⟩ := h
  cases h
  exact all_clean (hlist hps)

theorem groups_clean {groups : List (List (String × Condition))} {ps : List Predicate}
    (h : groups.mapM ofConditions = .ok ps) : ∀ p ∈ ps, p.clean = true := by
  induction groups generalizing ps with
  | nil =>
    cases h
    exact fun _ hp => absurd hp List.not_mem_nil
  | cons g rest ih =>
    obtain ⟨p, others, hp, hothers, rfl⟩ := Outcome.mapM_cons_eq_ok.mp h
    rw [List.forall_mem_cons]
    exact ⟨ofConditions_clean hp, ih hothers⟩

end Predicate

namespace Request

variable {r : Request}

/-- what a request is compiled to is a clean tree -/
theorem predicate_clean {p : Predicate} (h : r.predicate = .ok p) : p.clean = true := by
  unfold predicate at h
  obtain ⟨filters, hfilters, h⟩ := Outcome.bind_eq_ok.mp h
  obtain ⟨relations, hrelations, h⟩ := Outcome.bind_eq_ok.mp h
  obtain ⟨groups, hgroups, h⟩ := Outcome.bind_eq_ok.mp h
  obtain ⟨excluded, hexcluded, h⟩ := Outcome.bind_eq_ok.mp h
  cases h
  obtain ⟨part, hpart, hexcluded⟩ := Outcome.bind_eq_ok.mp hexcluded
  cases hexcluded
  apply Predicate.all_clean
  simp only [List.forall_mem_cons]
  refine ⟨Predicate.ofConditions_clean hfilters, Predicate.ofConditions_clean hrelations,
    Predicate.search_clean .., Predicate.any_clean (Predicate.groups_clean hgroups),
    Predicate.negation_clean ?_, fun _ hp => absurd hp List.not_mem_nil⟩
  simp only [List.forall_mem_cons]
  exact ⟨Predicate.ofConditions_clean hpart, fun _ hp => absurd hp List.not_mem_nil⟩

theorem tree_clean (h : r.Resolved) : r.tree.clean = true := predicate_clean (predicate_eq_tree h)

end Request

/-! ## writing -/

namespace Predicate

mutual

theorem toValue_ok : (p : Predicate) → p.normal = true → ∃ v, p.toValue = .ok v
  | .conjunction parts, h => by
    rw [normal, Bool.and_eq_true] at h
    obtain ⟨vs, hvs⟩ := toValues_ok parts h.2
    rw [toValue, hvs]
    exact ⟨_, rfl⟩
  | .disjunction parts, h => by
    rw [normal, Bool.and_eq_true] at h
    obtain ⟨vs, hvs⟩ := toValues_ok parts h.2
    rw [toValue, hvs]
    exact ⟨_, rfl⟩
  | .complement part, h => by
    rw [normal] at h
    obtain ⟨v, hv⟩ := toValue_ok part h
    rw [toValue, hv]
    exact ⟨_, rfl⟩
  | .compare path op value, _ => ⟨_, by rw [toValue]⟩
  | .related path quantifier nested, h => by
    rw [normal, Bool.and_eq_true] at h
    by_cases hn : nested = .unrestricted
    · subst hn
      exact ⟨_, by rw [toValue]⟩
    · have hr : nested.restricts = true := by
        cases nested <;> first | exact absurd rfl hn | rfl
      have hnormal : nested.normal = true := by simpa [hr] using h.2
      obtain ⟨v, hv⟩ := toValue_ok nested hnormal
      rw [toValue, hv]
      · exact ⟨_, rfl⟩
      · exact hn

theorem toValues_ok : (ps : List Predicate) → normalAll ps = true → ∃ vs, toValues ps = .ok vs
  | [], _ => ⟨[], by rw [toValues]⟩
  | p :: rest, h => by
    rw [normalAll, Bool.and_eq_true] at h
    obtain ⟨v, hv⟩ := toValue_ok p h.1
    obtain ⟨vs, hvs⟩ := toValues_ok rest h.2
    rw [toValues, hv, hvs]
    exact ⟨_, rfl⟩

end

end Predicate

theorem Plan.announcement_ok (kind : String) {p : Plan} (h : p.predicate.clean = true) :
    ∃ entry, p.announcement kind = .ok entry := by
  have hrecord : ∃ entries, p.toRecord = .ok entries := by
    unfold Plan.toRecord
    by_cases hr : p.predicate.restricts = true
    · obtain ⟨v, hv⟩ := Predicate.toValue_ok _ (Predicate.normal_of_clean h hr)
      rw [if_pos hr, hv]
      exact ⟨_, rfl⟩
    · rw [if_neg hr]
      exact ⟨_, rfl⟩
  obtain ⟨entries, hentries⟩ := hrecord
  unfold Plan.announcement
  rw [hentries]
  exact ⟨_, rfl⟩

end ListQuery
