import ListQuery.Proofs.Condition.Spelled
import ListQuery.Predicate.Filter

/-!
# Relations in filters and in filters of relations

A filter is compiled from the conditions that its values stand for, and a value stands for one
condition.  So a mapping with one quantifier is compiled alike wherever it is written, and one with
several is not: a filter of relations asks each quantifier of the related records, any other filter
compares the value at the path with the mapping.

* `Predicate.ofFilters_read`    a filter is compiled from its conditions;
* `Condition.Discriminated`     the mappings of quantifiers;
* `Condition.Stands`            an entry of a filter, or of a filter of related records within it;
* `Predicate.Part`              a tree and the trees within it;
* `Predicate.alike_iff_single`  where a mapping of quantifiers is compiled alike;
* `Predicate.several_compared`  mappings that are not.
-/

namespace ListQuery

namespace Predicate

/-! ## filters and their conditions -/

theorem ofEntries_conditions (cs : List (String × Condition)) :
    ofEntries (Condition.asEntries cs) = ofConditionList cs := by
  induction cs with
  | nil => rfl
  | cons e rest ih =>
    show ofEntries ((e.1, .condition e.2) :: Condition.asEntries rest) = _
    rw [ofEntries, ih]
    · rw [ofValue]
      rfl
    · simp

theorem ofCondition_plain (path : String) {c : Condition} (h : c.isRelated = false) :
    ofCondition path c = .ok (ofPlain path c) := by
  cases c with
  | related => cases h
  | _ => rfl

theorem ofNested_conditions (cs : List (String × Condition)) :
    ofNested (.record (Condition.asEntries cs)) = ofConditions cs := by
  show (do return all (← ofEntries (Condition.asEntries cs))) = _
  rw [ofEntries_conditions]
  rfl

theorem ofValue_quantified {q : String} (hq : q ∈ Condition.quantifiers) (payload : Value) :
    Condition.ofValue (.record [(q, payload)])
      = .related q (.record (Condition.asEntries (Condition.ofNested payload))) := by
  have hnames : q ≠ "from" ∧ q ≠ "to" ∧ q ≠ "not" := by
    simp only [Condition.quantifiers, List.mem_cons, List.not_mem_nil, or_false] at hq
    rcases hq with rfl | rfl | rfl <;> decide
  rw [Condition.ofValue, if_neg hnames.1, if_neg hnames.2.1, if_neg hnames.2.2, if_pos hq]

theorem ofValue_unquantified {name : String} (hname : name ∉ Condition.quantifiers)
    (payload : Value) : (Condition.ofValue (.record [(name, payload)])).isRelated = false := by
  rw [Condition.ofValue]
  repeat' split
  all_goals rfl

mutual

theorem ofValue_read (path : String) : (v : Value) →
    ofValue path v = ofCondition path (Condition.ofValue v)
  | .condition c => by rw [ofValue, Condition.ofValue]
  | .record [] => rfl
  | .record [(name, payload)] => by
    by_cases hq : name ∈ Condition.quantifiers
    · rw [ofValue_quantified hq, ofValue, if_pos hq, ofCondition, ofNested_conditions]
      cases payload with
      | record entries =>
        show (do
          let op ← quantifier name
          return Predicate.related path op (all (← ofEntries entries))) = _
        rw [ofEntries_read entries]
        show _ = (do
          let op ← quantifier name
          return Predicate.related path op
            (← (do return all (← ofConditionList (Condition.ofEntries entries)))))
        simp only [bind_assoc, pure_bind]
      | _ => rfl
    · rw [ofCondition_plain path (ofValue_unquantified hq payload), ofValue, if_neg hq]
      rfl
  | .record (a :: b :: rest) => by
    rw [ofCondition_plain]
    · rfl
    · rw [Condition.ofValue_record (by simp)]
      split <;> rfl
  | .null | .bool _ | .int _ | .float _ | .str _ | .list _ | .tuple _ | .set _ | .date _ | .instant _
  | .object _ | .pageMeta _ | .unset | .operation _ _ | .kind _ | .zone _ | .duration _ => rfl

theorem ofEntries_read : (entries : List (String × Value)) →
    ofEntries entries = ofConditionList (Condition.ofEntries entries)
  | [] => rfl
  | (name, v) :: rest => by
    have hrest := ofEntries_read rest
    by_cases hunset : v = .unset
    · subst hunset
      exact hrest
    · have hhere := ofValue_read name v
      rw [ofEntries, Condition.ofEntries, ofConditionList, hhere, hrest]
      · exact hunset
      · exact hunset

end

theorem ofFilters_read (entries : List (String × Value)) :
    ofFilters (.record entries) = ofConditions (Condition.ofEntries entries) := by
  show (do return all (← ofEntries entries)) = _
  rw [ofEntries_read]
  rfl

theorem ofFilters_single (name : String) {v : Value} (hv : v ≠ .unset) :
    ofFilters (.record [(name, v)]) = ofConditions [(name, Condition.ofValue v)] := by
  rw [ofFilters_read, Condition.ofEntries]
  · rfl
  · exact hv

theorem ofRelationFilters_single (name : String) (v : Value) :
    ofRelationFilters (.record [(name, v)])
      = ofConditions ((Condition.ofRelation v).map (name, ·)) := by
  show ofConditions ((Condition.ofRelation v).map (name, ·) ++ []) = _
  rw [List.append_nil]

end Predicate

/-! ## mappings of quantifiers -/

namespace Condition

variable {name : String} {entries : List (String × Value)}

/-- the entries of a mapping all of whose names are quantifiers -/
structure Discriminated (entries : List (String × Value)) : Prop where
  given : entries ≠ []
  nodup : (entries.map Prod.fst).Nodup
  quantified : ∀ e ∈ entries, e.1 ∈ quantifiers

/-- the value of an entry of a filter, or of a filter of related records within it -/
inductive Stands (name : String) (v : Value) : (filter : List (String × Value)) → Prop
  | here {filter : List (String × Value)} : (name, v) ∈ filter → Stands name v filter
  | within {filter inner : List (String × Value)} {relation q : String} :
      (relation, .record [(q, .record inner)]) ∈ filter → q ∈ quantifiers →
        Stands name v inner → Stands name v filter

theorem bare_of_mem_entries (h : bareEntries entries = true) : ∀ e ∈ entries, bare e.2 = true := by
  induction entries with
  | nil => exact fun _ he => absurd he List.not_mem_nil
  | cons e rest ih =>
    rw [bareEntries, Bool.and_eq_true] at h
    rw [List.forall_mem_cons]
    exact ⟨h.1, ih h.2⟩

theorem field?_isSome {q : String} :
    (Value.field? q entries).isSome = true ↔ q ∈ entries.map Prod.fst := by
  induction entries with
  | nil => simp [Value.field?]
  | cons e rest ih =>
    obtain ⟨key, v⟩ := e
    by_cases hkey : key = q
    · simp [Value.field?, hkey]
    · simp [Value.field?, hkey, ih, Ne.symm hkey]

theorem Discriminated.named_perm (h : Discriminated entries) :
    (named entries).Perm (entries.map Prod.fst) := by
  refine (List.perm_ext_iff_of_nodup (named_nodup entries) h.nodup).mpr fun q => ?_
  rw [named, List.mem_filter, field?_isSome]
  refine ⟨fun hq => hq.2, fun hq => ⟨?_, hq⟩⟩
  obtain ⟨e, he, rfl⟩ := List.mem_map.mp hq
  exact h.quantified e he

theorem Discriminated.named_length (h : Discriminated entries) :
    (named entries).length = entries.length := by
  rw [h.named_perm.length_eq, List.length_map]

/-- a filter of relations asks every quantifier by itself -/
theorem Discriminated.ofRelation_eq (h : Discriminated entries) :
    ofRelation (.record entries) = (named entries).map fun q =>
      ofValue (.record [(q, (Value.field? q entries).getD .null)]) := by
  have hlength := h.named_length
  have hgiven : named entries ≠ [] := by
    intro hnil
    rw [hnil, List.length_nil] at hlength
    exact h.given (List.length_eq_zero_iff.mp hlength.symm)
  show ofRelationEntries entries = _
  rw [ofRelationEntries_eq, if_pos ⟨hgiven, hlength⟩]
  refine List.map_congr_left fun q hq => ?_
  rw [Predicate.ofValue_quantified (List.mem_filter.mp hq).1]

/-- any other filter knows several quantifiers for no condition -/
theorem Discriminated.ofValue_several (h : Discriminated entries) (hmany : entries.length ≠ 1) :
    ofValue (.record entries) = .exact (.record entries) := by
  rw [ofValue_record hmany, if_neg]
  rintro ⟨hgiven, hbounds⟩
  obtain ⟨e, rest, rfl⟩ := List.exists_cons_of_ne_nil hgiven
  have hquantifier := h.quantified e List.mem_cons_self
  rw [List.all_cons, Bool.and_eq_true] at hbounds
  simp only [quantifiers, List.mem_cons, List.not_mem_nil, or_false] at hquantifier
  rcases hquantifier with hname | hname | hname <;> simp [hname] at hbounds

end Condition

namespace Predicate

/-! ## trees within trees -/

/-- a tree stands in another: it is that tree, or stands in a part of a conjunction or in what is
asked of related records -/
inductive Part (p : Predicate) : (tree : Predicate) → Prop
  | whole : Part p p
  | conjunct {part : Predicate} {parts : List Predicate} :
      part ∈ parts → Part p part → Part p (.conjunction parts)
  | nested {path : String} {quantifier : Operator} {tree : Predicate} :
      Part p tree → Part p (.related path quantifier tree)

theorem all_single (p : Predicate) : all [p] = p := by
  cases p <;> rfl

theorem Part.all {p part : Predicate} {parts : List Predicate} (hmem : part ∈ parts)
    (hrestricts : part.restricts = true) (h : Part p part) : Part p (all parts) := by
  have hkept := List.mem_filter.mpr ⟨hmem, hrestricts⟩
  unfold Predicate.all
  rcases hparts : parts.filter restricts with _ | ⟨first, _ | ⟨second, rest⟩⟩
  · rw [hparts] at hkept
    cases hkept
  · rw [hparts, List.mem_singleton] at hkept
    exact hkept ▸ h
  · exact .conjunct (hparts ▸ hkept) h

theorem mem_of_ofEntries {name : String} {v : Value} (hv : v ≠ .unset)
    {filter : List (String × Value)} {parts : List Predicate} (hmem : (name, v) ∈ filter)
    (h : ofEntries filter = .ok parts) : ∃ p ∈ parts, ofValue name v = .ok p := by
  induction filter generalizing parts with
  | nil => cases hmem
  | cons e rest ih =>
    by_cases hunset : e.2 = .unset
    · obtain ⟨path, w⟩ := e
      cases hunset
      rcases List.mem_cons.mp hmem with heq | hmem
      · cases heq
        exact absurd rfl hv
      · exact ih hmem h
    · rw [ofEntries] at h
      · obtain ⟨here, hhere, h⟩ := Outcome.bind_eq_ok.mp h
        obtain ⟨others, hothers, h⟩ := Outcome.bind_eq_ok.mp h
        cases h
        rcases List.mem_cons.mp hmem with heq | hmem
        · cases heq
          exact ⟨here, List.mem_cons_self, hhere⟩
        · obtain ⟨p, hp, hvalue⟩ := ih hmem hothers
          exact ⟨p, List.mem_cons_of_mem _ hp, hvalue⟩
      · exact hunset

/-- what stands in a filter, at whatever depth, is compiled there as it is by itself -/
theorem part_of_stands {name : String} {v : Value} (hv : v ≠ .unset) {p tree : Predicate}
    (hp : ofFilters (.record [(name, v)]) = .ok p) (hrestricts : p.restricts = true)
    {filter : List (String × Value)} (hstands : Condition.Stands name v filter)
    (h : ofFilters (.record filter) = .ok tree) : Part p tree := by
  have hvalue : ofValue name v = .ok p := by
    rw [ofFilters_single name hv] at hp
    obtain ⟨parts, hparts, hp⟩ := Outcome.bind_eq_ok.mp hp
    obtain ⟨here, hhere, hparts⟩ := Outcome.bind_eq_ok.mp hparts
    cases hparts
    rw [ofValue_read, hhere, ← all_single here]
    exact hp
  induction hstands generalizing tree with
  | here hmem =>
    obtain ⟨parts, hparts, hall⟩ := Outcome.bind_eq_ok.mp h
    cases hall
    obtain ⟨part, hpart, hpartvalue⟩ := mem_of_ofEntries hv hmem hparts
    cases hvalue.symm.trans hpartvalue
    exact .all hpart hrestricts .whole
  | @within filter inner relation q hmem hq _ ih =>
    obtain ⟨parts, hparts, hall⟩ := Outcome.bind_eq_ok.mp h
    cases hall
    obtain ⟨part, hpart, hpartvalue⟩ := mem_of_ofEntries (by simp) hmem hparts
    rw [ofValue, if_pos hq] at hpartvalue
    obtain ⟨op, _, hpartvalue⟩ := Outcome.bind_eq_ok.mp hpartvalue
    obtain ⟨nested, hnested, hpartvalue⟩ := Outcome.bind_eq_ok.mp hpartvalue
    cases hpartvalue
    refine .all hpart rfl (.nested (ih ?_))
    show (do return Predicate.all (← ofEntries inner)) = _
    rw [hnested]
    rfl

/-! ## where a mapping of quantifiers is compiled alike -/

variable {name : String} {entries : List (String × Value)}

/-- a filter without conditions in it is compiled without fail -/
theorem ofFilters_bare {filter : List (String × Value)} (h : Condition.bareEntries filter = true) :
    ofFilters (.record filter) = .ok (all (Condition.trees (Condition.ofEntries filter))) := by
  rw [ofFilters_read]
  exact Condition.ofConditions_eq
    (Condition.ofEntries_resolved filter (Condition.entriesSound_of_bare filter h))

theorem ofFilters_tree (name : String) {v : Value} (hbare : Condition.bare v = true)
    (hv : v ≠ .unset) :
    ofFilters (.record [(name, v)]) = .ok ((Condition.ofValue v).tree name) := by
  have hentries : Condition.ofEntries [(name, v)] = [(name, Condition.ofValue v)] := by
    rw [Condition.ofEntries]
    · rfl
    · exact hv
  rw [ofFilters_bare, hentries]
  · exact congrArg _ (all_single _)
  · rw [Condition.bareEntries, hbare]
    rfl

theorem bare_payload (hbare : Condition.bareEntries entries = true) (q : String) :
    Condition.bare (.record [(q, (Value.field? q entries).getD .null)]) = true := by
  have hpayload : Condition.bare ((Value.field? q entries).getD .null) = true := by
    rcases hfield : Value.field? q entries with _ | v
    · rfl
    · exact Condition.bare_of_mem_entries hbare _ (Value.mem_of_field? hfield)
  rw [Condition.bare, Condition.bareEntries, hpayload]
  rfl

theorem all_of_many {parts : List Predicate} (hrestrict : ∀ p ∈ parts, p.restricts = true)
    (hmany : 2 ≤ parts.length) : all parts = .conjunction parts := by
  unfold all
  rw [List.filter_eq_self.mpr hrestrict]
  match parts, hmany with
  | _ :: _ :: _, _ => rfl

/-- each of the quantifiers by itself, as a filter compiles it -/
def EachAlone (name : String) (entries : List (String × Value)) (q : String) (part : Predicate) :
    Prop :=
  ofFilters (.record [(name, .record [(q, (Value.field? q entries).getD .null)])]) = .ok part ∧
    ∃ op nested, quantifier q = .ok op ∧ part = .related name op nested

theorem restricts_each {qs : List String} {parts : List Predicate}
    (h : List.Forall₂ (EachAlone name entries) qs parts) : ∀ p ∈ parts, p.restricts = true := by
  induction h with
  | nil => exact fun _ hp => absurd hp List.not_mem_nil
  | cons hhere _ ih =>
    obtain ⟨_, _, _, _, rfl⟩ := hhere
    exact List.forall_mem_cons.mpr ⟨rfl, ih⟩

/-- A filter of one relation asks all of its quantifiers, each by itself. -/
theorem ofRelationFilters_discriminated (name : String) (h : Condition.Discriminated entries)
    (hbare : Condition.bareEntries entries = true) :
    ∃ parts, ofRelationFilters (.record [(name, .record entries)]) = .ok (all parts) ∧
      List.Forall₂ (EachAlone name entries) (Condition.named entries) parts := by
  refine ⟨(Condition.named entries).map fun q => (Condition.ofValue
    (.record [(q, (Value.field? q entries).getD .null)])).tree name, ?_, ?_⟩
  · have hsound : Condition.sound (.record entries) = true :=
      Condition.entriesSound_of_bare entries hbare
    have hresolved : ∀ e ∈ (Condition.ofRelation (.record entries)).map (name, ·),
        e.2.resolved = true := by
      intro e he
      obtain ⟨c, hc, rfl⟩ := List.mem_map.mp he
      exact Condition.ofRelation_resolved hsound c hc
    rw [ofRelationFilters_single, Condition.ofConditions_eq hresolved, h.ofRelation_eq,
      Condition.trees, List.map_map, List.map_map]
    rfl
  · rw [List.forall₂_map_right_iff, List.forall₂_same]
    intro q hq
    have hquantifier := (List.mem_filter.mp hq).1
    refine ⟨ofFilters_tree name (bare_payload hbare q) (by simp), ?_⟩
    rw [ofValue_quantified hquantifier, Condition.tree]
    exact ⟨_, _, Condition.quantifier_eq (by simpa using hquantifier), rfl⟩

/-- one quantifier is compiled alike -/
theorem alike_of_single (name q : String) (payload : Value)
    (h : Condition.Discriminated [(q, payload)]) :
    ofRelationFilters (.record [(name, .record [(q, payload)])])
      = ofFilters (.record [(name, .record [(q, payload)])]) := by
  have hnamed : Condition.named [(q, payload)] = [q] := List.perm_singleton.mp h.named_perm
  have hfield : Value.field? q [(q, payload)] = some payload := if_pos rfl
  rw [ofRelationFilters_single, h.ofRelation_eq, hnamed, List.map_singleton, hfield,
    ofFilters_single name (by simp)]
  rfl

/-- A mapping of quantifiers means the same in a filter as in a filter of relations exactly if it has
one quantifier.  In a filter of relations each quantifier is asked of the related records, as a filter
with this quantifier alone asks it; in any other filter several quantifiers are a value to compare
with.  So it is at every depth: what stands in a filter of related records is compiled there as in a
filter of its own. -/
theorem alike_iff_single (name : String) (h : Condition.Discriminated entries)
    (hbare : Condition.bareEntries entries = true) :
    ∃ p parts, ofFilters (.record [(name, .record entries)]) = .ok p ∧
      ofRelationFilters (.record [(name, .record entries)]) = .ok (all parts) ∧
      List.Forall₂ (EachAlone name entries) (Condition.named entries) parts ∧
      (p = all parts ↔ entries.length = 1) ∧
      (entries.length ≠ 1 → p = .compare name .eq (.record entries)) ∧
      ∀ filter tree, Condition.Stands name (.record entries) filter →
        ofFilters (.record filter) = .ok tree → Part p tree := by
  obtain ⟨parts, hrelation, hparts⟩ := ofRelationFilters_discriminated name h hbare
  have hfilter := ofFilters_tree name (v := .record entries) hbare (by simp)
  have hseveral : entries.length ≠ 1 →
      (Condition.ofValue (.record entries)).tree name = .compare name .eq (.record entries) := by
    intro hmany
    rw [h.ofValue_several hmany]
    rfl
  have halike : entries.length = 1 → (Condition.ofValue (.record entries)).tree name = all parts := by
    intro hone
    obtain ⟨⟨q, payload⟩, rfl⟩ := List.length_eq_one_iff.mp hone
    exact Except.ok.inj (hfilter.symm.trans ((alike_of_single name q payload h).symm.trans hrelation))
  have hapart : entries.length ≠ 1 → (Condition.ofValue (.record entries)).tree name ≠ all parts := by
    intro hmany
    have hlength : 2 ≤ parts.length := by
      have hpositive := List.length_pos_of_ne_nil h.given
      rw [← hparts.length_eq, h.named_length]
      omega
    rw [hseveral hmany, all_of_many (restricts_each hparts) hlength]
    exact nofun
  have hrestricts : ((Condition.ofValue (.record entries)).tree name).restricts = true := by
    by_cases hone : entries.length = 1
    · obtain ⟨⟨q, payload⟩, rfl⟩ := List.length_eq_one_iff.mp hone
      rw [ofValue_quantified (h.quantified _ List.mem_cons_self), Condition.tree]
      rfl
    · rw [hseveral hone]
      rfl
  refine ⟨_, parts, hfilter, hrelation, hparts, ?_, hseveral, ?_⟩
  · exact ⟨fun heq => not_not.mp fun hmany => hapart hmany heq, halike⟩
  · exact fun filter tree hstands htree => part_of_stands (by simp) hfilter hrestricts hstands htree

/-- one quantifier of posts, by itself and of the posts of an author -/
theorem alike_without_drafts :
    let drafts : List (String × Value) := [("none", .record [("draft", .bool true)])]
    let filter : List (String × Value) :=
      [("author", .record [("some", .record [("posts", .record drafts)])])]
    Condition.Discriminated drafts ∧ Condition.bareEntries drafts = true ∧
      ∃ p, ofFilters (.record [("posts", .record drafts)]) = .ok p ∧
        ofRelationFilters (.record [("posts", .record drafts)]) = .ok p ∧
        ∃ tree, ofFilters (.record filter) = .ok tree ∧ Part p tree := by
  intro drafts filter
  have hdrafts : Condition.Discriminated drafts :=
    ⟨List.cons_ne_nil _ _, List.nodup_singleton _, List.forall_mem_singleton.mpr (by decide)⟩
  obtain ⟨p, parts, hfilter, hrelation, _, halike, _, hpart⟩ :=
    alike_iff_single "posts" hdrafts rfl
  rw [← halike.mpr rfl] at hrelation
  refine ⟨hdrafts, rfl, p, hfilter, hrelation, _, rfl, hpart filter _ ?_ rfl⟩
  exact .within List.mem_cons_self (by decide) (.here List.mem_cons_self)

/-- Two quantifiers of posts are asked of the posts in a filter of relations; in another filter, also
in that of an author's relations, they are a value to compare the posts with. -/
theorem several_compared :
    let both : List (String × Value) :=
      [("some", .record [("a", .int 1)]), ("none", .record [("b", .int 2)])]
    Condition.Discriminated both ∧
      ofFilters (.record [("posts", .record both)]) = .ok (.compare "posts" .eq (.record both)) ∧
      ofRelationFilters (.record [("posts", .record both)]) = .ok (.conjunction
        [.related "posts" .some (.compare "a" .eq (.int 1)),
          .related "posts" .none (.compare "b" .eq (.int 2))]) ∧
      ofFilters (.record [("posts", .record both)])
        ≠ ofRelationFilters (.record [("posts", .record both)]) ∧
      ofRelationFilters
          (.record [("author", .record [("some", .record [("posts", .record both)])])])
        = .ok (.related "author" .some (.compare "posts" .eq (.record both))) := by
  intro both
  refine ⟨⟨List.cons_ne_nil _ _, ?_, ?_⟩, rfl, rfl, ?_, rfl⟩
  · show ["some", "none"].Nodup
    decide
  · simp only [both, List.forall_mem_cons]
    exact ⟨by decide, by decide, fun _ h => absurd h List.not_mem_nil⟩
  · intro heq
    cases heq

end Predicate

end ListQuery
