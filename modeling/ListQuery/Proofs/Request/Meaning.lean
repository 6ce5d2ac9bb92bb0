import ListQuery.Proofs.Condition.Meaning
import ListQuery.Proofs.Request.Resolved

/-!
# What a request asks of a row

A row is one that a request asks for when its filters, its relation filters, its search, one of its
groups and its exclusions say so, each judged by itself.  The tree that the request is compiled to
holds of just these rows.

* `SearchMode.matches`          whether a value matches a term;
* `Request.Accepts`             the row is one that the request asks for;
* `Request.Answerable`          no comparison that the request makes of the row is a fault;
* `Request.evaluate_predicate`  the tree of a request.
-/

namespace ListQuery

def SearchMode.holds : SearchMode → (text term : List Char) → Bool
  | .contains => fun text term => Text.occursIn term text
  | .exact => fun text term => text == term
  | .startsWith => Text.startsWith

/-- whether the text of a value matches a term; null never does, nor what has no text -/
def SearchMode.matches (mode : SearchMode) (term : String) (v : Value) : Bool :=
  !v.isNull && match v.text with
    | .ok text => mode.holds (Text.lowerFrom [] text) (Text.lowerFrom [] term.toList)
    | .error _ => false

namespace Request

/-- the row is one that the request asks for -/
structure Accepts (r : Request) (row : Value) : Prop where
  filters : ∀ e ∈ r.filters, e.2.meets (row.resolve e.1) = true
  relations : ∀ e ∈ r.relationFilters, ∀ c ∈ e.2, c.meets (row.resolve e.1) = true
  search : ∀ term, r.search = some term → term ≠ "" → r.searchFields ≠ [] →
    ∃ path ∈ r.searchFields, Condition.someItem (r.searchMode.matches term) (row.resolve path) = true
  groups : (∃ g ∈ r.orFilters, Condition.constrains g = true) →
    ∃ g ∈ r.orFilters, Condition.constrains g = true ∧
      ∀ e ∈ g, e.2.meets (row.resolve e.1) = true
  excluded : Condition.constrains r.notFilters = true →
    ¬ ∀ e ∈ r.notFilters, e.2.meets (row.resolve e.1) = true

structure Answerable (r : Request) (row : Value) : Prop where
  filters : ∀ e ∈ r.filters, e.2.answerable (row.resolve e.1) = true
  relations : ∀ e ∈ r.relationFilters, ∀ c ∈ e.2, c.answerable (row.resolve e.1) = true
  search : ∀ term, r.search = some term → term ≠ "" →
    ∀ path ∈ r.searchFields, Condition.eachItem (·.text.isOk) (row.resolve path) = true
  groups : ∀ g ∈ r.orFilters, ∀ e ∈ g, e.2.answerable (row.resolve e.1) = true
  excluded : ∀ e ∈ r.notFilters, e.2.answerable (row.resolve e.1) = true

end Request

/-! ## the tree of a request -/

namespace Predicate

theorem check?_mode (mode : SearchMode) :
    mode.operator.check? = some (Operator.guarded (Operator.foldedTest mode.holds)) := by
  cases mode <;> rfl

theorem term_decides (mode : SearchMode) (term : String) (v : Value) :
    Decides (compareWith mode.operator (.str term) v) (Condition.eachItem (·.text.isOk) v)
      (Condition.someItem (mode.matches term) v) := by
  refine compareWith_decides (check?_mode mode) (by cases mode <;> rfl) (fun x => ?_) v
  unfold Operator.guarded Operator.foldedTest Operator.folded SearchMode.matches
  cases hnull : x.isNull with
  | true => exact .inl rfl
  | false =>
    cases htext : x.text with
    | ok text => exact .inl rfl
    | error e => exact .inr ⟨rfl, e, rfl⟩

/-- a search asks some field for the term, if there are a term and fields -/
theorem search_decides (mode : SearchMode) (term : Option String) (fields : List String)
    (row : Value) :
    Decides ((search mode (.ofText? term) fields).evaluate row)
      (match term with
        | none => true
        | some term => term == "" ||
          fields.all fun path => Condition.eachItem (·.text.isOk) (row.resolve path))
      (match term with
        | none => true
        | some term => term == "" || fields.isEmpty ||
          fields.any fun path => Condition.someItem (mode.matches term) (row.resolve path)) := by
  cases term with
  | none => exact .inl (evaluate.eq_1 row)
  | some term =>
    by_cases hterm : term = ""
    · subst hterm
      exact .inl (evaluate.eq_1 row)
    · have htruthy : (Value.ofText? (some term)).truthy = true := by
        show decide (term ≠ "") = true
        rw [decide_eq_true_eq]
        exact hterm
      have hbeq : (term == "") = false := by simpa using hterm
      have hkeep : (fields.map fun path => compare path mode.operator (.str term)).filter restricts
          = fields.map fun path => compare path mode.operator (.str term) := by
        rw [List.filter_eq_self]
        intro p hp
        obtain ⟨path, _, rfl⟩ := List.mem_map.mp hp
        rfl
      have hany : (fields.map fun path => compare path mode.operator (.str term)).any restricts
          = !fields.isEmpty := by
        rw [any_restricts, hkeep, List.isEmpty_map]
      unfold search
      rw [if_pos htruthy]
      show Decides ((any (fields.map fun path => compare path mode.operator (.str term))).evaluate row)
        (term == "" || _) (term == "" || fields.isEmpty || _)
      rw [evaluate_any, hany, hkeep, hbeq, Bool.false_or, Bool.false_or]
      cases hfields : fields.isEmpty with
      | true => exact .inl rfl
      | false =>
        rw [Bool.not_false, if_pos rfl, Bool.false_or, evaluateAny_eq, anyTrue_map]
        refine Decides.any fun path _ => ?_
        rw [evaluate]
        exact term_decides mode term _

end Predicate

namespace Request

variable {r : Request}

def found (r : Request) (row : Value) : Bool :=
  match r.search with
  | none => true
  | some term => term == "" || r.searchFields.isEmpty ||
    r.searchFields.any fun path => Condition.someItem (r.searchMode.matches term) (row.resolve path)

def searchable (r : Request) (row : Value) : Bool :=
  match r.search with
  | none => true
  | some term => term == "" ||
    r.searchFields.all fun path => Condition.eachItem (·.text.isOk) (row.resolve path)

/-- the parts of a request, each judged by itself -/
def accepts (r : Request) (row : Value) : Bool :=
  Condition.allMeet r.filters row &&
    (Condition.allMeet (Predicate.ofRelationList r.relationFilters) row &&
      (r.found row &&
        ((!r.orFilters.any Condition.constrains ||
          (r.orFilters.filter Condition.constrains).any fun g => Condition.allMeet g row) &&
          (!Condition.constrains r.notFilters || !Condition.allMeet r.notFilters row))))

theorem groups_decides (h : ∀ g ∈ r.orFilters, ∀ e ∈ g, e.2.resolved = true) (row : Value) :
    Decides ((Predicate.any (r.orFilters.map fun g => .all (Condition.trees g))).evaluate row)
      (r.orFilters.all (Condition.allAnswerable · row))
      (!r.orFilters.any Condition.constrains ||
        (r.orFilters.filter Condition.constrains).any (Condition.allMeet · row)) := by
  have hrestricts : ∀ g : List (String × Condition),
      (Predicate.restricts ∘ fun g => Predicate.all (Condition.trees g)) g = Condition.constrains g :=
    Condition.trees_restricts
  have hany : (r.orFilters.map fun g => Predicate.all (Condition.trees g)).any Predicate.restricts
      = r.orFilters.any Condition.constrains := by
    rw [List.any_map, funext hrestricts]
  have hfilter : (r.orFilters.map fun g => Predicate.all (Condition.trees g)).filter
        Predicate.restricts
      = (r.orFilters.filter Condition.constrains).map fun g => .all (Condition.trees g) := by
    rw [List.filter_map, funext hrestricts]
  rw [Predicate.evaluate_any, hany, hfilter]
  cases r.orFilters.any Condition.constrains with
  | false => exact .inl rfl
  | true =>
    rw [if_pos rfl, Bool.not_true, Bool.false_or, Predicate.evaluateAny_eq, anyTrue_map]
    have heach : ∀ g ∈ r.orFilters.filter Condition.constrains,
        Decides ((Predicate.all (Condition.trees g)).evaluate row) (Condition.allAnswerable g row)
          (Condition.allMeet g row) :=
      fun g hg => Condition.trees_decides (h g (List.mem_filter.mp hg).1) row
    apply (Decides.any heach).weaken
    intro hall
    rw [List.all_eq_true] at hall ⊢
    exact fun g hg => hall g (List.mem_filter.mp hg).1

theorem excluded_decides (h : ∀ e ∈ r.notFilters, e.2.resolved = true) (row : Value) :
    Decides ((Predicate.negation [.all (Condition.trees r.notFilters)]).evaluate row)
      (Condition.allAnswerable r.notFilters row)
      (!Condition.constrains r.notFilters || !Condition.allMeet r.notFilters row) := by
  rw [Predicate.evaluate_negation, Condition.trees_restricts]
  cases Condition.constrains r.notFilters with
  | false => exact .inl rfl
  | true => exact (Condition.trees_decides h row).not

def answerable (r : Request) (row : Value) : Bool :=
  Condition.allAnswerable r.filters row &&
    (Condition.allAnswerable (Predicate.ofRelationList r.relationFilters) row &&
      (r.searchable row &&
        (r.orFilters.all (Condition.allAnswerable · row) &&
          Condition.allAnswerable r.notFilters row)))

theorem tree_decides (h : r.Resolved) (row : Value) :
    Decides (r.tree.evaluate row) (r.answerable row) (r.accepts row) := by
  have hfilters := Condition.trees_decides h.filters row
  have hrelations := Condition.trees_decides h.relation row
  have hsearch := Predicate.search_decides r.searchMode r.search r.searchFields row
  have hgroups := groups_decides h.groups row
  have hexcluded := excluded_decides h.excluded row
  have hparts := hfilters.and (hrelations.and (hsearch.and (hgroups.and
    (hexcluded.and (Decides.ok (m := true))))))
  rw [Bool.and_true, Bool.and_true] at hparts
  rw [tree, Predicate.evaluate_all]
  simp only [Predicate.evaluateAll]
  exact hparts

theorem allMeet_iff {cs : List (String × Condition)} {row : Value} :
    Condition.allMeet cs row = true ↔ ∀ e ∈ cs, e.2.meets (row.resolve e.1) = true :=
  List.all_eq_true

theorem found_iff {row : Value} : r.found row = true ↔
    ∀ term, r.search = some term → term ≠ "" → r.searchFields ≠ [] →
      ∃ path ∈ r.searchFields, Condition.someItem (r.searchMode.matches term) (row.resolve path) = true := by
  unfold found
  constructor
  · intro hfound term hterm hne hfields
    rw [hterm] at hfound
    simpa [hne, hfields] using hfound
  · intro hsearch
    cases hr : r.search with
    | none => rfl
    | some term =>
      by_cases hterm : term = ""
      · simp [hterm]
      · by_cases hfields : r.searchFields = []
        · simp [hfields]
        · obtain ⟨path, hpath, hmatch⟩ := hsearch term hr hterm hfields
          dsimp only
          rw [Bool.or_eq_true, List.any_eq_true]
          exact .inr ⟨path, hpath, hmatch⟩

theorem searchable_iff {row : Value} : r.searchable row = true ↔
    ∀ term, r.search = some term → term ≠ "" →
      ∀ path ∈ r.searchFields, Condition.eachItem (·.text.isOk) (row.resolve path) = true := by
  unfold searchable
  cases r.search with
  | none => exact ⟨fun _ _ h => (nomatch h), fun _ => rfl⟩
  | some term =>
    rw [Bool.or_eq_true, beq_iff_eq, List.all_eq_true]
    constructor
    · rintro h _ ⟨⟩ hne
      exact h.resolve_left hne
    · intro h
      by_cases hterm : term = ""
      · exact .inl hterm
      · exact .inr (h term rfl hterm)

theorem accepts_iff {row : Value} : r.accepts row = true ↔ r.Accepts row := by
  unfold accepts
  simp only [Bool.and_eq_true]
  constructor
  · rintro ⟨hfilters, hrelations, hsearch, hgroups, hexcluded⟩
    refine ⟨allMeet_iff.mp hfilters, ?_, found_iff.mp hsearch, ?_, ?_⟩
    · intro e he c hc
      exact allMeet_iff.mp hrelations (e.1, c) (mem_ofRelationList.mpr ⟨e, he, c, hc, rfl⟩)
    · rintro ⟨g, hg, hconstrains⟩
      have hany : r.orFilters.any Condition.constrains = true := List.any_eq_true.mpr ⟨g, hg, hconstrains⟩
      rw [hany, Bool.not_true, Bool.false_or, List.any_eq_true] at hgroups
      obtain ⟨g, hg, hmeet⟩ := hgroups
      obtain ⟨hmem, hg⟩ := List.mem_filter.mp hg
      exact ⟨g, hmem, hg, allMeet_iff.mp hmeet⟩
    · intro hconstrains hmeet
      rw [hconstrains, allMeet_iff.mpr hmeet] at hexcluded
      cases hexcluded
  · rintro ⟨hfilters, hrelations, hsearch, hgroups, hexcluded⟩
    refine ⟨allMeet_iff.mpr hfilters, ?_, found_iff.mpr hsearch, ?_, ?_⟩
    · rw [allMeet_iff]
      intro e he
      obtain ⟨entry, hentry, c, hc, rfl⟩ := mem_ofRelationList.mp he
      exact hrelations entry hentry c hc
    · cases hany : r.orFilters.any Condition.constrains with
      | false => rfl
      | true =>
        obtain ⟨g, hg, hconstrains⟩ := List.any_eq_true.mp hany
        obtain ⟨g, hg, hconstrains, hmeet⟩ := hgroups ⟨g, hg, hconstrains⟩
        rw [Bool.not_true, Bool.false_or, List.any_eq_true]
        exact ⟨g, List.mem_filter.mpr ⟨hg, hconstrains⟩, allMeet_iff.mpr hmeet⟩
    · cases hconstrains : Condition.constrains r.notFilters with
      | false => rfl
      | true =>
        have hnot := hexcluded hconstrains
        rw [← allMeet_iff, Bool.not_eq_true] at hnot
        rw [hnot]
        rfl

theorem answerable_of {row : Value} (h : r.Answerable row) : r.answerable row = true := by
  unfold answerable
  simp only [Bool.and_eq_true]
  refine ⟨List.all_eq_true.mpr h.filters, ?_, searchable_iff.mpr h.search, ?_,
    List.all_eq_true.mpr h.excluded⟩
  · rw [Condition.allAnswerable, List.all_eq_true]
    intro e he
    obtain ⟨entry, hentry, c, hc, rfl⟩ := mem_ofRelationList.mp he
    exact h.relations entry hentry c hc
  · rw [List.all_eq_true]
    intro g hg
    exact List.all_eq_true.mpr (h.groups g hg)

/-- A request is compiled to a tree that holds of exactly the rows that the request asks for.  Where
no comparison is a fault the tree has an answer, and whenever it has one it is the right one. -/
theorem evaluate_predicate (h : r.Resolved) (row : Value) :
    ∃ p, r.predicate = .ok p ∧
      (∀ answer, p.evaluate row = .ok answer → (answer = true ↔ r.Accepts row)) ∧
      (r.Answerable row → ∃ answer, p.evaluate row = .ok answer) := by
  have hdecides := tree_decides h row
  refine ⟨r.tree, predicate_eq_tree h, ?_, ?_⟩
  · intro answer hanswer
    rw [hdecides.answer hanswer]
    exact accepts_iff
  · intro hanswerable
    rw [answerable_of hanswerable] at hdecides
    exact ⟨_, hdecides.answered⟩

/-- adults with a published post, of either of two towns, but not the blocked ones -/
theorem evaluate_predicate_adults :
    let r : Request :=
      { filters := [("age", .range (.int 18) .null)]
        relationFilters := [("posts", [.related "some"
          (.record [("status", .condition (.exact (.str "published")))])])]
        orFilters := [[("town", .exact (.str "A"))], [("town", .exact (.str "B"))],
          [("age", .range .null .null)]]
        notFilters := [("blocked", .flag (.bool true))] }
    let row : Value := .record [("age", .int 20), ("town", .str "B"), ("blocked", .bool false),
      ("posts", .list [.record [("status", .str "draft")], .record [("status", .str "published")]])]
    ∃ p, r.predicate = .ok p ∧ p.evaluate row = .ok true ∧ r.Accepts row := by
  intro r row
  have hresolved : r.Resolved := by
    constructor
    · exact fun e he => by rw [List.mem_singleton.mp he]; rfl
    · intro e he
      rw [List.mem_singleton.mp he]
      exact ⟨List.cons_ne_nil _ _, fun c hc => by rw [List.mem_singleton.mp hc]; exact ⟨rfl, rfl⟩⟩
    · simp only [r, List.forall_mem_cons]
      exact ⟨⟨rfl, fun _ h => absurd h List.not_mem_nil⟩, ⟨rfl, fun _ h => absurd h List.not_mem_nil⟩,
        ⟨rfl, fun _ h => absurd h List.not_mem_nil⟩, fun _ h => absurd h List.not_mem_nil⟩
    · exact fun e he => by rw [List.mem_singleton.mp he]; rfl
  obtain ⟨p, hp, hmeaning, _⟩ := evaluate_predicate hresolved row
  cases hp
  exact ⟨_, rfl, rfl, (hmeaning true rfl).mp rfl⟩

end Request

end ListQuery
