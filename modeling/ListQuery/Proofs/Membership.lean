import ListQuery.Proofs.Trash

/-!
# Membership as a disjunction

A filter that asks for one of several values may be asked as groups of one exact value each: a
membership test of the values, or a test of each of them, of which a null is a null test.  Where the
value at the path is no list, or no null is among the values, both accept the same rows in any
request, and so with either the four questions have the same answers.

* `Value.among`                  one of the values, or a list with such an item;
* `Predicate.evaluate_oneOf`, `evaluate_groups`
                                 both ask whether the value at the path is among the values;
* `Request.MetBy`                a row that meets a request;
* `Request.metBy_oneOf`, `metBy_groups`
                                 what either adds to a request;
* `Builder.oneOf_disjunction`    the answers with the one and with the other.
-/

namespace ListQuery

/-! ## values among others -/

/-- one of the values, or a list with such an item -/
def Value.among (vs : List Value) : Value → Bool
  | .list items => items.any fun item => vs.any item.agrees
  | v => vs.any v.agrees

theorem Value.among_eq_any (vs : List Value) (v : Value) :
    v.among vs = true ↔ ∃ w ∈ vs, v.among [w] = true := by
  cases v with
  | list items =>
    simp only [among, List.any_eq_true, List.any_cons, List.any_nil, Bool.or_false]
    constructor
    · rintro ⟨item, hitem, w, hw, h⟩
      exact ⟨w, hw, item, hitem, h⟩
    · rintro ⟨w, hw, item, hitem, h⟩
      exact ⟨item, hitem, w, hw, h⟩
  | _ => simp only [among, List.any_eq_true, List.any_cons, List.any_nil, Bool.or_false]

def Value.Numeric (v : Value) : Prop := ∀ x, v = .float x → x.isNaN = false

theorem Value.Numeric.agrees {v : Value} (h : v.Numeric) (actual : Value) :
    actual.agrees v = actual.equals v := by
  have hsame : sameNaN actual v = false := by
    cases v with
    | float x =>
      have hx := h x rfl
      cases x with
      | nan => cases hx
      | infinity | finite => cases actual <;> first | rfl | (rename_i y; cases y <;> rfl)
    | _ => cases actual <;> rfl
  rw [Value.agrees, hsame, Bool.false_or]

namespace Predicate

theorem anyTrue_eq {α : Type} {test : α → Outcome Bool} {expected : α → Bool} {items : List α}
    (h : ∀ item ∈ items, test item = .ok (expected item)) :
    anyTrue test items = .ok (items.any expected) := by
  induction items with
  | nil => rfl
  | cons item rest ih =>
    rw [List.forall_mem_cons] at h
    rw [anyTrue, h.1, ih h.2, List.any_cons]
    cases expected item <;> rfl

theorem evaluate_oneOf (path : String) (vs : List Value) (row : Value) :
    (ofPlain path (.oneOf vs)).evaluate row = .ok ((row.resolve path).among vs) := by
  show compareWith .isIn (.tuple vs) (row.resolve path) = _
  cases row.resolve path with
  | list items => exact anyTrue_eq fun _ _ => rfl
  | _ => rfl

/-- the rows whose value at a path can be told apart by exact values: a list is null as a whole, while
its items are among the values one by one -/
def Separable (path : String) (vs : List Value) (row : Value) : Prop :=
  (∀ items, row.resolve path ≠ .list items) ∨ .null ∉ vs

theorem evaluate_exact {path : String} {v row : Value} (hv : v.Numeric)
    (hrow : Separable path [v] row) :
    (ofPlain path (.exact v)).evaluate row = .ok ((row.resolve path).among [v]) := by
  by_cases hnull : v = .null
  · subst hnull
    have hlist : ∀ items, row.resolve path ≠ .list items :=
      hrow.resolve_right fun h => h List.mem_cons_self
    refine (evaluate_isNull path row).1.trans (congrArg Except.ok ?_)
    cases hactual : row.resolve path with
    | list items => exact absurd hactual (hlist items)
    | _ => rfl
  · have htree : ofPlain path (.exact v) = .compare path .eq v := by
      rw [ofPlain]
      exact hnull
    rw [htree]
    show compareWith .eq v (row.resolve path) = _
    have hamong (actual : Value) : [v].any actual.agrees = actual.equals v := by
      rw [List.any_cons, List.any_nil, Bool.or_false, hv.agrees]
    cases row.resolve path with
    | list items =>
      exact anyTrue_eq fun item _ => congrArg Except.ok (hamong item).symm
    | _ => exact congrArg Except.ok (hamong _).symm

theorem exact_restricts (path : String) (v : Value) : (ofPlain path (.exact v)).restricts = true := by
  cases v <;> rfl

theorem ofConditions_exact (path : String) (v : Value) :
    ofConditions [(path, .exact v)] = .ok (ofPlain path (.exact v)) := by
  show Except.ok (all [ofPlain path (.exact v)]) = _
  rw [all, List.filter_cons_of_pos (exact_restricts path v), List.filter_nil]

theorem groups_compiled (path : String) (vs : List Value) :
    (vs.map fun v => [(path, Condition.exact v)]).mapM ofConditions
      = .ok (vs.map fun v => ofPlain path (.exact v)) := by
  rw [List.mapM_map]
  exact Outcome.mapM_of_forall fun v _ => ofConditions_exact path v

theorem evaluate_groups {path : String} {vs : List Value} {row : Value} (hvs : vs ≠ [])
    (hnumeric : ∀ v ∈ vs, v.Numeric) (hrow : Separable path vs row) :
    (any (vs.map fun v => ofPlain path (.exact v))).evaluate row
      = .ok ((row.resolve path).among vs) := by
  have hrestricts : ∀ p ∈ vs.map fun v => ofPlain path (.exact v), p.restricts = true := by
    intro p hp
    obtain ⟨v, -, rfl⟩ := List.mem_map.mp hp
    exact exact_restricts path v
  have hsome : (vs.map fun v => ofPlain path (.exact v)).any restricts = true := by
    obtain ⟨v, hv⟩ := List.exists_mem_of_ne_nil vs hvs
    exact List.any_eq_true.mpr ⟨_, List.mem_map_of_mem hv, exact_restricts path v⟩
  have hexact : ∀ v ∈ vs,
      (ofPlain path (.exact v)).evaluate row = .ok ((row.resolve path).among [v]) := fun v hv =>
    evaluate_exact (hnumeric v hv) <| hrow.imp_right fun hnull h =>
      hnull (List.mem_singleton.mp h ▸ hv)
  rw [evaluate_any, if_pos hsome, List.filter_eq_self.mpr hrestricts, evaluateAny_eq, anyTrue_map,
    anyTrue_eq hexact, Except.ok.injEq, Bool.eq_iff_iff, Value.among_eq_any, List.any_eq_true]

end Predicate

/-! ## rows that meet a request -/

namespace Request

variable {r : Request} {path : String} {vs : List Value} {row : Value}

/-- the request can be compiled, and the row meets what it is compiled to -/
def MetBy (r : Request) (row : Value) : Prop := ∃ p, r.predicate = .ok p ∧ p.evaluate row = .ok true

theorem holds_iff {p : Predicate} (hp : r.predicate = .ok p) : p.holds row = true ↔ r.MetBy row := by
  unfold MetBy Predicate.holds
  rw [hp]
  constructor
  · intro h
    refine ⟨p, rfl, ?_⟩
    cases hrow : p.evaluate row with
    | error e =>
      rw [hrow] at h
      cases h
    | ok met =>
      rw [hrow] at h
      exact congrArg Except.ok h
  · rintro ⟨_, hcompiled, hrow⟩
    cases hcompiled
    rw [hrow]

theorem metBy_iff : r.MetBy row ↔
    (∃ parts, Predicate.ofConditionList r.filters = .ok parts ∧
      ∀ p ∈ parts, p.evaluate row = .ok true) ∧
    (∃ p, Predicate.ofRelations r.relationFilters = .ok p ∧ p.evaluate row = .ok true) ∧
    (Predicate.search r.searchMode (.ofText? r.search) r.searchFields).evaluate row = .ok true ∧
    (∃ groups, r.orFilters.mapM Predicate.ofConditions = .ok groups ∧
      (Predicate.any groups).evaluate row = .ok true) ∧
    ∃ p, Predicate.excluding r.notFilters = .ok p ∧ p.evaluate row = .ok true := by
  unfold MetBy predicate
  constructor
  · rintro ⟨p, hp, hrow⟩
    obtain ⟨filters, hfilters, hp⟩ := Outcome.bind_eq_ok.mp hp
    obtain ⟨parts, hparts, hfilters⟩ := Outcome.bind_eq_ok.mp hfilters
    obtain ⟨relations, hrelations, hp⟩ := Outcome.bind_eq_ok.mp hp
    obtain ⟨groups, hgroups, hp⟩ := Outcome.bind_eq_ok.mp hp
    obtain ⟨excluded, hexcluded, hp⟩ := Outcome.bind_eq_ok.mp hp
    cases hfilters
    cases hp
    simp only [Predicate.evaluate_all, Predicate.evaluateAll_true, List.forall_mem_cons] at hrow
    obtain ⟨hfilters, hrelation, hsearch, hgroup, hexclusion, -⟩ := hrow
    exact ⟨⟨parts, hparts, hfilters⟩, ⟨relations, hrelations, hrelation⟩, hsearch,
      ⟨groups, hgroups, hgroup⟩, excluded, hexcluded, hexclusion⟩
  · rintro ⟨⟨parts, hparts, hfilters⟩, ⟨relations, hrelations, hrelation⟩, hsearch,
      ⟨groups, hgroups, hgroup⟩, excluded, hexcluded, hexclusion⟩
    have hfilters' : Predicate.ofConditions r.filters = .ok (.all parts) := by
      rw [Predicate.ofConditions, hparts]
      rfl
    refine ⟨_, by rw [hfilters', hrelations, hgroups, hexcluded]; rfl, ?_⟩
    simp only [Predicate.evaluate_all, Predicate.evaluateAll_true, List.forall_mem_cons]
    exact ⟨hfilters, hrelation, hsearch, hgroup, hexclusion, fun _ hp => absurd hp List.not_mem_nil⟩

/-- a further filter of exactly these values is met by rows with a value among them -/
theorem metBy_oneOf : ({ r with filters := r.filters ++ [(path, .oneOf vs)] } : Request).MetBy row ↔
    r.MetBy row ∧ (row.resolve path).among vs = true := by
  have htest : Predicate.ofCondition path (.oneOf vs)
      = .ok (Predicate.ofPlain path (.oneOf vs)) := rfl
  have hfilters : (∃ parts, Predicate.ofConditionList (r.filters ++ [(path, .oneOf vs)]) = .ok parts ∧
        ∀ p ∈ parts, p.evaluate row = .ok true) ↔
      (∃ parts, Predicate.ofConditionList r.filters = .ok parts ∧
        ∀ p ∈ parts, p.evaluate row = .ok true) ∧ (row.resolve path).among vs = true := by
    constructor
    · rintro ⟨parts, hparts, hrow⟩
      obtain ⟨front, back, hfront, hback, rfl⟩ := Predicate.ofConditionList_append hparts
      obtain rfl : [Predicate.ofPlain path (.oneOf vs)] = back := Except.ok.inj hback
      rw [List.forall_mem_append, List.forall_mem_singleton, Predicate.evaluate_oneOf] at hrow
      exact ⟨⟨front, hfront, hrow.1⟩, Except.ok.inj hrow.2⟩
    · rintro ⟨⟨parts, hparts, hrow⟩, hamong⟩
      refine ⟨_, Predicate.ofConditionList_snoc hparts htest, ?_⟩
      rw [List.forall_mem_append, List.forall_mem_singleton, Predicate.evaluate_oneOf, hamong]
      exact ⟨hrow, rfl⟩
  rw [metBy_iff, metBy_iff, hfilters]
  tauto

/-- groups of one of these values each are met by rows with a value among them -/
theorem metBy_groups (hgroups : r.orFilters = []) (hvs : vs ≠ []) (hnumeric : ∀ v ∈ vs, v.Numeric)
    (hrow : Predicate.Separable path vs row) :
    ({ r with orFilters := vs.map fun v => [(path, .exact v)] } : Request).MetBy row ↔
      r.MetBy row ∧ (row.resolve path).among vs = true := by
  have hnone : ∃ groups, r.orFilters.mapM Predicate.ofConditions = .ok groups ∧
      (Predicate.any groups).evaluate row = .ok true := by
    rw [hgroups]
    exact ⟨[], rfl, rfl⟩
  have hsome : (∃ groups, (vs.map fun v => [(path, Condition.exact v)]).mapM Predicate.ofConditions
        = .ok groups ∧ (Predicate.any groups).evaluate row = .ok true) ↔
      (row.resolve path).among vs = true := by
    rw [Predicate.groups_compiled]
    constructor
    · rintro ⟨_, hcompiled, h⟩
      cases hcompiled
      rw [Predicate.evaluate_groups hvs hnumeric hrow] at h
      exact Except.ok.inj h
    · intro h
      refine ⟨_, rfl, ?_⟩
      rw [Predicate.evaluate_groups hvs hnumeric hrow, h]
  rw [metBy_iff, metBy_iff, hsome]
  tauto

theorem groups_alone {groups : List (List (String × Condition))} {ps : List Predicate}
    (h : groups.mapM Predicate.ofConditions = .ok ps) :
    ∃ q, ({ orFilters := groups } : Request).predicate = .ok q ∧
      ∀ row, q.evaluate row = (Predicate.any ps).evaluate row := by
  refine ⟨.all [.unrestricted, .unrestricted, .unrestricted, .any ps, .unrestricted], ?_,
    fun row => ?_⟩
  · unfold predicate
    dsimp only
    rw [h]
    rfl
  · rw [Predicate.evaluate_all]
    show (do
      if ← (Predicate.any ps).evaluate row then (.ok true : Outcome Bool) else return false) = _
    rcases (Predicate.any ps).evaluate row with e | met
    · rfl
    · cases met <;> rfl

/-! ### either form -/

theorem withFilters_new (h : Quantified r.relationFilters) (hpath : path ∉ r.filters.map Prod.fst)
    (c : Condition) : r.withFilters (.record [(path, .condition c)])
      = .ok { r with filters := r.filters ++ [(path, c)] } := by
  have hheld : Builder.within [(path, .condition c)] r = .ok (r.holding [(path, .condition c)]) :=
    within_holding h
  rw [holding_new (by simp) hpath, Condition.ofValue_condition] at hheld
  exact hheld

theorem merged_groups (h : Quantified r.relationFilters) {groups : List (List (String × Condition))}
    (hne : groups ≠ []) : r.merged (.record [("or_filters", .list (groups.map conditionsValue))])
      = .ok { r with orFilters := groups } := by
  let fields := Value.put "or_filters" (.list (groups.map conditionsValue)) r.toFields
  have hlist : groupsOf (.list (groups.map conditionsValue))
      = groupsOf (.tuple (groups.map conditionsValue)) := by
    cases groups with
    | nil => exact absurd rfl hne
    | cons g rest => rfl
  have hput : ({ r with orFilters := groups } : Request).toFields
      = Value.put "or_filters" (.tuple (groups.map conditionsValue)) r.toFields := by
    simp [Value.put, toFields]
  have hother (name : String) (hname : name ≠ "or_filters") : Value.field? name fields
      = Value.field? name ({ r with orFilters := groups } : Request).toFields := by
    rw [hput, Value.field?_put_of_ne hname, Value.field?_put_of_ne hname]
  rw [merged_record]
  refine Eq.trans ?_ (readFrom_toFields (r := { r with orFilters := groups }) h).ofFields_eq
  apply ofFields_congr
  · intro name hname
    exact hother name fun h => hname (by simp [h])
  · exact congrArg (fun v => Condition.ofFilters (v.getD .null)) (hother "filters" (by decide))
  · rw [hput, fieldOrNull, fieldOrNull]
    exact (congrArg (fun v => groupsOf (v.getD .null)) (Value.field?_put_self ..)).trans
      (hlist.trans (congrArg (fun v => groupsOf (v.getD .null)) (Value.field?_put_self ..)).symm)

end Request

/-! ## answers -/

theorem Store.matched_same {s : Store} {q r : Request} (hmodel : q.model = r.model)
    (hmet : ∀ stored, s.rows (.ofText? q.model) = .ok stored →
      ∀ row ∈ stored, q.MetBy row ↔ r.MetBy row)
    {rows others : List Value} (hq : s.matched q = .ok rows) (hr : s.matched r = .ok others) :
    rows = others := by
  obtain ⟨p, hp, hmatched⟩ := Outcome.bind_eq_ok.mp hq
  obtain ⟨stored, hstored, hselected⟩ := Outcome.bind_eq_ok.mp hmatched
  obtain ⟨p', hp', hmatched'⟩ := Outcome.bind_eq_ok.mp hr
  obtain ⟨stored', hstored', hselected'⟩ := Outcome.bind_eq_ok.mp hmatched'
  rw [← hmodel] at hstored'
  obtain rfl := Except.ok.inj (hstored.symm.trans hstored')
  rw [Predicate.holds_of_select hselected, Predicate.holds_of_select hselected']
  refine List.filter_congr fun row hrow => Bool.eq_iff_iff.mpr ?_
  rw [Request.holds_iff hp, Request.holds_iff hp']
  exact hmet stored hstored row hrow

namespace Builder

/-- A filter that asks for one of several values is a disjunction.  Let no value be a double that is
not a number, and take rows whose value at the path is no list, or any rows if no null is among the
values.  A request of that filter alone, and one of groups of one exact value each, have the same
answer for such a row.  Either may be added to any request without groups and without a filter on
that path: such a row meets the one exactly if it meets the other.  So if all rows of the collection
are such, and neither request is a fault on one of them, both match the same rows and the four
questions have the same answers. -/
theorem oneOf_disjunction {S : Type} (store : S → Store) (config : Config)
    {fields : List (String × Value)} {r : Request} (hread : Request.ofFields fields = .ok r)
    (hgroups : r.orFilters = []) {path : String} (hpath : path ∉ r.filters.map Prod.fst)
    {vs : List Value} (hvs : vs ≠ []) (hnumeric : ∀ v ∈ vs, v.Numeric) :
    let filter : Value := .record [(path, .condition (.oneOf vs))]
    let groups : Value := .list (vs.map fun v => .record [(path, .condition (.exact v))])
    (∃ one several : Request, ∃ p q : Predicate,
      Request.ofFields [("filters", filter)] = .ok one ∧ one.predicate = .ok p ∧
      Request.ofFields [("or_filters", groups)] = .ok several ∧ several.predicate = .ok q ∧
      ∀ row, Predicate.Separable path vs row →
        ∃ met, p.evaluate row = .ok met ∧ q.evaluate row = .ok met) ∧
    ∃ one several : Request, r.withFilters filter = .ok one ∧
      r.merged (.record [("or_filters", groups)]) = .ok several ∧
      (∀ row, Predicate.Separable path vs row → (one.MetBy row ↔ several.MetBy row)) ∧
      ∀ (w : Logged S) (rows others : List Value),
        (∀ stored, (store w.state).rows (.ofText? r.model) = .ok stored →
          ∀ row ∈ stored, Predicate.Separable path vs row) →
        (store w.state).matched one = .ok rows → (store w.state).matched several = .ok others →
        rows = others ∧
        (∀ maxLimit, (((base config (.ofStore store)).query one maxLimit).runOn w).1
          = (((base config (.ofStore store)).query several maxLimit).runOn w).1) ∧
        (((base config (.ofStore store)).cursorQuery one).runOn w).1
          = (((base config (.ofStore store)).cursorQuery several).runOn w).1 ∧
        (((base config (.ofStore store)).count one).runOn w).1
          = (((base config (.ofStore store)).count several).runOn w).1 ∧
        ∀ aggregations, (((base config (.ofStore store)).aggregate one aggregations).runOn w).1
          = (((base config (.ofStore store)).aggregate several aggregations).runOn w).1 := by
  intro filter groups
  have hquantified := Request.relationsOf_quantified (Request.ofFields_readFrom hread).relations
  have hlist : groups = .list ((vs.map fun v => [(path, .exact v)]).map Request.conditionsValue) := by
    rw [List.map_map]
    rfl
  have hne : (vs.map fun v => [(path, Condition.exact v)]) ≠ [] := by simpa using hvs
  constructor
  · have hempty : Request.ofFields [] = .ok {} := rfl
    have hnone : Request.Quantified ({} : Request).relationFilters := fun _ he => by cases he
    obtain ⟨q, hq, hasks⟩ := Request.groups_alone (Predicate.groups_compiled path vs)
    refine ⟨{ filters := [(path, .oneOf vs)] }, { orFilters := vs.map fun v => [(path, .exact v)] },
      Predicate.ofPlain path (.oneOf vs), q, ?_, rfl, ?_, hq, fun row hrow => ?_⟩
    · rfl
    · rw [hlist]
      exact (Request.merged_eq_ofFields hempty _).symm.trans (Request.merged_groups hnone hne)
    · refine ⟨_, Predicate.evaluate_oneOf path vs row, ?_⟩
      rw [hasks, Predicate.evaluate_groups hvs hnumeric hrow]
  · let one : Request := { r with filters := r.filters ++ [(path, .oneOf vs)] }
    let several : Request := { r with orFilters := vs.map fun v => [(path, .exact v)] }
    have hmodel : one.model = several.model := rfl
    have hmet : ∀ row, Predicate.Separable path vs row → (one.MetBy row ↔ several.MetBy row) :=
      fun row hrow => Request.metBy_oneOf.trans (Request.metBy_groups hgroups hvs hnumeric hrow).symm
    refine ⟨one, several, Request.withFilters_new hquantified hpath _,
      hlist ▸ Request.merged_groups hquantified hne, hmet,
      fun w rows others hrows hone hseveral => ?_⟩
    obtain rfl : rows = others := Store.matched_same hmodel
      (fun stored hstored row hrow => hmet row (hrows stored hstored row hrow)) hone hseveral
    obtain ⟨p, hp, hone⟩ := Outcome.bind_eq_ok.mp hone
    obtain ⟨q, hq, hseveral⟩ := Outcome.bind_eq_ok.mp hseveral
    exact ⟨rfl, base_matching store config w hp hq
      (.filters r.filters r.relationFilters several.orFilters r.notFilters)
      (hone.trans hseveral.symm)⟩

/-- a null, a number and a text, of which the number is also a truth value -/
theorem oneOf_disjunction_mixed :
    let row (kind : String) (rest : List (String × Value)) : Value :=
      .record (("kind", .str kind) :: rest)
    let rows : List Value := [row "a" [("meta", .record [("n", .int 1)])],
      row "a" [("meta", .record [("n", .null)])], row "a" [],
      row "a" [("meta", .record [("n", .int 2)])],
      row "b" [("meta", .record [("n", .int 1)])], row "a" [("meta", .record [("n", .bool true)])]]
    let fields : List (String × Value) :=
      [("model", .str "m"), ("filters", .record [("kind", .str "a")])]
    let vs : List Value := [.null, .int 1, .str "one"]
    let w : Logged Store := ⟨⟨[(.str "m", rows)]⟩, []⟩
    ∃ r one several : Request, Request.ofFields fields = .ok r ∧ r.orFilters = [] ∧
      "meta.n" ∉ r.filters.map Prod.fst ∧ vs ≠ [] ∧ (∀ v ∈ vs, v.Numeric) ∧
      (∀ row ∈ rows, Predicate.Separable "meta.n" vs row) ∧
      r.withFilters (.record [("meta.n", .condition (.oneOf vs))]) = .ok one ∧
      r.merged (.record [("or_filters", .list (vs.map fun v =>
        .record [("meta.n", .condition (.exact v))]))]) = .ok several ∧
      (((base {} (.ofStore id)).count one).runOn w).1 = .ok 4 ∧
      (((base {} (.ofStore id)).count several).runOn w).1 = .ok 4 := by
  intro row rows fields vs w
  let r : Request := { model := some "m", filters := [("kind", .exact (.str "a"))] }
  let one : Request := { r with filters := r.filters ++ [("meta.n", .oneOf vs)] }
  let several : Request := { r with orFilters := vs.map fun v => [("meta.n", .exact v)] }
  have hread : Request.ofFields fields = .ok r := rfl
  have hpath : "meta.n" ∉ r.filters.map Prod.fst := by decide
  have hvs : vs ≠ [] := List.cons_ne_nil _ _
  have hnumeric : ∀ v ∈ vs, v.Numeric := by
    rintro v hv x rfl
    simp [vs] at hv
  have hrows : ∀ row ∈ rows, Predicate.Separable "meta.n" vs row := by
    intro row hrow
    refine .inl fun items h => ?_
    simp only [rows, List.mem_cons, List.not_mem_nil, or_false] at hrow
    rcases hrow with rfl | rfl | rfl | rfl | rfl | rfl <;> cases h
  obtain ⟨-, one', several', hone, hseveral, -, hanswers⟩ :=
    oneOf_disjunction id {} hread rfl hpath hvs hnumeric
  obtain rfl : one = one' := Except.ok.inj (Eq.trans rfl hone)
  obtain rfl : several = several' := Except.ok.inj (Eq.trans rfl hseveral)
  have hstored : ∀ stored, w.state.rows (.ofText? r.model) = .ok stored →
      ∀ row ∈ stored, Predicate.Separable "meta.n" vs row := by
    intro stored h
    obtain rfl : rows = stored := Except.ok.inj h
    exact hrows
  have hmatched : w.state.matched one = .ok (rows.take 3 ++ rows.drop 5) := rfl
  have hcount : (((base {} (.ofStore id)).count one).runOn w).1 = .ok 4 := rfl
  have hsame := (hanswers w _ _ hstored hmatched rfl).2.2.2.1
  exact ⟨r, one, several, hread, rfl, hpath, hvs, hnumeric, hrows, hone, hseveral, hcount,
    hsame.symm.trans hcount⟩

end Builder

end ListQuery
