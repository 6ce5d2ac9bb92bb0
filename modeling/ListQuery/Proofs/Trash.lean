import ListQuery.Proofs.Outsiders

/-!
# Live and trashed rows

A deleted row is only marked, by a value that is not null in one of its fields.  The scopes of live
and of trashed rows put a null test of that field behind the filters of a request.  Such a test is no
fault on any row, and one or the other is met: so where a request has an answer the two scopes have
theirs, and the rows of the one and of the other are all the rows that the request matches.

* `Store.matched`               the rows that a request matches;
* `Request.predicate_tested`    a request with a further filter, which is no fault on any row;
* `Trash.keeps`                 the rows that a scope of live or trashed rows keeps;
* `Store.matched_softDelete`    what a request matches within such a scope;
* `Divided`                     two lists that make up a third, in its order;
* `Builder.softDelete_divides`  the live and the trashed rows make up all rows.
-/

namespace ListQuery

/-! ## rows that match -/

def Store.matched (s : Store) (r : Request) : Outcome (List Value) := do
  s.matching (.ofText? r.model) (← r.predicate)

theorem Store.answerCount_ok {s : Store} {r : Request} {n : Nat} :
    s.answerCount r = .ok n ↔ ∃ rows, s.matched r = .ok rows ∧ rows.length = n := by
  unfold answerCount Plan.ofCount matched
  cases r.predicate with
  | error e => exact iff_of_false (fun h => nomatch h) fun ⟨_, h, _⟩ => nomatch h
  | ok p =>
    show (s.matching (.ofText? r.model) p >>= fun rows => .ok rows.length) = .ok n ↔ _
    rw [Outcome.bind_eq_ok]
    simp only [Outcome.ok_bind, Except.ok.injEq]

/-! ## one more filter -/

theorem Condition.ofEntries_append (xs ys : List (String × Value)) :
    ofEntries (xs ++ ys) = ofEntries xs ++ ofEntries ys := by
  induction xs with
  | nil => rw [List.nil_append, ofEntries, List.nil_append]
  | cons e rest ih =>
    obtain ⟨name, v⟩ := e
    by_cases hv : v = .unset
    · subst hv
      rw [List.cons_append, ofEntries, ofEntries, ih]
    · rw [List.cons_append, ofEntries, ofEntries, ih, List.cons_append]
      · exact hv
      · exact hv

theorem Predicate.ofConditionList_snoc {cs : List (String × Condition)} {ps : List Predicate}
    (hcs : ofConditionList cs = .ok ps) {path : String} {c : Condition} {p : Predicate}
    (hc : ofCondition path c = .ok p) : ofConditionList (cs ++ [(path, c)]) = .ok (ps ++ [p]) := by
  induction cs generalizing ps with
  | nil =>
    cases hcs
    rw [List.nil_append, ofConditionList, hc]
    rfl
  | cons e rest ih =>
    rw [ofConditionList, Outcome.bind_eq_ok] at hcs
    obtain ⟨here, hhere, hcs⟩ := hcs
    obtain ⟨others, hothers, hcs⟩ := Outcome.bind_eq_ok.mp hcs
    cases hcs
    rw [List.cons_append, ofConditionList, hhere, ih hothers]
    rfl

namespace Request

variable {r : Request} {path : String}

theorem holding_new {v : Value} (hv : v ≠ .unset) (hpath : path ∉ r.filters.map Prod.fst) :
    r.holding [(path, v)] = { r with filters := r.filters ++ [(path, Condition.ofValue v)] } := by
  have hnames : path ∉ (Condition.asEntries r.filters).map Prod.fst := by
    unfold Condition.asEntries
    rw [List.map_map]
    exact hpath
  have hone : Condition.ofEntries [(path, v)] = [(path, Condition.ofValue v)] := by
    rw [Condition.ofEntries, Condition.ofEntries]
    exact hv
  unfold holding
  rw [Value.overlay_cons, Value.put_of_notMem v hnames]
  show { r with filters := Condition.ofEntries (Condition.asEntries r.filters ++ [(path, v)]) } = _
  rw [Condition.ofEntries_append, ofEntries_asEntries, hone]

/-- a request with a further filter asks what it asked before, and then what the filter asks -/
theorem predicate_tested {c : Condition} {p test : Predicate} (hp : r.predicate = .ok p)
    (hc : Predicate.ofCondition path c = .ok test) :
    ∃ q, ({ r with filters := r.filters ++ [(path, c)] } : Request).predicate = .ok q ∧
      ∀ row b keep, p.evaluate row = .ok b → test.evaluate row = .ok keep →
        q.evaluate row = .ok (b && keep) := by
  unfold predicate at hp
  rw [Outcome.bind_eq_ok] at hp
  obtain ⟨filters, hfilters, hp⟩ := hp
  obtain ⟨relations, hrelations, hp⟩ := Outcome.bind_eq_ok.mp hp
  obtain ⟨groups, hgroups, hp⟩ := Outcome.bind_eq_ok.mp hp
  obtain ⟨excluded, hexcluded, hp⟩ := Outcome.bind_eq_ok.mp hp
  cases hp
  rw [Predicate.ofConditions, Outcome.bind_eq_ok] at hfilters
  obtain ⟨parts, hparts, hfilters⟩ := hfilters
  cases hfilters
  let search := Predicate.search r.searchMode (.ofText? r.search) r.searchFields
  let rest := [relations, search, .any groups, excluded]
  have htested : Predicate.ofConditions (r.filters ++ [(path, c)]) = .ok (.all (parts ++ [test])) := by
    rw [Predicate.ofConditions, Predicate.ofConditionList_snoc hparts hc]
    rfl
  refine ⟨.all (.all (parts ++ [test]) :: rest), ?_, fun row b keep hrow hkeep => ?_⟩
  · unfold predicate
    dsimp only
    rw [htested, hrelations, hgroups, hexcluded]
    rfl
  · rw [Predicate.evaluate_all, Predicate.evaluateAll, Predicate.evaluate_all] at hrow ⊢
    rw [Predicate.evaluateAll_append, Predicate.evaluateAll, hkeep]
    cases hown : Predicate.evaluateAll parts row with
    | error e =>
      rw [hown] at hrow
      cases hrow
    | ok own =>
      rw [hown] at hrow
      cases own with
      | false =>
        cases hrow
        rfl
      | true =>
        cases keep with
        | false =>
          rw [Bool.and_false]
          rfl
        | true =>
          rw [Bool.and_true]
          exact hrow

end Request

/-! ## scopes of live and trashed rows -/

/-- the rows that a scope keeps: those with a null mark, those with another, or both -/
def Trash.keeps (t : Trash) (field : String) (row : Value) : Bool :=
  match t with
  | .live => (row.resolve field).isNull
  | .trashed => !(row.resolve field).isNull
  | .both => true

theorem Predicate.evaluate_isNull (path : String) (row : Value) :
    (compare path .isNull .null).evaluate row = .ok (row.resolve path).isNull ∧
      (compare path .isNotNull .null).evaluate row = .ok !(row.resolve path).isNull := by
  rw [evaluate, evaluate]
  cases row.resolve path <;> exact ⟨rfl, rfl⟩

/-- within a scope a request matches those of its rows that the scope keeps -/
theorem Store.matched_softDelete {s : Store} {r : Request}
    (hr : Request.Quantified r.relationFilters) {field : String}
    (hfield : field ∉ r.filters.map Prod.fst) {rows : List Value} (hrows : s.matched r = .ok rows)
    (t : Trash) :
    ∃ held, Builder.within (Scope.softDelete t field) r = .ok held ∧
      s.matched held = .ok (rows.filter (t.keeps field)) := by
  refine ⟨r.holding (Scope.softDelete t field), Request.within_holding hr, ?_⟩
  obtain ⟨p, hp, hmatched⟩ := Outcome.bind_eq_ok.mp hrows
  obtain ⟨stored, hstored, hselected⟩ := Outcome.bind_eq_ok.mp hmatched
  -- a mark that is tested stands behind the other filters, and keeps what its test keeps
  have hmark {v : Value} {c : Condition} {test : Predicate} (hv : v ≠ .unset)
      (hread : Condition.ofValue v = c) (hc : Predicate.ofCondition field c = .ok test)
      (htest : ∀ row, test.evaluate row = .ok (t.keeps field row)) :
      s.matched (r.holding [(field, v)]) = .ok (rows.filter (t.keeps field)) := by
    obtain ⟨q, hq, hasks⟩ := Request.predicate_tested hp hc
    unfold matched
    rw [Request.holding_new hv hfield, hread, hq, Outcome.ok_bind]
    unfold matching
    rw [hstored, Outcome.ok_bind]
    exact Predicate.select_tested (fun row _ b hb => hasks row b _ hb (htest row)) hselected
  cases t with
  | live =>
    exact hmark (by simp) (by rw [Condition.ofValue] <;> simp) rfl
      fun row => (Predicate.evaluate_isNull field row).1
  | trashed =>
    exact hmark (by simp) (by rw [Condition.ofValue]) rfl
      fun row => (Predicate.evaluate_isNull field row).2
  | both =>
    have hall : rows.filter (Trash.both.keeps field) = rows :=
      List.filter_eq_self.mpr fun _ _ => rfl
    rw [hall]
    exact (congrArg s.matched (Request.holding_nil r)).trans hrows

/-! ## division -/

/-- two lists that have no item in common and make up a third, each in its order -/
structure Divided (whole part rest : List Value) : Prop where
  left : part.Sublist whole
  right : rest.Sublist whole
  disjoint : part.Disjoint rest
  all : (part ++ rest).Perm whole

theorem divided_filter (keep : Value → Bool) (rows : List Value) :
    Divided rows (rows.filter keep) (rows.filter fun row => !keep row) where
  left := List.filter_sublist
  right := List.filter_sublist
  disjoint := by
    intro row hrow hother
    have hkept := (List.mem_filter.mp hrow).2
    have hleft := (List.mem_filter.mp hother).2
    rw [hkept] at hleft
    cases hleft
  all := List.filter_append_perm keep rows

namespace Builder

/-- Whatever else a request asks, if it has no filter of the field that marks deleted rows and has an
answer on all rows, then its live rows and its trashed ones are all the rows that it matches, none of
them in both and each in stored order.  So the two counts add up to the count of all. -/
theorem softDelete_divides {S : Type} (store : S → Store) (config : Config)
    {fields : List (String × Value)} {r : Request} (hread : Request.ofFields fields = .ok r)
    {field : String} (hfield : field ∉ r.filters.map Prod.fst) (w : Logged S) {total : Nat}
    (htotal : (((base config (.ofStore store)).count r).runOn w).1 = .ok total) :
    ∃ stored live trashed both : List Value,
      (store w.state).rows (.ofText? r.model) = .ok stored ∧ both.Sublist stored ∧
      Divided both live trashed ∧ (store w.state).matched r = .ok both ∧
      (∀ includeTrashed trashedOnly,
        let rows := if includeTrashed then both else if trashedOnly then trashed else live
        let t := Trash.of includeTrashed trashedOnly
        (∃ held, within (Scope.softDelete t field) r = .ok held ∧
          (store w.state).matched held = .ok rows) ∧
        (((softDelete t field (base config (.ofStore store))).count r).runOn w).1
          = .ok rows.length) ∧
      live.length + trashed.length = total := by
  have hquantified := Request.relationsOf_quantified (Request.ofFields_readFrom hread).relations
  rw [(base_count store config r w).1, Store.answerCount_ok] at htotal
  obtain ⟨both, hboth, hlength⟩ := htotal
  obtain ⟨p, hp, hmatched⟩ := Outcome.bind_eq_ok.mp hboth
  obtain ⟨stored, hstored, hselected⟩ := Outcome.bind_eq_ok.mp hmatched
  have hdivided : Divided both (both.filter (Trash.live.keeps field))
      (both.filter (Trash.trashed.keeps field)) := divided_filter (Trash.live.keeps field) both
  have hsublist : both.Sublist stored :=
    Predicate.holds_of_select hselected ▸ List.filter_sublist
  refine ⟨stored, _, _, both, hstored, hsublist, hdivided, hboth,
    fun includeTrashed trashedOnly => ?_, ?_⟩
  · intro rows t
    have hrows : both.filter (t.keeps field) = rows := by
      cases includeTrashed with
      | true => exact List.filter_eq_self.mpr fun _ _ => rfl
      | false => cases trashedOnly <;> rfl
    obtain ⟨held, hheld, hkept⟩ := Store.matched_softDelete hquantified hfield hboth t
    rw [hrows] at hkept
    refine ⟨⟨held, hheld, hkept⟩, ?_⟩
    rw [softDelete, (inScope_count _ (base_count store config) w).1]
    dsimp only
    rw [hheld, Outcome.ok_bind]
    exact Store.answerCount_ok.mpr ⟨rows, hkept, rfl⟩
  · rw [← List.length_append, hdivided.all.length_eq, hlength]

/-- rows whose mark lies within another record, is missing there or is a list -/
theorem softDelete_divides_dotted :
    let rows : List Value := [.record [("n", .int 1), ("meta", .null)],
      .record [("n", .int 2), ("meta", .record [("gone", .int 5)])],
      .record [("n", .int 3), ("meta", .record [("gone", .list [.null])])],
      .record [("n", .int 4)]]
    let fields : List (String × Value) := [("model", .str "m"),
      ("or_filters", .list [.record [("n", .list [.int 1, .int 2])],
        .record [("n", .record [("from", .int 3)])]]),
      ("not_filters", .record [("n", .int 9)])]
    let w : Logged Store := ⟨⟨[(.str "m", rows)]⟩, []⟩
    ∃ r : Request, Request.ofFields fields = .ok r ∧ "meta.gone" ∉ r.filters.map Prod.fst ∧
      (((base {} (.ofStore id)).count r).runOn w).1 = .ok 4 ∧
      ∃ live trashed : Nat, live + trashed = 4 ∧
        (((softDelete .live "meta.gone" (base {} (.ofStore id))).count r).runOn w).1 = .ok live ∧
        (((softDelete .trashed "meta.gone" (base {} (.ofStore id))).count r).runOn w).1
          = .ok trashed := by
  intro rows fields w
  obtain ⟨r, hr⟩ : ∃ r, Request.ofFields fields = .ok r := ⟨_, rfl⟩
  have hcount : (((base {} (.ofStore id)).count r).runOn w).1 = .ok 4 := by cases hr; rfl
  have hfield : "meta.gone" ∉ r.filters.map Prod.fst := by cases hr; exact List.not_mem_nil
  obtain ⟨_, live, trashed, _, _, _, _, _, hscopes, htotal⟩ :=
    softDelete_divides id {} hr hfield w hcount
  exact ⟨r, hr, hfield, hcount, live.length, trashed.length, htotal, (hscopes false false).2,
    (hscopes false true).2⟩

end Builder

end ListQuery
