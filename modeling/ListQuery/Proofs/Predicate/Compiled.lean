import ListQuery.Proofs.Predicate.Evaluable

/-!
# Compiled trees

The tree of a request is normal at every depth.  Besides its shape this says which comparisons stand
in it: none with a null, as nulls are asked for by tests of their own, one for each condition that
asks for a null or its absence and no others, and none for a range without bounds.

* `Predicate.comparisons`       the comparisons of a tree, those of related records included;
* `Condition.nullTests`         the null tests that a condition asks for;
* `Request.bounded`             a request without its ranges that have no bounds;
* `Request.predicate_compiled`  the tree that a request is compiled to.
-/

namespace ListQuery

namespace Predicate

/-! ## comparisons -/

mutual

def comparisons : Predicate → List (String × Operator × Value)
  | .unrestricted => []
  | .conjunction parts => comparisonsOf parts
  | .disjunction parts => comparisonsOf parts
  | .complement part => comparisons part
  | .compare path op value => [(path, op, value)]
  | .related _ _ nested => comparisons nested
  | .blank => []

def comparisonsOf : List Predicate → List (String × Operator × Value)
  | [] => []
  | p :: rest => comparisons p ++ comparisonsOf rest

end

def nullTests (p : Predicate) : List (String × Operator × Value) :=
  p.comparisons.filter fun c => c.2.1.isNullTest

theorem comparisonsOf_eq (ps : List Predicate) : comparisonsOf ps = ps.flatMap comparisons := by
  induction ps with
  | nil => rw [comparisonsOf]; rfl
  | cons p rest ih => rw [comparisonsOf, ih, List.flatMap_cons]

theorem comparisonsOf_filter (ps : List Predicate) :
    comparisonsOf (ps.filter restricts) = comparisonsOf ps := by
  induction ps with
  | nil => rfl
  | cons p rest ih =>
    rw [comparisonsOf, ← ih]
    cases p with
    | unrestricted => rw [comparisons]; rfl
    | _ => exact comparisonsOf.eq_2 _ _

theorem comparisons_all (ps : List Predicate) : (all ps).comparisons = comparisonsOf ps := by
  rw [← comparisonsOf_filter]
  unfold all
  rcases ps.filter restricts with _ | ⟨p, _ | ⟨q, rest⟩⟩
  · rw [comparisons, comparisonsOf]
  · rw [comparisonsOf, comparisonsOf, List.append_nil]
  · exact comparisons.eq_2 _

theorem comparisons_any (ps : List Predicate) : (any ps).comparisons = comparisonsOf ps := by
  rw [← comparisonsOf_filter]
  unfold any
  rcases ps.filter restricts with _ | ⟨p, _ | ⟨q, rest⟩⟩
  · rw [comparisons, comparisonsOf]
  · rw [comparisonsOf, comparisonsOf, List.append_nil]
  · exact comparisons.eq_3 _

theorem comparisons_negation (ps : List Predicate) :
    (negation ps).comparisons = comparisonsOf ps := by
  rw [← comparisons_all]
  unfold negation
  cases all ps <;> rfl

theorem mem_comparisons_search {mode : SearchMode} {term : Value} {fields : List String}
    {c : String × Operator × Value} (h : c ∈ (search mode term fields).comparisons) :
    c.2.1 = mode.operator := by
  unfold search at h
  split at h
  · rw [comparisons_any, comparisonsOf_eq, List.flatMap_map, List.mem_flatMap] at h
    obtain ⟨path, _, h⟩ := h
    rw [comparisons, List.mem_singleton] at h
    rw [h]
  · rw [comparisons] at h
    cases h

end Predicate

/-! ## comparisons of conditions -/

def Operator.needsValue (op : Operator) : Bool := op == .ge || op == .le || op == .eq || op == .ne

namespace Condition

mutual

/-- the null tests that a condition asks for: of the value itself where it is to be null, or not to
be, and those of related records -/
def nullTests (path : String) : Condition → List (String × Operator × Value)
  | .exact .null => [(path, .isNull, .null)]
  | .differs .null => [(path, .isNotNull, .null)]
  | .related _ nested => nestedNullTests nested
  | _ => []

def nestedNullTests : Value → List (String × Operator × Value)
  | .record entries => entriesNullTests entries
  | _ => []

def entriesNullTests : List (String × Value) → List (String × Operator × Value)
  | [] => []
  | (path, .condition c) :: rest => c.nullTests path ++ entriesNullTests rest
  | _ :: rest => entriesNullTests rest

end

mutual

def typed : Condition → Bool
  | .flag (.bool _) => true
  | .flag _ => false
  | .related _ nested => nestedTyped nested
  | _ => true

def nestedTyped : Value → Bool
  | .record entries => entriesTyped entries
  | _ => true

def entriesTyped : List (String × Value) → Bool
  | [] => true
  | (_, .condition c) :: rest => c.typed && entriesTyped rest
  | _ :: rest => entriesTyped rest

end

mutual

theorem nullTests_tree (path : String) : (c : Condition) → (c.tree path).nullTests = c.nullTests path
  | .related _ nested => by
    rw [tree, nullTests, ← nullTests_nestedTree nested]
    unfold Predicate.nullTests
    rw [Predicate.comparisons]
  | .range lower upper => by
    rw [tree, nullTests, Predicate.nullTests, Predicate.ofPlain, Predicate.ofRange,
      Predicate.comparisons_all]
    · cases lower.isNull <;> cases upper.isNull <;> rfl
    all_goals simp
  | .exact wanted => by
    rw [tree]
    · cases wanted <;> rfl
    · simp
  | .differs unwanted => by
    rw [tree]
    · cases unwanted <;> rfl
    · simp
  | .oneOf _ | .flag _ => by
    rw [tree]
    · rfl
    · simp

theorem nullTests_nestedTree : (v : Value) → (nestedTree v).nullTests = nestedNullTests v
  | .record entries => by
    rw [nestedTree, nestedNullTests, Predicate.nullTests, Predicate.comparisons_all]
    exact nullTests_entryTrees entries
  | .null | .bool _ | .int _ | .float _ | .str _ | .list _ | .tuple _ | .set _ | .date _
  | .instant _ | .object _ | .pageMeta _ | .unset | .condition _ | .operation _ _ | .kind _
  | .zone _ | .duration _ => by
    rw [nestedTree, nestedNullTests]
    · rfl
    all_goals simp

theorem nullTests_entryTrees : (entries : List (String × Value)) →
    ((Predicate.comparisonsOf (entryTrees entries)).filter fun c => c.2.1.isNullTest)
      = entriesNullTests entries
  | [] => by rw [entryTrees, entriesNullTests, Predicate.comparisonsOf]; rfl
  | (path, v) :: rest => by
    cases v with
    | condition c =>
      rw [entryTrees, entriesNullTests, Predicate.comparisonsOf, List.filter_append,
        nullTests_entryTrees rest, ← nullTests_tree path c]
      rfl
    | _ =>
      rw [entryTrees, entriesNullTests]
      · exact nullTests_entryTrees rest
      all_goals simp

end

/-- no comparison that is about a value has a null in its place -/
def Given (cs : List (String × Operator × Value)) : Prop :=
  ∀ c ∈ cs, c.2.1.needsValue = true → c.2.2.isNull = false

theorem Given.append {cs ds : List (String × Operator × Value)} (hc : Given cs) (hd : Given ds) :
    Given (cs ++ ds) := fun c h => (List.mem_append.mp h).elim (hc c) (hd c)

theorem Given.flatMap {α : Type} {f : α → List (String × Operator × Value)} {xs : List α}
    (h : ∀ x ∈ xs, Given (f x)) : Given (xs.flatMap f) := by
  intro c hc
  obtain ⟨x, hx, hc⟩ := List.mem_flatMap.mp hc
  exact h x hx c hc

theorem given_bound (path : String) (op : Operator) (bound : Value) :
    Given (if bound.isNull then Predicate.unrestricted else .compare path op bound).comparisons := by
  cases h : bound.isNull with
  | true => rw [if_pos rfl, Predicate.comparisons]; exact nofun
  | false =>
    rw [if_neg (by decide), Predicate.comparisons]
    exact List.forall_mem_singleton.mpr fun _ => h

mutual

theorem given_tree (path : String) : (c : Condition) → c.typed = true →
    Given (c.tree path).comparisons
  | .related _ nested, h => by
    rw [typed] at h
    rw [tree, Predicate.comparisons]
    exact given_nestedTree nested h
  | .range lower upper, _ => by
    rw [tree, Predicate.ofPlain, Predicate.ofRange, Predicate.comparisons_all]
    · exact (given_bound path .ge lower).append ((given_bound path .le upper).append nofun)
    · simp
  | .exact wanted, _ => by
    rw [tree]
    · cases wanted <;> exact List.forall_mem_singleton.mpr fun h => by first | rfl | cases h
    · simp
  | .differs unwanted, _ => by
    rw [tree]
    · cases unwanted <;> exact List.forall_mem_singleton.mpr fun h => by first | rfl | cases h
    · simp
  | .oneOf _, _ => by
    rw [tree]
    · exact List.forall_mem_singleton.mpr fun _ => rfl
    · simp
  | .flag wanted, h => by
    rw [tree]
    · cases wanted with
      | bool b => exact List.forall_mem_singleton.mpr fun _ => rfl
      | _ => simp [typed] at h
    · simp

theorem given_nestedTree : (v : Value) → nestedTyped v = true → Given (nestedTree v).comparisons
  | .record entries, h => by
    rw [nestedTyped] at h
    rw [nestedTree, Predicate.comparisons_all]
    exact given_entryTrees entries h
  | .null, _ | .bool _, _ | .int _, _ | .float _, _ | .str _, _ | .list _, _ | .tuple _, _
  | .set _, _ | .date _, _ | .instant _, _ | .object _, _ | .pageMeta _, _ | .unset, _
  | .condition _, _ | .operation _ _, _ | .kind _, _ | .zone _, _ | .duration _, _ => by
    rw [nestedTree, Predicate.comparisons]
    · exact nofun
    · simp

theorem given_entryTrees : (entries : List (String × Value)) → entriesTyped entries = true →
    Given (Predicate.comparisonsOf (entryTrees entries))
  | [], _ => by rw [entryTrees, Predicate.comparisonsOf]; exact nofun
  | (path, v) :: rest, h => by
    cases v with
    | condition c =>
      rw [entriesTyped, Bool.and_eq_true] at h
      rw [entryTrees, Predicate.comparisonsOf]
      exact (given_tree path c h.1).append (given_entryTrees rest h.2)
    | _ =>
      rw [entriesTyped] at h
      · rw [entryTrees]
        · exact given_entryTrees rest h
        · simp
      · simp

end

/-! ## ranges without bounds -/

def unbounded : Condition → Bool
  | .range .null .null => true
  | _ => false

mutual

/-- a condition without the nested ranges that have no bounds -/
def bounded : Condition → Condition
  | .related q nested => .related q (nestedBounded nested)
  | c => c

def nestedBounded : Value → Value
  | .record entries => .record (entriesBounded entries)
  | v => v

def entriesBounded : List (String × Value) → List (String × Value)
  | [] => []
  | (path, .condition c) :: rest =>
    if c.unbounded then entriesBounded rest else (path, .condition c.bounded) :: entriesBounded rest
  | e :: rest => e :: entriesBounded rest

end

def boundedAll (cs : List (String × Condition)) : List (String × Condition) :=
  (cs.filter fun e => !e.2.unbounded).map fun e => (e.1, e.2.bounded)

/-- a range without bounds is no part of a tree -/
theorem tree_of_unbounded {c : Condition} (h : c.unbounded = true) (path : String) :
    c.tree path = .unrestricted := by
  unfold unbounded at h
  split at h
  · rw [tree]
    · rfl
    · simp
  · cases h

mutual

theorem bounded_tree (path : String) : (c : Condition) → c.bounded.tree path = c.tree path
  | .related q nested => by rw [bounded, tree, tree, nestedBounded_tree nested]
  | .exact _ | .oneOf _ | .range _ _ | .flag _ | .differs _ => by rw [bounded]; simp

theorem nestedBounded_tree : (v : Value) → nestedTree (nestedBounded v) = nestedTree v
  | .record entries => by
    rw [nestedBounded, nestedTree, nestedTree]
    unfold Predicate.all
    rw [entriesBounded_trees entries]
  | .null | .bool _ | .int _ | .float _ | .str _ | .list _ | .tuple _ | .set _ | .date _
  | .instant _ | .object _ | .pageMeta _ | .unset | .condition _ | .operation _ _ | .kind _
  | .zone _ | .duration _ => by rw [nestedBounded]; simp

theorem entriesBounded_trees : (entries : List (String × Value)) →
    (entryTrees (entriesBounded entries)).filter Predicate.restricts
      = (entryTrees entries).filter Predicate.restricts
  | [] => by rw [entriesBounded]
  | (path, v) :: rest => by
    have hrest := entriesBounded_trees rest
    cases v with
    | condition c =>
      rw [entriesBounded, entryTrees]
      split
      · rename_i hc
        rw [tree_of_unbounded hc, hrest]
        rfl
      · rw [entryTrees, bounded_tree path c, List.filter_cons, List.filter_cons, hrest]
    | _ =>
      rw [entriesBounded, entryTrees, entryTrees]
      · exact hrest
      all_goals simp

end

mutual

theorem bounded_resolved : (c : Condition) → c.resolved = true → c.bounded.resolved = true
  | .related q nested, h => by
    rw [resolved, Bool.and_eq_true] at h
    rw [bounded, resolved, Bool.and_eq_true]
    exact ⟨h.1, nestedBounded_resolved nested h.2⟩
  | .exact _, h | .oneOf _, h | .range _ _, h | .flag _, h | .differs _, h => by
    rw [bounded]
    · exact h
    · simp

theorem nestedBounded_resolved : (v : Value) → nestedResolved v = true →
    nestedResolved (nestedBounded v) = true
  | .record entries, h => by
    rw [nestedResolved] at h
    rw [nestedBounded, nestedResolved]
    exact entriesBounded_resolved entries h

theorem entriesBounded_resolved : (entries : List (String × Value)) →
    entriesResolved entries = true → entriesResolved (entriesBounded entries) = true
  | [], _ => by rw [entriesBounded, entriesResolved]
  | (path, .condition c) :: rest, h => by
    rw [entriesResolved, Bool.and_eq_true] at h
    have hrest := entriesBounded_resolved rest h.2
    rw [entriesBounded]
    split
    · exact hrest
    · rw [entriesResolved, bounded_resolved c h.1, hrest]
      rfl

end

/-! ## filters -/

def allNullTests (cs : List (String × Condition)) : List (String × Operator × Value) :=
  cs.flatMap fun e => e.2.nullTests e.1

/-- the comparisons that all conditions of a filter are compiled to -/
def asked (cs : List (String × Condition)) : List (String × Operator × Value) :=
  cs.flatMap fun e => (e.2.tree e.1).comparisons

theorem comparisons_trees (cs : List (String × Condition)) :
    (Predicate.all (trees cs)).comparisons = asked cs := by
  rw [Predicate.comparisons_all, Predicate.comparisonsOf_eq, trees, List.flatMap_map]
  rfl

theorem nullTests_asked (cs : List (String × Condition)) :
    ((asked cs).filter fun c => c.2.1.isNullTest) = allNullTests cs := by
  rw [asked, List.filter_flatMap]
  exact congrArg (cs.flatMap ·) (funext fun e => nullTests_tree e.1 e.2)

theorem given_asked {cs : List (String × Condition)} (h : ∀ e ∈ cs, e.2.typed = true) :
    Given (asked cs) := .flatMap fun e he => given_tree e.1 e.2 (h e he)

/-- the tree of a filter is that of its bounded part -/
theorem boundedAll_trees (cs : List (String × Condition)) :
    Predicate.all (trees (boundedAll cs)) = Predicate.all (trees cs) := by
  have hparts : (trees (boundedAll cs)).filter Predicate.restricts
      = (trees cs).filter Predicate.restricts := by
    induction cs with
    | nil => rfl
    | cons e rest ih =>
      show _ = (e.2.tree e.1 :: trees rest).filter Predicate.restricts
      cases hc : e.2.unbounded with
      | true =>
        have hskip : boundedAll (e :: rest) = boundedAll rest := by
          rw [boundedAll, List.filter_cons_of_neg (by simp [hc]), boundedAll]
        rw [tree_of_unbounded hc, hskip, ih]
        rfl
      | false =>
        have hkeep : boundedAll (e :: rest) = (e.1, e.2.bounded) :: boundedAll rest := by
          rw [boundedAll, List.filter_cons_of_pos (by simp [hc]), List.map_cons, boundedAll]
        rw [hkeep]
        show (e.2.bounded.tree e.1 :: trees (boundedAll rest)).filter Predicate.restricts = _
        rw [bounded_tree, List.filter_cons, List.filter_cons, ih]
  unfold Predicate.all
  rw [hparts]

theorem boundedAll_resolved {cs : List (String × Condition)} (h : ∀ e ∈ cs, e.2.resolved = true) :
    ∀ e ∈ boundedAll cs, e.2.resolved = true := by
  intro e he
  obtain ⟨entry, hentry, rfl⟩ := List.mem_map.mp he
  exact bounded_resolved entry.2 (h entry (List.mem_filter.mp hentry).1)

end Condition

/-! ## requests -/

namespace Request

variable {r : Request}

def nullTests (r : Request) : List (String × Operator × Value) :=
  Condition.allNullTests r.filters ++
    (Condition.allNullTests (Predicate.ofRelationList r.relationFilters) ++
      (r.orFilters.flatMap Condition.allNullTests ++ Condition.allNullTests r.notFilters))

def Typed (r : Request) : Prop :=
  ∀ cs ∈ r.filters :: Predicate.ofRelationList r.relationFilters :: r.notFilters :: r.orFilters,
    ∀ e ∈ cs, e.2.typed = true

def bounded (r : Request) : Request :=
  { r with
    filters := Condition.boundedAll r.filters
    relationFilters := r.relationFilters.map fun e => (e.1, e.2.map Condition.bounded)
    orFilters := r.orFilters.map Condition.boundedAll
    notFilters := Condition.boundedAll r.notFilters }

theorem comparisons_tree (r : Request) : r.tree.comparisons = Condition.asked r.filters ++
    (Condition.asked (Predicate.ofRelationList r.relationFilters) ++
      ((Predicate.search r.searchMode (.ofText? r.search) r.searchFields).comparisons ++
        (r.orFilters.flatMap Condition.asked ++ Condition.asked r.notFilters))) := by
  have hgroups : (Predicate.any (r.orFilters.map fun g => .all (Condition.trees g))).comparisons
      = r.orFilters.flatMap Condition.asked := by
    rw [Predicate.comparisons_any, Predicate.comparisonsOf_eq, List.flatMap_map]
    exact congrArg (r.orFilters.flatMap ·) (funext Condition.comparisons_trees)
  rw [tree, Predicate.comparisons_all]
  simp only [Predicate.comparisonsOf, Predicate.comparisons_negation, Condition.comparisons_trees,
    hgroups, List.append_nil]

theorem nullTests_tree (r : Request) : r.tree.nullTests = r.nullTests := by
  have hsearch : ((Predicate.search r.searchMode (.ofText? r.search) r.searchFields).comparisons.filter
      fun c => c.2.1.isNullTest) = [] := by
    rw [List.filter_eq_nil_iff]
    intro c hc
    rw [Predicate.mem_comparisons_search hc]
    cases r.searchMode <;> decide
  have hgroups : (r.orFilters.flatMap Condition.asked).filter (fun c => c.2.1.isNullTest)
      = r.orFilters.flatMap Condition.allNullTests := by
    rw [List.filter_flatMap]
    exact congrArg (r.orFilters.flatMap ·) (funext Condition.nullTests_asked)
  rw [Predicate.nullTests, comparisons_tree]
  simp only [List.filter_append, Condition.nullTests_asked, hsearch, hgroups, List.nil_append]
  rfl

theorem given_tree (h : r.Typed) : Condition.Given r.tree.comparisons := by
  have hsearch : Condition.Given
      (Predicate.search r.searchMode (.ofText? r.search) r.searchFields).comparisons := by
    intro c hc hneeds
    rw [Predicate.mem_comparisons_search hc] at hneeds
    cases hmode : r.searchMode <;> rw [hmode] at hneeds <;> cases hneeds
  simp only [Typed, List.forall_mem_cons] at h
  obtain ⟨hfilters, hrelations, hexcluded, hgroups⟩ := h
  rw [comparisons_tree]
  exact (Condition.given_asked hfilters).append <| (Condition.given_asked hrelations).append <|
    hsearch.append <| .append (.flatMap fun g hg => Condition.given_asked (hgroups g hg))
      (Condition.given_asked hexcluded)

theorem bounded_relations (relations : List (String × List Condition)) :
    Condition.trees (Predicate.ofRelationList (relations.map fun e => (e.1, e.2.map Condition.bounded)))
      = Condition.trees (Predicate.ofRelationList relations) := by
  induction relations with
  | nil => rfl
  | cons entry rest ih =>
    unfold Condition.trees at ih ⊢
    rw [List.map_cons, Predicate.ofRelationList, Predicate.ofRelationList, List.map_append,
      List.map_append, ih, List.map_map, List.map_map, List.map_map]
    exact congrArg (· ++ _) (List.map_congr_left fun c _ => Condition.bounded_tree entry.1 c)

/-- the ranges without bounds leave nothing in a request's tree -/
theorem bounded_tree (r : Request) : r.bounded.tree = r.tree := by
  have hgroups : (fun g => Predicate.all (Condition.trees g)) ∘ Condition.boundedAll
      = fun g => Predicate.all (Condition.trees g) := funext Condition.boundedAll_trees
  unfold tree
  dsimp only [bounded]
  rw [Condition.boundedAll_trees, Condition.boundedAll_trees, bounded_relations, List.map_map, hgroups]

theorem Resolved.bounded (h : r.Resolved) : r.bounded.Resolved where
  filters := Condition.boundedAll_resolved h.filters
  relations := by
    intro e he
    obtain ⟨entry, hentry, rfl⟩ := List.mem_map.mp he
    obtain ⟨hsome, hall⟩ := h.relations entry hentry
    refine ⟨by simpa using hsome, ?_⟩
    intro c hc
    obtain ⟨d, hd, rfl⟩ := List.mem_map.mp hc
    obtain ⟨hrelated, hresolved⟩ := hall d hd
    refine ⟨?_, Condition.bounded_resolved d hresolved⟩
    cases d with
    | related q nested => rw [Condition.bounded]; rfl
    | _ => cases hrelated
  groups := by
    intro g hg
    obtain ⟨group, hgroup, rfl⟩ := List.mem_map.mp hg
    exact Condition.boundedAll_resolved (h.groups group hgroup)
  excluded := Condition.boundedAll_resolved h.excluded

/-- what is true of the tree that a request is compiled to -/
structure CompiledTo (r : Request) (p : Predicate) : Prop where
  /-- connectives join two parts at least, no part is without restriction, at every depth -/
  clean : p.clean = true
  /-- nothing is compared with a null -/
  given : r.Typed → ∀ c ∈ p.comparisons, c.2.1.needsValue = true → c.2.2.isNull = false
  /-- null tests are those of the conditions that ask for a null or its absence -/
  nullTests : p.nullTests = r.nullTests
  /-- a range without bounds leaves nothing behind -/
  bounded : r.bounded.predicate = .ok p
  /-- a row is never met by a node, an operator or a quantifier without meaning -/
  evaluable : ∀ row e, p.evaluate row = .error e → e = .wrongKind ∨ e = .tooManyDigits

/-- A request is compiled to a normal tree: at every depth its connectives have two parts at least
and no part that restricts nothing, it compares nothing with a null and tests for nulls exactly where
a condition does, ranges without bounds are not in it, and its evaluation knows all that is in it. -/
theorem predicate_compiled (h : r.Resolved) : ∃ p, r.predicate = .ok p ∧ r.CompiledTo p := by
  refine ⟨r.tree, predicate_eq_tree h, ?_⟩
  exact {
    clean := tree_clean h
    given := given_tree
    nullTests := nullTests_tree r
    bounded := by rw [predicate_eq_tree h.bounded, bounded_tree]
    evaluable := Predicate.clean_failsOnValue (tree_clean h) }

/-- ranges without bounds among filters, groups, exclusions and related records of related records,
of which two null tests and a flag are left -/
theorem predicate_compiled_nested :
    let author : Condition := .related "none" (.record
      [("mail", .condition (.differs .null)), ("age", .condition (.range .null .null))])
    let r : Request :=
      { filters := [("age", .range .null .null), ("gone", .exact .null)]
        relationFilters := [("posts", [.related "every" (.record
          [("score", .condition (.range .null .null)), ("draft", .condition (.flag (.bool false))),
            ("author", .condition author)])])]
        search := some "b", searchFields := ["town"]
        orFilters := [[("age", .range .null .null)], []]
        notFilters := [("age", .range .null .null)] }
    r.Resolved ∧ r.Typed ∧ ∃ p, r.predicate = .ok p ∧ p.clean = true ∧
      p.nullTests = [("gone", .isNull, .null), ("mail", .isNotNull, .null)] ∧
      (∀ c ∈ p.comparisons, c.2.1.needsValue = true → c.2.2.isNull = false) ∧
      ∀ row e, p.evaluate row = .error e → e = .wrongKind ∨ e = .tooManyDigits := by
  intro author r
  have hresolved : r.Resolved := by
    constructor
    · exact List.forall_mem_cons.mpr ⟨rfl, List.forall_mem_singleton.mpr rfl⟩
    · refine List.forall_mem_singleton.mpr ⟨List.cons_ne_nil _ _, ?_⟩
      exact List.forall_mem_singleton.mpr ⟨rfl, rfl⟩
    · refine List.forall_mem_cons.mpr ⟨?_, List.forall_mem_singleton.mpr nofun⟩
      exact List.forall_mem_singleton.mpr rfl
    · exact List.forall_mem_singleton.mpr rfl
  have htyped : r.Typed := by
    refine List.forall_mem_cons.mpr ⟨?_, List.forall_mem_cons.mpr ⟨?_, List.forall_mem_cons.mpr
      ⟨?_, List.forall_mem_cons.mpr ⟨?_, List.forall_mem_singleton.mpr nofun⟩⟩⟩⟩
    · exact List.forall_mem_cons.mpr ⟨rfl, List.forall_mem_singleton.mpr rfl⟩
    all_goals exact List.forall_mem_singleton.mpr rfl
  obtain ⟨p, hp, hcompiled⟩ := predicate_compiled hresolved
  exact ⟨hresolved, htyped, p, hp, hcompiled.clean, hcompiled.nullTests, hcompiled.given htyped,
    hcompiled.evaluable⟩

end Request

end ListQuery
