import ListQuery.Proofs.Condition.Resolved
import ListQuery.Proofs.Predicate.Decides

/-!
# What a condition asks of a value

A condition is judged by itself here, on the value at its path: a comparison asks it of the value,
or of some item where the value is a list, a null test of the value as a whole, and a quantifier
asks its nested conditions of the related records.  The tree of a condition asks the same.

* `Condition.meets`         whether a value meets a condition;
* `Condition.answerable`    no comparison that the condition makes of a value is a fault;
* `Condition.constrains`    whether a filter asks anything;
* `Condition.tree_decides`  the tree of a condition;
* `Condition.trees_decides`, `trees_restricts`
                            the tree of a filter;
* `Condition.ofValue_record`, `meets_nested`
                            the conditions that mappings stand for.
-/

namespace ListQuery

/-! ## conditions -/

namespace Condition

/-- a test of a value: of a list, some item passes it -/
def someItem (test : Value → Bool) : Value → Bool
  | .list items => items.any test
  | v => test v

def eachItem (test : Value → Bool) : Value → Bool
  | .list items => items.all test
  | v => test v

def within (r : Value.Relation) (bound v : Value) : Bool :=
  !v.isNull && match v.compares r bound with
    | .ok answer => answer
    | .error _ => false

def comparable (r : Value.Relation) (bound v : Value) : Bool :=
  v.isNull || (v.compares r bound).isOk

/-- the records related to a row by what it holds; none where that is no sequence -/
def recordsOf (v : Value) : List Value :=
  match Predicate.relatedRecords v with
  | .ok records => records
  | .error _ => []

def quantified (quantifier : String) (test : Value → Bool) (records : List Value) : Bool :=
  match quantifier with
  | "some" => records.any test
  | "none" => !records.any test
  | _ => records.all test

mutual

/-- whether the value at a condition's path meets it -/
def meets : Condition → Value → Bool
  | .exact .null, v => v.isNull
  | .exact wanted, v => someItem (·.equals wanted) v
  | .flag wanted, v => someItem (·.equals wanted) v
  | .differs .null, v => !v.isNull
  | .differs unwanted, v => someItem (!·.equals unwanted) v
  | .oneOf wanted, v => someItem (fun x => wanted.any x.agrees) v
  | .range lower upper, v =>
    (lower.isNull || someItem (within .atLeast lower) v) &&
      (upper.isNull || someItem (within .atMost upper) v)
  | .related quantifier nested, v => quantified quantifier (nestedMeets nested) (recordsOf v)

def nestedMeets : Value → Value → Bool
  | .record entries, row => entriesMeet entries row
  | _, _ => true

def entriesMeet : List (String × Value) → Value → Bool
  | [], _ => true
  | (path, .condition c) :: rest, row => c.meets (row.resolve path) && entriesMeet rest row
  | _ :: rest, row => entriesMeet rest row

end

mutual

/-- no comparison of the value at a condition's path is a fault -/
def answerable : Condition → Value → Bool
  | .range lower upper, v =>
    (lower.isNull || eachItem (comparable .atLeast lower) v) &&
      (upper.isNull || eachItem (comparable .atMost upper) v)
  | .related _ nested, v =>
    (Predicate.relatedRecords v).isOk && (recordsOf v).all (nestedAnswerable nested)
  | _, _ => true

def nestedAnswerable : Value → Value → Bool
  | .record entries, row => entriesAnswerable entries row
  | _, _ => true

def entriesAnswerable : List (String × Value) → Value → Bool
  | [], _ => true
  | (path, .condition c) :: rest, row =>
    c.answerable (row.resolve path) && entriesAnswerable rest row
  | _ :: rest, row => entriesAnswerable rest row

end

/-- all conditions of a filter, each on the value at its path -/
def allMeet (cs : List (String × Condition)) (row : Value) : Bool :=
  cs.all fun entry => entry.2.meets (row.resolve entry.1)

def allAnswerable (cs : List (String × Condition)) (row : Value) : Bool :=
  cs.all fun entry => entry.2.answerable (row.resolve entry.1)

/-- whether a filter asks anything: a range without bounds does not -/
def constrains (cs : List (String × Condition)) : Bool :=
  cs.any fun entry => match entry.2 with
    | .range .null .null => false
    | _ => true

end Condition

namespace Predicate

/-! ## comparisons -/

/-- a comparison of the value at a path, item by item where it is a list -/
theorem compareWith_decides {op : Operator} {check : Value → Value → Outcome Bool} {wanted : Value}
    {answerable expected : Value → Bool} (hcheck : op.check? = some check)
    (hplain : op.isNullTest = false)
    (h : ∀ x, Decides (check x wanted) (answerable x) (expected x)) (v : Value) :
    Decides (compareWith op wanted v) (Condition.eachItem answerable v)
      (Condition.someItem expected v) := by
  unfold compareWith
  rw [hcheck]
  cases v with
  | list items =>
    show Decides (if op.isNullTest then check (.list items) wanted
      else anyTrue (check · wanted) items) (items.all answerable) (items.any expected)
    rw [hplain]
    exact Decides.any fun x _ => h x
  | _ => exact h _

theorem eachItem_true (v : Value) : Condition.eachItem (fun _ => true) v = true := by
  cases v <;> first | rfl | exact List.all_eq_true.mpr fun _ _ => rfl

theorem compareWith_total {op : Operator} {check : Value → Value → Outcome Bool} {wanted : Value}
    {expected : Value → Bool} (hcheck : op.check? = some check) (hplain : op.isNullTest = false)
    (h : ∀ x, check x wanted = .ok (expected x)) (v : Value) :
    Decides (compareWith op wanted v) true (Condition.someItem expected v) := by
  have hdecides : Decides (compareWith op wanted v) (Condition.eachItem (fun _ => true) v)
      (Condition.someItem expected v) := compareWith_decides hcheck hplain (fun x => .inl (h x)) v
  rw [eachItem_true] at hdecides
  exact hdecides

theorem bound_decides {op : Operator} {r : Value.Relation} {bound : Value}
    (hop : op.check? = some (Operator.guarded (Value.compares r))) (hplain : op.isNullTest = false)
    (hbound : bound.isNull = false) (v : Value) :
    Decides (compareWith op bound v) (Condition.eachItem (Condition.comparable r bound) v)
      (Condition.someItem (Condition.within r bound) v) := by
  refine compareWith_decides hop hplain ?_ v
  intro x
  unfold Operator.guarded Condition.comparable Condition.within
  rw [hbound, Bool.or_false]
  cases x.isNull with
  | true => exact .inl rfl
  | false =>
    rcases x.compares r bound with e | b
    · exact .inr ⟨rfl, e, rfl⟩
    · exact .inl rfl

theorem range_decides (path : String) (lower upper row : Value) :
    Decides (evaluate (ofRange path lower upper) row)
      ((Condition.range lower upper).answerable (row.resolve path))
      ((Condition.range lower upper).meets (row.resolve path)) := by
  have hpart : ∀ (op : Operator) (r : Value.Relation) (bound : Value),
      op.check? = some (Operator.guarded (Value.compares r)) → op.isNullTest = false →
      Decides (evaluate (if bound.isNull then .unrestricted else .compare path op bound) row)
        (bound.isNull || Condition.eachItem (Condition.comparable r bound) (row.resolve path))
        (bound.isNull || Condition.someItem (Condition.within r bound) (row.resolve path)) := by
    intro op r bound hop hplain
    cases hbound : bound.isNull with
    | true => rw [if_pos rfl, evaluate]; exact .inl rfl
    | false =>
      rw [if_neg (by decide), evaluate]
      exact bound_decides hop hplain hbound _
  have hlower := hpart .ge .atLeast lower rfl rfl
  have hupper := hpart .le .atMost upper rfl rfl
  have hboth := hlower.and (hupper.and (Decides.ok (m := true)))
  rw [Bool.and_true, Bool.and_true] at hboth
  rw [ofRange, evaluate_all, evaluateAll, evaluateAll, evaluateAll, Condition.answerable,
    Condition.meets]
  exact hboth

theorem isNull_decides (v : Value) : Decides (compareWith .isNull .null v) true v.isNull := by
  cases v <;> exact .inl rfl

theorem isNotNull_decides (v : Value) : Decides (compareWith .isNotNull .null v) true (!v.isNull) := by
  cases v <;> exact .inl rfl

theorem ofPlain_decides (path : String) {c : Condition} (hc : c.isRelated = false) (row : Value) :
    Decides (evaluate (ofPlain path c) row) (c.answerable (row.resolve path))
      (c.meets (row.resolve path)) := by
  cases c with
  | related => cases hc
  | range lower upper => exact range_decides path lower upper row
  | flag wanted =>
    rw [ofPlain, evaluate, Condition.answerable, Condition.meets]
    · exact compareWith_total rfl rfl (fun _ => rfl) _
    · simp
    · simp
  | oneOf wanted =>
    rw [ofPlain, evaluate, Condition.answerable, Condition.meets]
    · exact compareWith_total rfl rfl (fun _ => by rw [Value.isIn]) _
    · simp
    · simp
  | exact wanted =>
    by_cases hnull : wanted = .null
    · subst hnull
      rw [ofPlain, evaluate, Condition.answerable, Condition.meets]
      · exact isNull_decides _
      · simp
      · simp
    · rw [ofPlain, evaluate, Condition.answerable, Condition.meets]
      · exact compareWith_total rfl rfl (fun _ => rfl) _
      · exact hnull
      · simp
      · simp
      · exact hnull
  | differs unwanted =>
    by_cases hnull : unwanted = .null
    · subst hnull
      rw [ofPlain, evaluate, Condition.answerable, Condition.meets]
      · exact isNotNull_decides _
      · simp
      · simp
    · rw [ofPlain, evaluate, Condition.answerable, Condition.meets]
      · exact compareWith_total rfl rfl (fun _ => rfl) _
      · exact hnull
      · simp
      · simp
      · exact hnull

/-- a test of the records that a quantifier ranges over -/
theorem quantify_decides {q : String} {test : Value → Outcome Bool}
    {answerable expected : Value → Bool} (hq : Condition.quantifiers.contains q = true)
    (h : ∀ record, Decides (test record) (answerable record) (expected record)) (v : Value) :
    Decides (do quantify ((Operator.ofQuantifier? q).getD .some) test (← relatedRecords v))
      ((relatedRecords v).isOk && (Condition.recordsOf v).all answerable)
      (Condition.quantified q expected (Condition.recordsOf v)) := by
  unfold Condition.recordsOf
  rcases relatedRecords v with e | records
  · exact .inr ⟨rfl, e, rfl⟩
  · simp only [Condition.quantifiers, List.contains_eq_mem, List.mem_cons, List.not_mem_nil, or_false,
      decide_eq_true_eq] at hq
    rcases hq with rfl | rfl | rfl
    · exact Decides.any fun record _ => h record
    · exact (Decides.any fun record _ => h record).not
    · exact Decides.all fun record _ => h record

end Predicate

namespace Condition

/-! ## trees of conditions -/

mutual

/-- the tree of a condition asks what the condition asks -/
theorem tree_decides (path : String) (row : Value) : (c : Condition) → c.resolved = true →
    Decides ((c.tree path).evaluate row) (c.answerable (row.resolve path)) (c.meets (row.resolve path))
  | .related q nested, h => by
    rw [resolved, Bool.and_eq_true] at h
    rw [tree, Predicate.evaluate, answerable, meets]
    exact Predicate.quantify_decides h.1 (nestedTree_decides nested h.2) _
  | .exact wanted, _ => by
    rw [tree]
    · exact Predicate.ofPlain_decides path rfl row
    · simp
  | .oneOf wanted, _ => by
    rw [tree]
    · exact Predicate.ofPlain_decides path rfl row
    · simp
  | .range lower upper, _ => by
    rw [tree]
    · exact Predicate.ofPlain_decides path rfl row
    · simp
  | .flag wanted, _ => by
    rw [tree]
    · exact Predicate.ofPlain_decides path rfl row
    · simp
  | .differs unwanted, _ => by
    rw [tree]
    · exact Predicate.ofPlain_decides path rfl row
    · simp

theorem nestedTree_decides : (v : Value) → nestedResolved v = true → ∀ record,
    Decides ((nestedTree v).evaluate record) (nestedAnswerable v record) (nestedMeets v record)
  | .record entries, h, record => by
    rw [nestedResolved] at h
    rw [nestedTree, Predicate.evaluate_all, nestedAnswerable, nestedMeets]
    exact entryTrees_decides entries h record

theorem entryTrees_decides : (entries : List (String × Value)) → entriesResolved entries = true →
    ∀ record, Decides (Predicate.evaluateAll (entryTrees entries) record)
      (entriesAnswerable entries record) (entriesMeet entries record)
  | [], _, record => by
    rw [entryTrees, Predicate.evaluateAll, entriesAnswerable, entriesMeet]
    exact .ok
  | (path, .condition c) :: rest, h, record => by
    rw [entriesResolved, Bool.and_eq_true] at h
    rw [entryTrees, Predicate.evaluateAll, entriesAnswerable, entriesMeet]
    exact (tree_decides path record c h.1).and (entryTrees_decides rest h.2 record)

end

theorem trees_decides {cs : List (String × Condition)} (h : ∀ e ∈ cs, e.2.resolved = true)
    (row : Value) :
    Decides ((Predicate.all (trees cs)).evaluate row) (allAnswerable cs row) (allMeet cs row) := by
  rw [Predicate.evaluate_all]
  induction cs with
  | nil => exact Predicate.evaluateAll.eq_1 row ▸ .ok
  | cons e rest ih =>
    have hhere := tree_decides e.1 row e.2 (h e List.mem_cons_self)
    show Decides (Predicate.evaluateAll (e.2.tree e.1 :: trees rest) row) _ _
    rw [Predicate.evaluateAll]
    exact hhere.and (ih fun e he => h e (List.mem_cons_of_mem _ he))

/-- only a range without bounds asks nothing -/
theorem tree_restricts (path : String) (c : Condition) :
    (c.tree path).restricts = match c with
      | .range .null .null => false
      | _ => true := by
  cases c with
  | related q nested => rw [tree]; rfl
  | range lower upper =>
    rw [tree]
    · show (Predicate.all _).restricts = _
      rw [Predicate.restricts_all]
      cases lower <;> cases upper <;> rfl
    · simp
  | exact wanted =>
    rw [tree]
    · cases wanted <;> rfl
    · simp
  | differs unwanted =>
    rw [tree]
    · cases unwanted <;> rfl
    · simp
  | _ =>
    rw [tree]
    · rfl
    · simp

theorem trees_restricts (cs : List (String × Condition)) :
    (Predicate.all (trees cs)).restricts = constrains cs := by
  rw [Predicate.restricts_all, trees, List.any_map]
  exact congrArg (cs.any ·) (funext fun e => tree_restricts e.1 e.2)

/-! ## conditions of records -/

theorem ofEntries_map {entries : List (String × Value)} (h : ∀ e ∈ entries, e.2 ≠ .unset) :
    ofEntries entries = entries.map fun e => (e.1, ofValue e.2) := by
  induction entries with
  | nil => rw [ofEntries]; rfl
  | cons e rest ih =>
    rw [List.forall_mem_cons] at h
    rw [ofEntries, ih h.2]
    · rfl
    · exact h.1

/-- a record with more than one entry, or with none, is a range or a value -/
theorem ofValue_record {entries : List (String × Value)} (h : entries.length ≠ 1) :
    ofValue (.record entries) =
      if entries ≠ [] ∧ entries.all fun entry => entry.1 = "from" || entry.1 = "to" then
        .range ((Value.field? "from" entries).getD .null) ((Value.field? "to" entries).getD .null)
      else .exact (.record entries) := by
  match entries, h with
  | [], _ => rfl
  | [_], h => exact absurd rfl h
  | _ :: _ :: _, _ => rfl

theorem entriesMeet_asEntries (cs : List (String × Condition)) (row : Value) :
    entriesMeet (asEntries cs) row = allMeet cs row := by
  induction cs with
  | nil => rfl
  | cons e rest ih =>
    show (e.2.meets (row.resolve e.1) && entriesMeet (asEntries rest) row) = _
    rw [ih]
    rfl

theorem meets_nested (quantifier : String) (cs : List (String × Condition)) (v : Value) :
    (Condition.related quantifier (.record (asEntries cs))).meets v
      = quantified quantifier (allMeet cs) (recordsOf v) := by
  have hnested : nestedMeets (.record (asEntries cs)) = allMeet cs :=
    funext (entriesMeet_asEntries cs)
  rw [meets, hnested]

def asks : Condition → Bool
  | .range .null .null => false
  | _ => true

theorem constrains_eq (cs : List (String × Condition)) : constrains cs = cs.any (asks ·.2) := by
  refine List.any_congr rfl fun e => ?_
  unfold asks
  rfl

theorem asks_range (lower upper : Value) :
    (Condition.range lower upper).asks = !(lower.isNull && upper.isNull) := by
  cases lower <;> cases upper <;> rfl

end Condition

end ListQuery
