import ListQuery.Proofs.Condition.Meaning
import ListQuery.Request

/-!
# Values a path leads to

A path leads through records and through the items of lists, wherever these stand.  A filter finds a
value among all of these only if at most one list was passed on the way to it, and if that list was
followed by no more than one further name.

* `Value.Keyed.resolve_eq`    a path of one name;
* `Value.Leads`               the values at the end of a path, with the lists passed on the way;
* `Value.Follows`             no name of a path is looked up on a value without members;
* `Value.OneList`, `Value.Finds`   values behind one list at most, and close to it;
* `Value.follow_finds_iff`    what is found of the values that a path leads to;
* `Predicate.path_meets_iff`  which rows meet a filter on a path;
* `Predicate.path_cut`        values that are not found.
-/

namespace ListQuery

/-! ## paths of one name -/

theorem Text.splitOn_of_notMem {sep : Char} {s : List Char} (h : sep ∉ s) : splitOn sep s = [s] := by
  induction s with
  | nil => rfl
  | cons c s ih =>
    rw [List.mem_cons, not_or] at h
    rw [splitOn, if_neg (Ne.symm h.1), ih h.2]

def Value.Keyed (row : Value) : Prop := ∃ entries, row = .record entries ∨ row = .object entries

theorem Value.Keyed.resolve_eq {row : Value} (h : row.Keyed) {field : String}
    (hdot : '.' ∉ field.toList) : row.resolve field = row.member field := by
  have hnames : pathNames field = [field] := by
    unfold pathNames
    rw [Text.splitOn_of_notMem hdot, List.map_singleton, String.ofList_toList]
  unfold resolve
  rw [hnames]
  obtain ⟨entries, rfl | rfl⟩ := h <;> rfl

namespace Value

/-! ## ways along a path -/

/-- the names lead from the first value to the second, through records and the items of lists; of
each list that is passed, the names still to follow are told -/
inductive Leads : (passed : List (List String)) → (names : List String) → Value → Value → Prop
  | here (v : Value) : Leads [] [] v v
  | entry {passed : List (List String)} {name : String} {rest : List String}
      {entries : List (String × Value)} {v x : Value} :
      field? name entries = some v → Leads passed rest v x →
        Leads passed (name :: rest) (.record entries) x
  | item {passed : List (List String)} {names : List String} {items : List Value} {v x : Value} :
      v ∈ items → Leads passed names v x → Leads (names :: passed) names (.list items) x

/-- every name that is reached is looked up in a record, in null, or in the items of a list -/
inductive Follows : (names : List String) → Value → Prop
  | done (v : Value) : Follows [] v
  | null (names : List String) : Follows names .null
  | missing {name : String} (rest : List String) {entries : List (String × Value)} :
      field? name entries = none → Follows (name :: rest) (.record entries)
  | entry {name : String} {rest : List String} {entries : List (String × Value)} {v : Value} :
      field? name entries = some v → Follows rest v → Follows (name :: rest) (.record entries)
  | items {names : List String} {items : List Value} :
      (∀ v ∈ items, Follows names v) → Follows names (.list items)

/-- at most one list is passed, with at most one name still to follow -/
def OneList : (passed : List (List String)) → Prop
  | [] => True
  | [left] => left.length ≤ 1
  | _ => False

/-- a value without parts that is not null -/
def isScalar : Value → Bool
  | .bool _ | .int _ | .float _ | .str _ | .date _ | .instant _ => true
  | _ => false

variable {wanted : Value} {name : String} {names rest : List String}

theorem null_equals_scalar (h : wanted.isScalar = true) : null.equals wanted = false := by
  cases wanted <;> first | rfl | cases h

theorem list_equals_scalar (h : wanted.isScalar = true) (items : List Value) :
    (list items).equals wanted = false := by
  cases wanted <;> first | rfl | cases h

theorem record_equals_scalar (h : wanted.isScalar = true) (entries : List (String × Value)) :
    (record entries).equals wanted = false := by
  cases wanted <;> first | rfl | cases h

theorem Follows.equals_scalar (h : wanted.isScalar = true) {v : Value}
    (hfollows : Follows (name :: rest) v) : v.equals wanted = false := by
  cases hfollows with
  | null => exact null_equals_scalar h
  | missing | entry => exact record_equals_scalar h _
  | items => exact list_equals_scalar h _

theorem pick_record (name : String) (entries : List (String × Value)) :
    (record entries).pick name = (field? name entries).getD .null := by
  simp [pick, member]

theorem follow_record (name : String) (rest : List String) (entries : List (String × Value)) :
    follow (name :: rest) (record entries) = follow rest ((field? name entries).getD .null) := by
  simp [follow, member]

/-! ## ways from each kind of value -/

theorem leads_null {passed : List (List String)} {x : Value} :
    ¬ Leads passed (name :: rest) .null x := nofun

theorem leads_record_iff {passed : List (List String)} {entries : List (String × Value)}
    {x : Value} : Leads passed (name :: rest) (.record entries) x ↔
      ∃ v, field? name entries = some v ∧ Leads passed rest v x := by
  constructor
  · rintro (_ | ⟨hfield, hleads⟩)
    exact ⟨_, hfield, hleads⟩
  · rintro ⟨v, hfield, hleads⟩
    exact .entry hfield hleads

theorem leads_directly_iff {v x : Value} : Leads [] [] v x ↔ x = v := by
  constructor
  · rintro ⟨⟩
    rfl
  · rintro rfl
    exact .here x

/-- a value at the end of a path is found directly, or through one list with one name left at most -/
def Finds (names : List String) (v wanted : Value) : Prop :=
  ∃ passed x, Leads passed names v x ∧ OneList passed ∧ x.equals wanted = true

theorem finds_null (h : wanted.isScalar = true) : ¬ Finds names .null wanted := by
  rintro ⟨passed, x, hleads, _, hequals⟩
  cases hleads
  rw [null_equals_scalar h] at hequals
  cases hequals

theorem finds_record_iff {entries : List (String × Value)} :
    Finds (name :: rest) (.record entries) wanted ↔
      ∃ v, field? name entries = some v ∧ Finds rest v wanted := by
  constructor
  · rintro ⟨passed, x, hleads, hone, hequals⟩
    obtain ⟨v, hfield, hrest⟩ := leads_record_iff.mp hleads
    exact ⟨v, hfield, passed, x, hrest, hone, hequals⟩
  · rintro ⟨v, hfield, passed, x, hrest, hone, hequals⟩
    exact ⟨passed, x, .entry hfield hrest, hone, hequals⟩

theorem finds_list_iff (h : wanted.isScalar = true) {items : List Value} :
    Finds names (.list items) wanted ↔
      names.length ≤ 1 ∧ ∃ v ∈ items, ∃ x, Leads [] names v x ∧ x.equals wanted = true := by
  constructor
  · rintro ⟨passed, x, hleads, hone, hequals⟩
    cases hleads with
    | here =>
      rw [list_equals_scalar h] at hequals
      cases hequals
    | @item earlier _ _ v _ hmem hrest =>
      cases earlier with
      | nil => exact ⟨hone, v, hmem, x, hrest, hequals⟩
      | cons left more => exact hone.elim
  · rintro ⟨hshort, v, hmem, x, hleads, hequals⟩
    exact ⟨[names], x, .item hmem hleads, hshort, hequals⟩

/-! ## what is found -/

/-- under one name a scalar is picked only if the name leads to it past no list -/
theorem pick_equals_iff (h : wanted.isScalar = true) {v : Value} (hfollows : Follows [name] v) :
    (v.pick name).equals wanted = true ↔ ∃ x, Leads [] [name] v x ∧ x.equals wanted = true := by
  cases hfollows with
  | null =>
    rw [pick, null_equals_scalar h]
    simp [leads_null]
  | missing _ hmissing =>
    rw [pick_record, hmissing, Option.getD_none, null_equals_scalar h]
    simp [leads_record_iff, hmissing]
  | entry hfield _ =>
    rw [pick_record, hfield, Option.getD_some]
    simp [leads_record_iff, hfield, leads_directly_iff]
  | @items _ items _ =>
    have hnone (x : Value) : ¬ Leads [] [name] (.list items) x := nofun
    rw [pick, list_equals_scalar h]
    simp [hnone]

/-- where a second name follows, no scalar is picked under the first -/
theorem pick_equals_scalar (h : wanted.isScalar = true) {second : String} {v : Value}
    (hfollows : Follows (name :: second :: rest) v) : (v.pick name).equals wanted = false := by
  cases hfollows with
  | null =>
    rw [pick]
    exact null_equals_scalar h
  | missing _ hmissing =>
    rw [pick_record, hmissing]
    exact null_equals_scalar h
  | entry hfield hrest =>
    rw [pick_record, hfield]
    exact hrest.equals_scalar h
  | items _ =>
    rw [pick]
    exact list_equals_scalar h _

theorem follow_list_finds_iff (h : wanted.isScalar = true) {items : List Value}
    (hfollows : ∀ v ∈ items, Follows names v) :
    Condition.someItem (·.equals wanted) (follow names (.list items)) = true ↔
      Finds names (.list items) wanted := by
  rw [finds_list_iff h]
  rcases names with _ | ⟨name, _ | ⟨second, rest⟩⟩
  · rw [follow_nil]
    show items.any (·.equals wanted) = true ↔ _
    simp [leads_directly_iff]
  · have hpick : ∀ v ∈ items, ((v.pick name).equals wanted = true ↔
        ∃ x, Leads [] [name] v x ∧ x.equals wanted = true) := fun v hv =>
      pick_equals_iff h (hfollows v hv)
    rw [follow, pickAll_eq_map]
    show (items.map (pick name)).any (·.equals wanted) = true ↔ _
    rw [List.any_map, List.any_eq_true]
    constructor
    · rintro ⟨v, hv, hequals⟩
      exact ⟨Nat.le_refl 1, v, hv, (hpick v hv).mp hequals⟩
    · rintro ⟨_, v, hv, hleads⟩
      exact ⟨v, hv, (hpick v hv).mpr hleads⟩
  · -- the names behind the first are not followed
    have hcut : (items.map (pick name)).any (·.equals wanted) = false := by
      rw [List.any_map, List.any_eq_false]
      intro v hv
      exact Bool.eq_false_iff.mp (pick_equals_scalar h (hfollows v hv))
    rw [follow, pickAll_eq_map]
    show (items.map (pick name)).any (·.equals wanted) = true ↔ _
    rw [hcut]
    simp

/-- what is compared at the end of a path, by the ways along it -/
theorem follow_finds_iff (h : wanted.isScalar = true) {v : Value} (hfollows : Follows names v) :
    Condition.someItem (·.equals wanted) (follow names v) = true ↔ Finds names v wanted := by
  induction hfollows with
  | done v =>
    by_cases hlist : ∃ items, v = .list items
    · obtain ⟨items, rfl⟩ := hlist
      exact follow_list_finds_iff h fun v _ => .done v
    · have hdirect : Condition.someItem (·.equals wanted) v = v.equals wanted := by
        cases v <;> first | rfl | exact absurd ⟨_, rfl⟩ hlist
      rw [follow_nil, hdirect]
      constructor
      · exact fun hequals => ⟨[], v, .here v, trivial, hequals⟩
      · rintro ⟨passed, x, hleads, hone, hequals⟩
        cases hleads with
        | here => exact hequals
        | item => exact absurd ⟨_, rfl⟩ hlist
  | null names =>
    rw [follow_null]
    show null.equals wanted = true ↔ _
    rw [null_equals_scalar h]
    simp [finds_null h]
  | missing rest hmissing =>
    rw [follow_record, finds_record_iff, hmissing, Option.getD_none, follow_null]
    show null.equals wanted = true ↔ _
    rw [null_equals_scalar h]
    simp
  | entry hfield _ ih =>
    rw [follow_record, finds_record_iff, hfield, Option.getD_some, ih]
    simp
  | items hfollows _ => exact follow_list_finds_iff h hfollows

end Value

/-! ## filters -/

namespace Predicate

variable {wanted : Value}

/-- a filter with a scalar on a path compares what is found there with the scalar -/
theorem ofFilters_scalar (h : wanted.isScalar = true) (path : String) :
    ofFilters (.record [(path, wanted)]) = .ok (.compare path .eq wanted) := by
  cases wanted <;> first | rfl | cases h

theorem ofFields_scalar (h : wanted.isScalar = true) (path : String) :
    (Request.ofFields [("filters", .record [(path, wanted)])] >>= Request.predicate)
      = .ok (.compare path .eq wanted) := by
  cases wanted <;> first | rfl | cases h

theorem evaluate_equality (path : String) (wanted row : Value) :
    evaluate (.compare path .eq wanted) row
      = .ok (Condition.someItem (·.equals wanted) (row.resolve path)) := by
  have hdecides : Decides (compareWith .eq wanted (row.resolve path)) true
      (Condition.someItem (·.equals wanted) (row.resolve path)) :=
    compareWith_total rfl rfl (fun _ => rfl) _
  rw [evaluate, hdecides.answered]

/-- A row meets a filter with a scalar on a path exactly if the path leads to a value that equals the
scalar, past one list at most and with at most one name left to follow from that list. -/
theorem path_meets_iff (path : String) (row wanted : Value) (hscalar : wanted.isScalar = true)
    (hfollows : Value.Follows (Value.pathNames path) row) :
    ∃ p, ofFilters (.record [(path, wanted)]) = .ok p ∧
      (Request.ofFields [("filters", .record [(path, wanted)])] >>= Request.predicate) = .ok p ∧
      ∃ met, p.evaluate row = .ok met ∧
        (met = true ↔ ∃ passed x, Value.Leads passed (Value.pathNames path) row x ∧
          Value.OneList passed ∧ x.equals wanted = true) :=
  ⟨.compare path .eq wanted, ofFilters_scalar hscalar path, ofFields_scalar hscalar path, _,
    evaluate_equality path wanted row, Value.follow_finds_iff hscalar hfollows⟩

/-- the title of one of two posts, the other of which has none -/
theorem path_meets_iff_posts :
    let row : Value := .record [("posts", .list [.record [("id", .int 1)],
      .record [("id", .int 2), ("title", .str "News")]])]
    ∃ p, ofFilters (.record [("posts.title", .str "News")]) = .ok p ∧ p.evaluate row = .ok true := by
  intro row
  have hnames : Value.pathNames "posts.title" = ["posts", "title"] := by decide +kernel
  have hfollows : Value.Follows (Value.pathNames "posts.title") row := by
    rw [hnames]
    refine .entry rfl (.items ?_)
    simp only [List.forall_mem_cons]
    exact ⟨.missing [] (by decide), .entry rfl (.done _), fun _ h => absurd h List.not_mem_nil⟩
  obtain ⟨p, hp, _, met, hmet, hiff⟩ :=
    path_meets_iff "posts.title" row (.str "News") rfl hfollows
  have htrue : met = true := by
    rw [hiff, hnames]
    exact ⟨[["title"]], .str "News",
      .entry rfl (.item (List.mem_cons_of_mem _ List.mem_cons_self) (.entry rfl (.here _))),
      Nat.le_refl 1, by decide⟩
  rw [htrue] at hmet
  exact ⟨p, hp, hmet⟩

/-- Paths lead to values that are not found: the name of the author of a post, which is two names
behind the list of posts, and a number in a list within a list. -/
theorem path_cut :
    let posts : Value :=
      .record [("posts", .list [.record [("author", .record [("name", .str "Ann")])]])]
    let lists : Value := .record [("a", .list [.list [.int 1, .int 2], .list [.int 3]])]
    (Value.Leads [["author", "name"]] (Value.pathNames "posts.author.name") posts (.str "Ann") ∧
      ∃ p, ofFilters (.record [("posts.author.name", .str "Ann")]) = .ok p ∧
        p.evaluate posts = .ok false) ∧
    Value.Leads [[], []] (Value.pathNames "a") lists (.int 1) ∧
      ∃ p, ofFilters (.record [("a", .int 1)]) = .ok p ∧ p.evaluate lists = .ok false := by
  intro posts lists
  have hnames : Value.pathNames "posts.author.name" = ["posts", "author", "name"] := by
    decide +kernel
  have hname : Value.pathNames "a" = ["a"] := by decide +kernel
  refine ⟨⟨?_, _, ofFilters_scalar rfl _, ?_⟩, ?_, _, ofFilters_scalar rfl _, ?_⟩
  · rw [hnames]
    exact .entry rfl (.item List.mem_cons_self (.entry rfl (.entry rfl (.here _))))
  · rw [evaluate_equality, Value.resolve, hnames]
    rfl
  · rw [hname]
    exact .entry rfl (.item List.mem_cons_self (.item List.mem_cons_self (.here _)))
  · rw [evaluate_equality, Value.resolve, hname]
    rfl

end Predicate

end ListQuery
