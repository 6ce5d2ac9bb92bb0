import ListQuery.Proofs.Predicate.Path
import ListQuery.Proofs.Predicate.Quantified

/-!
# Quantifiers over related records

The records related to a row stand at the end of a path, which leads through records and the items of
lists.  A quantifier ranges over what is found there, and the first list on the way ends the path: of
this list the items are taken, or what is under one further name in them, be it a record, a list or
null.  These are the related records exactly if that list comes last, or one name before the end, and
holds nothing but records.

* `Value.Relates`                  paths to records, to null and to lists of them;
* `Value.Related`                  the records at the end of a path;
* `Value.Ranges`                   what a quantifier ranges over;
* `Value.Flat`                     paths with one list at most, close to the end;
* `Value.flat_iff`                 there, and nowhere else, a quantifier ranges over the related records;
* `Predicate.quantified_iff`       which rows meet a quantifier;
* `Predicate.quantified_amiss`     rows that meet one, or do not, against their related records.
-/

namespace ListQuery

namespace Value

variable {name : String} {names rest : List String} {v x : Value}

/-! ## related records -/

/-- every name that is reached is looked up in a record, in null or in the items of a list, and at the
end are records, null and lists of them -/
inductive Relates : (names : List String) → Value → Prop
  | null (names : List String) : Relates names .null
  | record (entries : List (String × Value)) : Relates [] (.record entries)
  | missing {name : String} (rest : List String) {entries : List (String × Value)} :
      field? name entries = none → Relates (name :: rest) (.record entries)
  | entry {name : String} {rest : List String} {entries : List (String × Value)} {v : Value} :
      field? name entries = some v → Relates rest v → Relates (name :: rest) (.record entries)
  | items {names : List String} {items : List Value} :
      (∀ v ∈ items, Relates names v) → Relates names (.list items)

/-- a record at the end of the path, whatever lists are passed on the way -/
def Related (names : List String) (v x : Value) : Prop :=
  (∃ passed, Leads passed names v x) ∧ ∃ entries, x = .record entries

/-- among these a quantifier looks: a record at the end, the items of the first list on the way, or
what is under one further name in them -/
inductive Ranges : (names : List String) → (v x : Value) → Prop
  | record (entries : List (String × Value)) : Ranges [] (.record entries) (.record entries)
  | entry {name : String} {rest : List String} {entries : List (String × Value)} {v x : Value} :
      field? name entries = some v → Ranges rest v x → Ranges (name :: rest) (.record entries) x
  | item {items : List Value} {x : Value} : x ∈ items → Ranges [] (.list items) x
  | picked {name : String} (rest : List String) {items : List Value} {v : Value} :
      v ∈ items → Ranges (name :: rest) (.list items) (v.pick name)

/-- at most one list is met, at the end of the path or one name before it, and there are only records
in it, or under that name in its items; a list without items may stand anywhere -/
inductive Flat : (names : List String) → Value → Prop
  | null (names : List String) : Flat names .null
  | record (entries : List (String × Value)) : Flat [] (.record entries)
  | missing {name : String} (rest : List String) {entries : List (String × Value)} :
      field? name entries = none → Flat (name :: rest) (.record entries)
  | entry {name : String} {rest : List String} {entries : List (String × Value)} {v : Value} :
      field? name entries = some v → Flat rest v → Flat (name :: rest) (.record entries)
  | last {items : List Value} : (∀ v ∈ items, ∃ entries, v = .record entries) → Flat [] (.list items)
  | behind {name : String} {items : List Value} :
      (∀ v ∈ items, ∃ entries inner, v = .record entries ∧
        field? name entries = some (.record inner)) → Flat [name] (.list items)
  | empty (names : List String) : Flat names (.list [])

theorem related_null : ¬ Related names .null x := by
  rintro ⟨⟨_, hleads⟩, entries, rfl⟩
  cases hleads

theorem ranges_null : ¬ Ranges names .null x := nofun

theorem related_self (entries : List (String × Value)) :
    Related [] (.record entries) x ↔ x = .record entries := by
  constructor
  · rintro ⟨⟨_, hleads⟩, _⟩
    cases hleads
    rfl
  · rintro rfl
    exact ⟨⟨_, .here _⟩, entries, rfl⟩

theorem related_record_iff {entries : List (String × Value)} :
    Related (name :: rest) (.record entries) x ↔
      ∃ v, field? name entries = some v ∧ Related rest v x := by
  constructor
  · rintro ⟨⟨passed, hleads⟩, hrecord⟩
    obtain ⟨v, hfield, hrest⟩ := leads_record_iff.mp hleads
    exact ⟨v, hfield, ⟨passed, hrest⟩, hrecord⟩
  · rintro ⟨v, hfield, ⟨passed, hrest⟩, hrecord⟩
    exact ⟨⟨passed, .entry hfield hrest⟩, hrecord⟩

theorem related_entry {entries : List (String × Value)} (h : field? name entries = some v) :
    Related (name :: rest) (.record entries) x ↔ Related rest v x := by
  rw [related_record_iff, h]
  simp

theorem related_list_iff {items : List Value} :
    Related names (.list items) x ↔ ∃ v ∈ items, Related names v x := by
  constructor
  · rintro ⟨⟨_, hleads⟩, entries, rfl⟩
    cases hleads with
    | item hmem hrest => exact ⟨_, hmem, ⟨_, hrest⟩, entries, rfl⟩
  · rintro ⟨v, hmem, ⟨passed, hrest⟩, hrecord⟩
    exact ⟨⟨names :: passed, .item hmem hrest⟩, hrecord⟩

theorem ranges_record_iff {entries : List (String × Value)} :
    Ranges (name :: rest) (.record entries) x ↔
      ∃ v, field? name entries = some v ∧ Ranges rest v x := by
  constructor
  · rintro ⟨⟩
    exact ⟨_, ‹_›, ‹_›⟩
  · rintro ⟨v, hfield, hrest⟩
    exact .entry hfield hrest

theorem ranges_items_iff {items : List Value} : Ranges [] (.list items) x ↔ x ∈ items := by
  constructor
  · rintro ⟨⟩
    assumption
  · exact .item

theorem ranges_picked_iff {items : List Value} :
    Ranges (name :: rest) (.list items) x ↔ x ∈ items.map (pick name) := by
  rw [List.mem_map]
  constructor
  · rintro ⟨⟩
    exact ⟨_, ‹_›, rfl⟩
  · rintro ⟨v, hmem, rfl⟩
    exact .picked rest hmem

/-! ## what a quantifier ranges over -/

/-- On the way to records a quantifier meets no fault, and this is what it finds. -/
theorem relatedRecords_follow (h : Relates names v) :
    ∃ records, Predicate.relatedRecords (follow names v) = .ok records ∧
      ∀ x, x ∈ records ↔ Ranges names v x := by
  induction h with
  | null names =>
    rw [follow_null]
    exact ⟨[], rfl, fun x => ⟨fun hx => absurd hx List.not_mem_nil, fun hx => absurd hx ranges_null⟩⟩
  | record entries =>
    rw [follow_nil]
    refine ⟨[.record entries], rfl, fun x => ?_⟩
    rw [List.mem_singleton]
    exact ⟨fun hx => hx ▸ .record entries, fun hx => by cases hx; rfl⟩
  | missing rest hmissing =>
    rw [follow_record, hmissing, Option.getD_none, follow_null]
    refine ⟨[], rfl, fun x => ⟨fun hx => absurd hx List.not_mem_nil, fun hx => ?_⟩⟩
    obtain ⟨v, hfield, _⟩ := ranges_record_iff.mp hx
    rw [hmissing] at hfield
    cases hfield
  | entry hfield _ ih =>
    obtain ⟨records, hrecords, hmem⟩ := ih
    rw [follow_record, hfield, Option.getD_some]
    refine ⟨records, hrecords, fun x => ?_⟩
    rw [hmem x, ranges_record_iff]
    simp [hfield]
  | @items names items _ _ =>
    rcases names with _ | ⟨name, rest⟩
    · rw [follow_nil]
      exact ⟨items, rfl, fun x => ranges_items_iff.symm⟩
    · rw [follow, pickAll_eq_map]
      exact ⟨items.map (pick name), rfl, fun x => ranges_picked_iff.symm⟩

theorem Flat.relates (h : Flat names v) : Relates names v := by
  induction h with
  | null names => exact .null names
  | record entries => exact .record entries
  | missing rest hmissing => exact .missing rest hmissing
  | entry hfield _ ih => exact .entry hfield ih
  | last hrecords =>
    refine .items fun v hv => ?_
    obtain ⟨entries, rfl⟩ := hrecords v hv
    exact .record entries
  | behind hrecords =>
    refine .items fun v hv => ?_
    obtain ⟨entries, inner, rfl, hfield⟩ := hrecords v hv
    exact .entry hfield (.record inner)
  | empty names => exact .items fun v hv => absurd hv List.not_mem_nil

/-- Past one list at most, close to the end and of records, a quantifier ranges over the related
records. -/
theorem ranges_iff_related (h : Flat names v) : Ranges names v x ↔ Related names v x := by
  induction h with
  | null names => exact ⟨fun hx => absurd hx ranges_null, fun hx => absurd hx related_null⟩
  | record entries =>
    rw [related_self]
    exact ⟨fun hx => by cases hx; rfl, fun hx => hx ▸ .record entries⟩
  | missing rest hmissing =>
    rw [ranges_record_iff, related_record_iff, hmissing]
    simp
  | entry hfield _ ih =>
    rw [ranges_record_iff, related_record_iff, hfield]
    simp [ih]
  | last hrecords =>
    rw [ranges_items_iff, related_list_iff]
    constructor
    · intro hx
      obtain ⟨entries, rfl⟩ := hrecords x hx
      exact ⟨_, hx, (related_self entries).mpr rfl⟩
    · rintro ⟨v, hv, hrelated⟩
      obtain ⟨entries, rfl⟩ := hrecords v hv
      rw [related_self] at hrelated
      exact hrelated ▸ hv
  | @behind name items hrecords =>
    rw [ranges_picked_iff, related_list_iff, List.mem_map]
    refine exists_congr fun v => and_congr_right fun hv => ?_
    obtain ⟨entries, inner, rfl, hfield⟩ := hrecords v hv
    rw [pick_record, hfield, Option.getD_some, related_record_iff, hfield]
    simp [related_self, eq_comm]
  | empty names =>
    rw [related_list_iff]
    rcases names with _ | ⟨name, rest⟩
    · rw [ranges_items_iff]
      simp
    · rw [ranges_picked_iff]
      simp

/-! ## where these are the related records -/

theorem sizeOf_field {entries : List (String × Value)} (h : field? name entries = some v) :
    sizeOf v < sizeOf (Value.record entries) := by
  have hmem := List.sizeOf_lt_of_mem (mem_of_field? h)
  simp only [Prod.mk.sizeOf_spec] at hmem
  simp only [record.sizeOf_spec]
  omega

theorem Leads.sizeOf_le {passed : List (List String)} (h : Leads passed names v x) :
    sizeOf x ≤ sizeOf v := by
  induction h with
  | here => exact Nat.le_refl _
  | entry hfield _ ih =>
    have hsmaller := sizeOf_field hfield
    omega
  | item hmem _ ih =>
    have hsmaller := List.sizeOf_lt_of_mem hmem
    simp only [list.sizeOf_spec]
    omega

theorem Related.sizeOf_lt {entries : List (String × Value)}
    (h : Related (name :: rest) (.record entries) x) : sizeOf x < sizeOf (Value.record entries) := by
  obtain ⟨v, hfield, ⟨passed, hleads⟩, _⟩ := related_record_iff.mp h
  exact Nat.lt_of_le_of_lt hleads.sizeOf_le (sizeOf_field hfield)

theorem exists_greatest {xs : List Value} (h : xs ≠ []) :
    ∃ x ∈ xs, ∀ y ∈ xs, sizeOf y ≤ sizeOf x := by
  induction xs with
  | nil => exact absurd rfl h
  | cons x rest ih =>
    by_cases hrest : rest = []
    · subst hrest
      exact ⟨x, List.mem_cons_self, List.forall_mem_singleton.mpr (Nat.le_refl _)⟩
    · obtain ⟨greatest, hmem, hle⟩ := ih hrest
      by_cases hx : sizeOf greatest ≤ sizeOf x
      · refine ⟨x, List.mem_cons_self, List.forall_mem_cons.mpr ⟨Nat.le_refl _, fun y hy => ?_⟩⟩
        exact Nat.le_trans (hle y hy) hx
      · refine ⟨greatest, List.mem_cons_of_mem _ hmem, List.forall_mem_cons.mpr ⟨?_, hle⟩⟩
        exact Nat.le_of_lt (Nat.lt_of_not_le hx)

theorem pick_eq_record {inner : List (String × Value)} (hitem : Relates (name :: rest) v)
    (h : v.pick name = .record inner) :
    ∃ entries, v = .record entries ∧ field? name entries = some (.record inner) := by
  cases hitem with
  | null =>
    rw [pick] at h
    cases h
  | missing _ hmissing =>
    rw [pick_record, hmissing] at h
    cases h
  | entry hfield _ =>
    rw [pick_record, hfield] at h
    exact ⟨_, rfl, hfield.trans (congrArg some h)⟩
  | items =>
    rw [pick] at h
    cases h

/-- A quantifier ranges over the related records only past one list at most, close to the end and of
records: what it finds two names before the end or earlier is greater than what stands at the end. -/
theorem flat_iff (h : Relates names v) :
    Flat names v ↔ ∀ x, Ranges names v x ↔ Related names v x := by
  refine ⟨fun hflat x => ranges_iff_related hflat, ?_⟩
  induction h with
  | null names => exact fun _ => .null names
  | record entries => exact fun _ => .record entries
  | missing rest hmissing => exact fun _ => .missing rest hmissing
  | entry hfield _ ih =>
    intro hsame
    refine .entry hfield (ih fun x => ?_)
    rw [← related_entry hfield, ← hsame x, ranges_record_iff, hfield]
    simp
  | @items names items hitems _ =>
    intro hsame
    rcases names with _ | ⟨name, _ | ⟨second, rest⟩⟩
    · exact .last fun v hv => ((hsame v).mp (.item hv)).2
    · refine .behind fun v hv => ?_
      obtain ⟨inner, hinner⟩ := ((hsame _).mp (.picked [] hv)).2
      obtain ⟨entries, rfl, hfield⟩ := pick_eq_record (hitems v hv) hinner
      exact ⟨entries, inner, rfl, hfield⟩
    · by_cases hempty : items = []
      · subst hempty
        exact .empty _
      · -- the greatest of the records under the first name is none of those at the end
        have hpicked : items.map (pick name) ≠ [] := by simpa
        obtain ⟨x, hx, hgreatest⟩ := exists_greatest hpicked
        obtain ⟨w, hw, hrelated⟩ :=
          related_list_iff.mp ((hsame x).mp (ranges_picked_iff.mpr hx))
        obtain ⟨inner, hinner⟩ := ((hsame _).mp (.picked (second :: rest) hw)).2
        obtain ⟨entries, rfl, hfield⟩ := pick_eq_record (hitems w hw) hinner
        have hsmaller := ((related_entry hfield).mp hrelated).sizeOf_lt
        have hle := hgreatest _ (List.mem_map_of_mem hw)
        rw [hinner] at hle
        omega

end Value

/-! ## tests over items -/

section
variable {α : Type} {test : α → Outcome Bool} {xs : List α} {b : Bool} {e : Fault}

theorem anyTrue_ok (h : anyTrue test xs = .ok b) : b = true ↔ ∃ x ∈ xs, test x = .ok true := by
  induction xs with
  | nil =>
    cases h
    simp
  | cons x rest ih =>
    obtain ⟨here, hhere, h⟩ := Outcome.bind_eq_ok.mp h
    cases here with
    | true =>
      cases h
      simp [hhere]
    | false =>
      rw [ih h]
      simp [hhere]

theorem allTrue_ok (h : allTrue test xs = .ok b) : b = true ↔ ∀ x ∈ xs, test x = .ok true := by
  induction xs with
  | nil =>
    cases h
    simp
  | cons x rest ih =>
    obtain ⟨here, hhere, h⟩ := Outcome.bind_eq_ok.mp h
    cases here with
    | true =>
      rw [ih h]
      simp [hhere]
    | false =>
      cases h
      simp [hhere]

/-- a test over items fails only where it fails on one of them -/
theorem anyTrue_error (h : anyTrue test xs = .error e) : ∃ x ∈ xs, test x = .error e := by
  induction xs with
  | nil => cases h
  | cons x rest ih =>
    rw [anyTrue] at h
    rcases hhere : test x with fault | here
    · rw [hhere] at h
      cases h
      exact ⟨x, List.mem_cons_self, hhere⟩
    · rw [hhere] at h
      cases here with
      | true => cases h
      | false =>
        obtain ⟨y, hy, htest⟩ := ih h
        exact ⟨y, List.mem_cons_of_mem _ hy, htest⟩

theorem allTrue_error (h : allTrue test xs = .error e) : ∃ x ∈ xs, test x = .error e := by
  induction xs with
  | nil => cases h
  | cons x rest ih =>
    rw [allTrue] at h
    rcases hhere : test x with fault | here
    · rw [hhere] at h
      cases h
      exact ⟨x, List.mem_cons_self, hhere⟩
    · rw [hhere] at h
      cases here with
      | false => cases h
      | true =>
        obtain ⟨y, hy, htest⟩ := ih h
        exact ⟨y, List.mem_cons_of_mem _ hy, htest⟩

end

/-! ## quantifiers -/

def Condition.Quantified (quantifier : String) (among meets : Value → Prop) : Prop :=
  match quantifier with
  | "some" => ∃ x, among x ∧ meets x
  | "none" => ¬ ∃ x, among x ∧ meets x
  | _ => ∀ x, among x → meets x

theorem Condition.quantified_congr {q : String} {among others meets : Value → Prop}
    (h : ∀ x, among x ↔ others x) : Quantified q among meets ↔ Quantified q others meets := by
  have heq : among = others := funext fun x => propext (h x)
  rw [heq]

namespace Predicate

variable {q : String} {test : Value → Outcome Bool} {records : List Value}

def operatorOf (q : String) : Operator := (Operator.ofQuantifier? q).getD .some

theorem quantify_ok (hq : q ∈ Condition.quantifiers) {met : Bool}
    (h : quantify (operatorOf q) test records = .ok met) :
    met = true ↔ Condition.Quantified q (· ∈ records) (test · = .ok true) := by
  simp only [Condition.quantifiers, List.mem_cons, List.not_mem_nil, or_false] at hq
  rcases hq with rfl | rfl | rfl
  · exact anyTrue_ok h
  · obtain ⟨any, hany, h⟩ := Outcome.bind_eq_ok.mp h
    cases h
    have hiff := anyTrue_ok hany
    show (!any) = true ↔ ¬ _
    rw [← hiff]
    simp
  · exact allTrue_ok h

/-- a quantifier fails only where its conditions fail on one of the values -/
theorem quantify_error (hq : q ∈ Condition.quantifiers) {e : Fault}
    (h : quantify (operatorOf q) test records = .error e) : ∃ x ∈ records, test x = .error e := by
  simp only [Condition.quantifiers, List.mem_cons, List.not_mem_nil, or_false] at hq
  rcases hq with rfl | rfl | rfl
  · exact anyTrue_error h
  · replace h : (do return !(← anyTrue test records) : Outcome Bool) = .error e := h
    rcases hany : anyTrue test records with fault | any
    · rw [hany] at h
      cases h
      exact anyTrue_error hany
    · rw [hany] at h
      cases h
  · exact allTrue_error h

theorem ofFilters_quantifier (path : String) (hq : q ∈ Condition.quantifiers)
    {nested : List (String × Value)} {p : Predicate} (hp : ofFilters (.record nested) = .ok p) :
    ofFilters (.record [(path, .record [(q, .record nested)])])
      = .ok (.related path (operatorOf q) p) := by
  obtain ⟨parts, hparts, hall⟩ := Outcome.bind_eq_ok.mp hp
  cases hall
  have hop : quantifier q = .ok (operatorOf q) := Condition.quantifier_eq (by simpa using hq)
  have hvalue : ofValue path (.record [(q, .record nested)])
      = .ok (.related path (operatorOf q) (all parts)) := by
    rw [ofValue, if_pos hq, hop]
    show (do return Predicate.related path (operatorOf q) (all (← ofEntries nested))) = _
    rw [hparts]
    rfl
  show (do return all (← ofEntries [(path, .record [(q, .record nested)])])) = _
  rw [ofEntries, hvalue, ofEntries]
  · rfl
  · simp

theorem evaluate_related {path : String} {names : List String} (hnames : Value.pathNames path = names)
    {row : Value} {records : List Value}
    (hrecords : relatedRecords (Value.follow names row) = .ok records) (op : Operator)
    (p : Predicate) : evaluate (.related path op p) row = quantify op p.evaluate records := by
  rw [evaluate, Value.resolve, hnames, hrecords]
  rfl

/-- A quantifier on a path ranges over what stands at the end of the path, where the first list ends
it; these are the related records exactly if that list comes last, or one name before the end, and
holds only records.  It fails only where its conditions do. -/
theorem quantified_iff (path : String) (row : Value) (hq : q ∈ Condition.quantifiers)
    (nested : List (String × Value)) (p : Predicate) (hp : ofFilters (.record nested) = .ok p)
    (hrow : Value.Relates (Value.pathNames path) row) :
    ∃ tree, ofRelationFilters (.record [(path, .record [(q, .record nested)])]) = .ok tree ∧
      ofFilters (.record [(path, .record [(q, .record nested)])]) = .ok tree ∧
      (∀ met, tree.evaluate row = .ok met →
        (met = true ↔ Condition.Quantified q (Value.Ranges (Value.pathNames path) row)
          (p.evaluate · = .ok true)) ∧
        (Value.Flat (Value.pathNames path) row → (met = true ↔
          Condition.Quantified q (Value.Related (Value.pathNames path) row)
            (p.evaluate · = .ok true)))) ∧
      (Value.Flat (Value.pathNames path) row ↔ ∀ x,
        Value.Ranges (Value.pathNames path) row x ↔ Value.Related (Value.pathNames path) row x) ∧
      ∀ e, tree.evaluate row = .error e →
        ∃ x, Value.Ranges (Value.pathNames path) row x ∧ p.evaluate x = .error e := by
  have hfilter := ofFilters_quantifier path hq hp
  have hsingle : Condition.Discriminated [(q, .record nested)] :=
    ⟨List.cons_ne_nil _ _, List.nodup_singleton _, List.forall_mem_singleton.mpr hq⟩
  obtain ⟨records, hrecords, hmem⟩ := Value.relatedRecords_follow hrow
  have hevaluate := evaluate_related rfl hrecords (operatorOf q) p
  refine ⟨_, (alike_of_single path q _ hsingle).trans hfilter, hfilter, ?_, Value.flat_iff hrow, ?_⟩
  · intro met hmet
    rw [hevaluate] at hmet
    have hranges := (quantify_ok hq hmet).trans (Condition.quantified_congr hmem)
    exact ⟨hranges, fun hflat => hranges.trans <|
      Condition.quantified_congr fun _ => Value.ranges_iff_related hflat⟩
  · intro e he
    rw [hevaluate] at he
    obtain ⟨x, hx, hfault⟩ := quantify_error hq he
    exact ⟨x, (hmem x).mp hx, hfault⟩

/-- the items of two orders, of which one is the second -/
theorem quantified_second_item :
    let row : Value := .record [("orders", .list [.record [("item", .record [("n", .int 1)])],
      .record [("item", .record [("n", .int 2)])]])]
    let names := Value.pathNames "orders.item"
    Value.Flat names row ∧ ∃ tree,
      ofRelationFilters (.record [("orders.item", .record [("some", .record [("n", .int 2)])])])
        = .ok tree ∧ tree.evaluate row = .ok true ∧
      ∃ x, Value.Related names row x ∧ evaluate (.compare "n" .eq (.int 2)) x = .ok true := by
  intro row names
  have hnames : names = ["orders", "item"] := by decide +kernel
  have hflat : Value.Flat names row := by
    rw [hnames]
    refine .entry rfl (.behind ?_)
    simp only [List.forall_mem_cons]
    exact ⟨⟨_, _, rfl, rfl⟩, ⟨_, _, rfl, rfl⟩, fun _ h => absurd h List.not_mem_nil⟩
  obtain ⟨tree, htree, _, hok, _⟩ := quantified_iff "orders.item" row (q := "some") (by decide)
    [("n", .int 2)] _ rfl hflat.relates
  have htrue : tree.evaluate row = .ok true := by
    cases htree
    exact (evaluate_related hnames rfl .some (.compare "n" .eq (.int 2))).trans rfl
  exact ⟨hflat, tree, htree, htrue, ((hok true htrue).2 hflat).mp rfl⟩

/-- A post without comments counts as one, the books of the authors of posts are not looked at, and
two comments of a post meet together what neither of them meets. -/
theorem quantified_amiss :
    let bare : Value := .record [("posts", .list [.record [("comments", .list [])]])]
    let written : Value := .record [("posts", .list [.record [("author", .record
      [("books", .list [.record [("t", .int 1)]])])]])]
    let shared : Value := .record [("posts", .list [.record [("comments", .list
      [.record [("a", .int 1)], .record [("b", .int 2)]])]])]
    let both : List (String × Value) := [("a", .int 1), ("b", .int 2)]
    (∃ tree, ofRelationFilters (.record [("posts.comments", .record [("some", .record [])])])
        = .ok tree ∧ tree.evaluate bare = .ok true ∧
      ∀ x, ¬ Value.Related (Value.pathNames "posts.comments") bare x) ∧
    (∃ tree, ofRelationFilters
        (.record [("posts.author.books", .record [("some", .record [("t", .int 1)])])]) = .ok tree ∧
      tree.evaluate written = .ok false ∧
      ∃ x p, Value.Related (Value.pathNames "posts.author.books") written x ∧
        ofFilters (.record [("t", .int 1)]) = .ok p ∧ p.evaluate x = .ok true) ∧
    ∃ tree p, ofRelationFilters (.record [("posts.comments", .record [("some", .record both)])])
        = .ok tree ∧ tree.evaluate shared = .ok true ∧ ofFilters (.record both) = .ok p ∧
      ∀ x, Value.Related (Value.pathNames "posts.comments") shared x → p.evaluate x = .ok false := by
  intro bare written shared both
  have hcomments : Value.pathNames "posts.comments" = ["posts", "comments"] := by decide +kernel
  have hbooks : Value.pathNames "posts.author.books" = ["posts", "author", "books"] := by
    decide +kernel
  refine ⟨⟨_, rfl, (evaluate_related hcomments rfl .some .unrestricted).trans rfl, ?_⟩,
    ⟨_, rfl, (evaluate_related hbooks rfl .some (.compare "t" .eq (.int 1))).trans rfl, ?_⟩,
    ⟨_, _, rfl, (evaluate_related hcomments rfl .some (.conjunction
      [.compare "a" .eq (.int 1), .compare "b" .eq (.int 2)])).trans rfl, rfl, ?_⟩⟩
  · intro x
    rw [hcomments, Value.related_entry rfl, Value.related_list_iff]
    simp only [List.mem_singleton, exists_eq_left]
    rw [Value.related_entry rfl, Value.related_list_iff]
    simp
  · rw [hbooks]
    refine ⟨.record [("t", .int 1)], _, ⟨⟨[["author", "books"], []], ?_⟩, _, rfl⟩, rfl, rfl⟩
    exact .entry rfl (.item List.mem_cons_self (.entry rfl (.entry rfl
      (.item List.mem_cons_self (.here _)))))
  · intro x hx
    rw [hcomments, Value.related_entry rfl, Value.related_list_iff] at hx
    simp only [List.mem_singleton, exists_eq_left] at hx
    rw [Value.related_entry rfl, Value.related_list_iff] at hx
    simp only [List.mem_cons, List.not_mem_nil, or_false, exists_eq_or_imp, exists_eq_left,
      Value.related_self] at hx
    rcases hx with rfl | rfl <;> rfl

end Predicate

end ListQuery
