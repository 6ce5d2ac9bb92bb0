import Mathlib.Data.List.ReduceOption
import ListQuery.Collection.Aggregate
import ListQuery.Proofs.Number.Quotient
import ListQuery.Proofs.Value.Integers
import ListQuery.Proofs.Value.Overlay

/-!
# Aggregates of integers

Where rows hold integers or null under a field, its sum and its extremes are those of the integers,
and the answers for parts of the rows make the answer for all of them: the counts and the sums add
up, the least of the least is the least.

* `together?`, `together?_flatten`     integers taken two by two, in parts or at once;
* `Aggregation.apply_operation`        sums and extremes of integers, `apply_average` their mean;
* `Measure`, `Ask`                     what an aggregation asks for, and how it is written;
* `aggregate_eq`                       the answers of aggregations of integers;
* `Measure.folds`                      the answers for parts make the answer for all rows.
-/

namespace ListQuery

/-! ## steps that fail alike -/

namespace Outcome
variable {α β : Type} {e : Fault}

/-- steps of which none can fail but with one fault fail with it if one of them does -/
theorem foldlM_fails {step : β → α → Outcome β} {xs : List α}
    (h : ∀ x ∈ xs, ∀ b, (∃ next, step b x = .ok next) ∨ step b x = .error e)
    (hfails : ∃ x ∈ xs, ∀ b, step b x = .error e) (b : β) : xs.foldlM step b = .error e := by
  induction xs generalizing b with
  | nil => obtain ⟨x, hx, _⟩ := hfails; cases hx
  | cons x xs ih =>
    obtain ⟨hx, hrest⟩ := List.forall_mem_cons.mp h
    rw [List.foldlM_cons]
    rcases hx b with ⟨next, hnext⟩ | herror
    · obtain ⟨bad, hbad, hfail⟩ := hfails
      rcases List.mem_cons.mp hbad with rfl | hbad
      · rw [hfail]
        rfl
      · rw [hnext, ok_bind]
        exact ih hrest ⟨bad, hbad, hfail⟩ next
    · rw [herror]
      rfl

theorem mapM_fails {f : α → Outcome β} {xs : List α}
    (h : ∀ x ∈ xs, (∃ y, f x = .ok y) ∨ f x = .error e) (hfails : ∃ x ∈ xs, f x = .error e) :
    xs.mapM f = .error e := by
  induction xs with
  | nil => obtain ⟨x, hx, _⟩ := hfails; cases hx
  | cons x xs ih =>
    obtain ⟨hx, hrest⟩ := List.forall_mem_cons.mp h
    rw [List.mapM_cons]
    rcases hx with ⟨y, hy⟩ | herror
    · obtain ⟨bad, hbad, hfail⟩ := hfails
      rcases List.mem_cons.mp hbad with rfl | hbad
      · rw [hfail]
        rfl
      · rw [hy, ok_bind, ih hrest ⟨bad, hbad, hfail⟩]
        rfl
    · rw [herror]
      rfl

theorem mapM_kept {f : α → Outcome (Option β)} {find : α → Outcome β} {xs : List α}
    (h : ∀ x ∈ xs, f x = (find x >>= fun y => .ok (some y))) :
    (xs.mapM f >>= fun found => .ok (found.filterMap id)) = xs.mapM find := by
  induction xs with
  | nil => rfl
  | cons x xs ih =>
    obtain ⟨hx, hrest⟩ := List.forall_mem_cons.mp h
    rw [List.mapM_cons, List.mapM_cons, hx, ← ih hrest]
    cases find x with
    | error => rfl
    | ok y => cases xs.mapM f <;> rfl

end Outcome

/-! ## integers taken together -/

/-- what integers come to, taken two by two; none come to nothing -/
def together? (op : Int → Int → Int) : List Int → Option Int
  | [] => none
  | n :: rest => some (rest.foldl op n)

section
variable {op : Int → Int → Int} [Std.Associative op]

theorem together?_cons (n : Int) (ns : List Int) :
    together? op (n :: ns) = Option.merge op (some n) (together? op ns) := by
  cases ns with
  | nil => rfl
  | cons m rest => exact congrArg some List.foldl_assoc

theorem together?_append (ms ns : List Int) :
    together? op (ms ++ ns) = Option.merge op (together? op ms) (together? op ns) := by
  induction ms with
  | nil => exact Option.merge_none_left.symm
  | cons m ms ih =>
    rw [List.cons_append, together?_cons, together?_cons, ih]
    exact (Std.Associative.assoc ..).symm

/-- parts that come to something come to the same together as the integers in them -/
theorem together?_flatten (parts : List (List Int)) :
    together? op parts.flatten = together? op (parts.filterMap (together? op)) := by
  induction parts with
  | nil => rfl
  | cons part rest ih =>
    rw [List.flatten_cons, together?_append, ih]
    cases hpart : together? op part with
    | none => rw [List.filterMap_cons_none hpart, Option.merge_none_left]
    | some n => rw [List.filterMap_cons_some hpart, together?_cons]

theorem merge_left_comm [Std.Commutative op] (x y z : Option Int) :
    Option.merge op x (Option.merge op y z) = Option.merge op y (Option.merge op x z) := by
  have assoc := (inferInstance : Std.Associative (Option.merge op)).assoc
  have comm := (inferInstance : Std.Commutative (Option.merge op)).comm
  rw [← assoc, comm x y, assoc]

theorem together?_perm [Std.Commutative op] {ms ns : List Int} (h : ms.Perm ns) :
    together? op ms = together? op ns := by
  induction h with
  | nil => rfl
  | cons n _ ih => rw [together?_cons, together?_cons, ih]
  | swap m n rest =>
    rw [together?_cons, together?_cons, together?_cons, together?_cons]
    exact merge_left_comm ..
  | trans _ _ ih ih' => exact ih.trans ih'

end

/-! ## one field -/

namespace Aggregation

def operation? : Aggregation → Option (Int → Int → Int)
  | .sum => some (· + ·)
  | .least => some min
  | .greatest => some max
  | _ => none

theorem operation?_laws {a : Aggregation} {op : Int → Int → Int} (h : a.operation? = some op) :
    Std.Associative op ∧ Std.Commutative op := by
  cases a <;> cases h <;> exact ⟨inferInstance, inferInstance⟩

theorem foldlM_int (step : Value → Value → Outcome Value) {op : Int → Int → Int}
    (h : ∀ m n, step (.int m) (.int n) = .ok (.int (op m n))) (m : Int) (ns : List Int) :
    (ns.map Value.int).foldlM step (.int m) = .ok (.int (ns.foldl op m)) := by
  induction ns generalizing m with
  | nil => rfl
  | cons n ns ih => rw [List.map_cons, List.foldlM_cons, h, Outcome.ok_bind, ih, List.foldl_cons]

theorem sumOf_int (ns : List Int) : sumOf (ns.map .int) = .ok (.int ns.sum) := by
  rw [List.sum_eq_foldl]
  exact foldlM_int Value.add (fun _ _ => rfl) 0 ns

theorem apply_operation {a : Aggregation} {op : Int → Int → Int} (h : a.operation? = some op)
    (ns : List Int) : a.apply (ns.map .int) = .ok (.ofInt? (together? op ns)) := by
  cases ns with
  | nil => cases a <;> cases h <;> rfl
  | cons n ns =>
    cases a <;> cases h
    · have hsum : (n :: ns).sum = ns.foldl (· + ·) n := by
        rw [List.sum_eq_foldl, List.foldl_cons, Int.zero_add]
      show sumOf ((n :: ns).map .int) = .ok (.int (ns.foldl (· + ·) n))
      rw [sumOf_int, hsum]
    · exact foldlM_int Value.atMost Value.atMost_int n ns
    · exact foldlM_int Value.atLeast Value.atLeast_int n ns

def MeanInRange (ns : List Int) : Prop :=
  ns ≠ [] → ns.sum.natAbs < Binary64.tooGreat * ns.length

instance (ns : List Int) : Decidable (MeanInRange ns) :=
  inferInstanceAs (Decidable (ns ≠ [] → _))

theorem MeanInRange.append {ms ns : List Int} (hms : MeanInRange ms) (hns : MeanInRange ns) :
    MeanInRange (ms ++ ns) := by
  intro hne
  by_cases hm : ms = []
  · subst hm
    exact hns hne
  by_cases hn : ns = []
  · rw [hn, List.append_nil]
    exact hms hm
  have hleft := hms hm
  have hright := hns hn
  have hsum := Int.natAbs_add_le ms.sum ns.sum
  rw [List.sum_append, List.length_append, Nat.mul_add]
  omega

theorem MeanInRange.flatten {parts : List (List Int)} (h : ∀ part ∈ parts, MeanInRange part) :
    MeanInRange parts.flatten := by
  induction parts with
  | nil => exact fun hne => absurd rfl hne
  | cons part rest ih =>
    obtain ⟨hpart, hrest⟩ := List.forall_mem_cons.mp h
    exact hpart.append (ih hrest)

theorem MeanInRange.perm {ms ns : List Int} (hperm : ms.Perm ns) (h : MeanInRange ms) :
    MeanInRange ns := by
  intro hne
  rw [← hperm.sum_eq, ← hperm.length_eq]
  refine h fun hnil => hne ?_
  subst hnil
  exact hperm.nil_eq.symm

theorem apply_average {ns : List Int} (h : MeanInRange ns) :
    ∃ v, average.apply (ns.map .int) = .ok v := by
  cases ns with
  | nil => exact ⟨.null, rfl⟩
  | cons n ns =>
    obtain ⟨x, hx⟩ := Value.quotient_ok (m := (n :: ns).sum) (n := ((n :: ns).length : Int))
      (by rw [List.length_cons]; omega) (h (List.cons_ne_nil n ns))
    refine ⟨.float x, ?_⟩
    show (sumOf ((n :: ns).map .int) >>= fun total => _) = _
    rw [sumOf_int, Outcome.ok_bind, List.length_map]
    show (Value.quotient _ _ >>= fun mean => _) = _
    rw [hx]
    rfl

theorem apply_overflows {ns : List Int} (h : ¬ MeanInRange ns) :
    average.apply (ns.map .int) = .error .overflow := by
  obtain ⟨hne, hgreat⟩ := Classical.not_imp.mp h
  cases ns with
  | nil => exact absurd rfl hne
  | cons n ns =>
    have hquotient := Value.quotient_overflow (m := (n :: ns).sum) (n := ((n :: ns).length : Int))
      (by rw [List.length_cons]; omega) (not_lt.mp hgreat)
    show (sumOf ((n :: ns).map .int) >>= fun total => _) = _
    rw [sumOf_int, Outcome.ok_bind, List.length_map]
    show (Value.quotient _ _ >>= fun mean => _) = _
    rw [hquotient]
    rfl

/-- the aggregate can be taken: a mean has to have a double -/
def Answers (a : Aggregation) (ns : List Int) : Prop := a = .average → MeanInRange ns

instance (a : Aggregation) (ns : List Int) : Decidable (a.Answers ns) :=
  inferInstanceAs (Decidable (a = .average → MeanInRange ns))

def answer (a : Aggregation) (ns : List Int) : Value :=
  (a.apply (ns.map .int)).toOption.getD .null

theorem apply_answer {a : Aggregation} {ns : List Int} (h : a.Answers ns) :
    a.apply (ns.map .int) = .ok (a.answer ns) := by
  have hok : ∃ v, a.apply (ns.map .int) = .ok v := by
    cases hop : a.operation? with
    | some op => exact ⟨_, apply_operation hop ns⟩
    | none =>
      cases a with
      | count => exact ⟨_, rfl⟩
      | average => exact apply_average (h rfl)
      | _ => cases hop
  obtain ⟨v, hv⟩ := hok
  rw [answer, hv]
  rfl

theorem apply_unanswered {a : Aggregation} {ns : List Int} (h : ¬ a.Answers ns) :
    a.apply (ns.map .int) = .error .overflow := by
  obtain ⟨rfl, hmean⟩ := Classical.not_imp.mp h
  exact apply_overflows hmean

theorem answer_count (ns : List Int) : count.answer ns = .int ns.length :=
  congrArg (fun n : Nat => Value.int n) (List.length_map _)

theorem answer_operation {a : Aggregation} {op : Int → Int → Int} (h : a.operation? = some op)
    (ns : List Int) : a.answer ns = .ofInt? (together? op ns) := by
  rw [answer, apply_operation h]
  rfl

end Aggregation

/-! ## rows -/

def Value.Whole (v : Value) : Prop := ∃ n : Option Int, v = .ofInt? n

def Value.whole? : Value → Option Int
  | .int n => some n
  | _ => none

theorem Value.whole?_ofInt? (n : Option Int) : (Value.ofInt? n).whole? = n := by
  cases n <;> rfl

theorem Value.whole_iff {v : Value} : v.Whole ↔ (v.isNull || v.whole?.isSome) = true := by
  constructor
  · rintro ⟨n, rfl⟩
    cases n <;> rfl
  · intro h
    cases v with
    | null => exact ⟨none, rfl⟩
    | int n => exact ⟨some n, rfl⟩
    | _ => cases h

instance (v : Value) : Decidable v.Whole := decidable_of_iff _ Value.whole_iff.symm

def integersAt (path : String) (rows : List Value) : List Int :=
  rows.filterMap fun row => (row.resolve path).whole?

theorem integersAt_cons (path : String) (row : Value) (rows : List Value) :
    integersAt path (row :: rows) = (row.resolve path).whole?.toList ++ integersAt path rows := by
  rw [integersAt, List.filterMap_cons]
  cases (row.resolve path).whole? <;> rfl

theorem integersAt_flatten (path : String) (parts : List (List Value)) :
    integersAt path parts.flatten = (parts.map (integersAt path)).flatten :=
  List.filterMap_flatten

theorem presentValues_whole {path : String} {rows : List Value}
    (h : ∀ row ∈ rows, (row.resolve path).Whole) :
    presentValues (.str path) rows = .ok ((integersAt path rows).map .int) := by
  induction rows with
  | nil => rfl
  | cons row rows ih =>
    obtain ⟨⟨n, hn⟩, hrest⟩ := List.forall_mem_cons.mp h
    show (presentValues (.str path) rows >>= fun others => _) = _
    rw [ih hrest, Outcome.ok_bind, integersAt_cons, hn, Value.whole?_ofInt?]
    cases n <;> rfl

/-! ## answers by name -/

theorem putField_str (field : String) (v : Value) (entries : List (String × Value)) :
    putField (.str field) v entries = .ok (Value.put field v entries) :=
  congrArg (fun name => Except.ok (Value.put name v entries)) String.ofList_toList

theorem foldlM_put {α : Type} {step : List (String × Value) → α → Outcome (List (String × Value))}
    (entry : α → String × Value) {xs : List α}
    (h : ∀ x ∈ xs, ∀ entries, step entries x = .ok (Value.put (entry x).1 (entry x).2 entries))
    (entries : List (String × Value)) :
    xs.foldlM step entries = .ok (Value.overlay entries (xs.map entry)) := by
  induction xs generalizing entries with
  | nil => rfl
  | cons x xs ih =>
    obtain ⟨hx, hrest⟩ := List.forall_mem_cons.mp h
    rw [List.foldlM_cons, hx, Outcome.ok_bind, ih hrest]
    rfl

theorem countFields_eq {rows : List Value} {fields : List String}
    (h : ∀ field ∈ fields, ∀ row ∈ rows, (row.resolve field).Whole) :
    countFields rows (fields.map .str) = .ok (Value.overlay []
      (fields.map fun field => (field, Aggregation.count.answer (integersAt field rows)))) := by
  unfold countFields
  rw [List.foldlM_map]
  refine foldlM_put (fun field => (field, _)) (fun field hfield entries => ?_) []
  rw [presentValues_whole (h field hfield), Outcome.ok_bind, putField_str]
  rfl

theorem collectFields_eq {rows : List Value} {fields : List String}
    (h : ∀ field ∈ fields, ∀ row ∈ rows, (row.resolve field).Whole) :
    collectFields rows (fields.map .str)
      = .ok (fields.map fun field => (.str field, (integersAt field rows).map .int)) := by
  have hfold : ∀ collected : List (Value × List Value),
      (fields.map Value.str).foldlM (fun collected field => do
        let values ← presentValues field rows
        if field.hashable then return collected ++ [(field, values)] else throw .wrongKind) collected
      = (.ok (collected ++ fields.map fun field =>
          (.str field, (integersAt field rows).map .int)) : Outcome _) := by
    induction fields with
    | nil => exact fun collected => congrArg Except.ok (List.append_nil collected).symm
    | cons field fields ih =>
      obtain ⟨hfield, hrest⟩ := List.forall_mem_cons.mp h
      intro collected
      rw [List.map_cons, List.foldlM_cons, presentValues_whole hfield, Outcome.ok_bind]
      show (fields.map Value.str).foldlM _ (collected ++ [_]) = _
      rw [ih hrest, List.append_assoc]
      rfl
  exact hfold []

/-! ## what is asked for -/

/-- what an aggregation is taken of: the rows themselves, or fields of them -/
inductive Measure where
  | rows
  | fields (a : Aggregation) (paths : List String)

namespace Measure

inductive Written (name : String) (spec : Value) : Measure → Prop where
  | rows (hname : Aggregation.ofName? name = some .count) (hspec : spec = .bool true) :
    Written name spec .rows
  | fields {a : Aggregation} {paths : List String} (hname : Aggregation.ofName? name = some a)
      (hspec : aggregatedFields spec = .ok (paths.map .str)) : Written name spec (.fields a paths)

def WholeOn (rows : List Value) : Measure → Prop
  | .rows => True
  | .fields _ paths => ∀ path ∈ paths, ∀ row ∈ rows, (row.resolve path).Whole

instance (rows : List Value) : (m : Measure) → Decidable (m.WholeOn rows)
  | .rows => isTrue trivial
  | .fields _ paths =>
    inferInstanceAs (Decidable (∀ path ∈ paths, ∀ row ∈ rows, (row.resolve path).Whole))

theorem wholeOn_subset (m : Measure) {rows others : List Value} (hrows : ∀ row ∈ others, row ∈ rows)
    (h : m.WholeOn rows) : m.WholeOn others := by
  cases m with
  | rows => trivial
  | fields a paths => exact fun path hpath row hrow => h path hpath row (hrows row hrow)

def AnsweredOn (rows : List Value) : Measure → Prop
  | .rows => True
  | .fields a paths => ∀ path ∈ paths, a.Answers (integersAt path rows)

instance (rows : List Value) : (m : Measure) → Decidable (m.AnsweredOn rows)
  | .rows => isTrue trivial
  | .fields a paths => inferInstanceAs (Decidable (∀ path ∈ paths, a.Answers (integersAt path rows)))

def byPath (a : Aggregation) (paths : List String) (rows : List Value) : List (String × Value) :=
  Value.overlay [] (paths.map fun path => (path, a.answer (integersAt path rows)))

theorem field?_byPath {a : Aggregation} {paths : List String} {path : String} (h : path ∈ paths)
    (rows : List Value) :
    Value.field? path (byPath a paths rows) = some (a.answer (integersAt path rows)) :=
  Value.field?_overlay_named (fun path => a.answer (integersAt path rows)) (.inl h)

def answer (rows : List Value) : Measure → Value
  | .rows => .int rows.length
  | .fields a paths => .record (byPath a paths rows)

end Measure

theorem aggregateOne_count {rows : List Value} {name : String} {spec : Value} {fields : List Value}
    (hname : Aggregation.ofName? name = some .count) (hspec : aggregatedFields spec = .ok fields) :
    aggregateOne rows name spec = Value.record <$> countFields rows fields := by
  unfold aggregateOne
  rw [hname]
  cases spec with
  | bool b => cases hspec
  | _ =>
    show (aggregatedFields _ >>= fun fields => _) = _
    rw [hspec]
    rfl

theorem aggregateOne_values {rows : List Value} {name : String} {spec : Value} {fields : List Value}
    {a : Aggregation} (hname : Aggregation.ofName? name = some a) (ha : a ≠ .count)
    (hspec : aggregatedFields spec = .ok fields) :
    aggregateOne rows name spec = (collectFields rows fields >>= fun collected =>
      Value.record <$> collected.foldlM (fun answers entry => do
        putField entry.1 (← a.apply entry.2) answers) []) := by
  unfold aggregateOne
  rw [hname]
  cases a with
  | count => exact absurd rfl ha
  | _ =>
    show (aggregatedFields spec >>= fun fields => _) = _
    rw [hspec]
    rfl

theorem aggregateOne_eq {rows : List Value} {name : String} {spec : Value} {m : Measure}
    (hwritten : m.Written name spec) (hwhole : m.WholeOn rows) (hanswered : m.AnsweredOn rows) :
    aggregateOne rows name spec = .ok (m.answer rows) := by
  cases hwritten with
  | rows hname hspec =>
    unfold aggregateOne
    rw [hname, hspec]
    rfl
  | @fields a paths hname hspec =>
    by_cases ha : a = .count
    · subst ha
      rw [aggregateOne_count hname hspec, countFields_eq hwhole]
      rfl
    · rw [aggregateOne_values hname ha hspec, collectFields_eq hwhole, Outcome.ok_bind,
        List.foldlM_map, foldlM_put fun path => (path, a.answer (integersAt path rows))]
      · rfl
      · intro path hpath entries
        rw [Aggregation.apply_answer (hanswered path hpath), Outcome.ok_bind, putField_str]

theorem aggregateOne_overflows {rows : List Value} {name : String} {spec : Value} {m : Measure}
    (hwritten : m.Written name spec) (hwhole : m.WholeOn rows) (h : ¬ m.AnsweredOn rows) :
    aggregateOne rows name spec = .error .overflow := by
  cases hwritten with
  | rows => exact absurd trivial h
  | @fields a paths hname hspec =>
    obtain ⟨bad, hbad, hunanswered⟩ := not_forall₂.mp h
    have ha : a ≠ .count := by
      rintro rfl
      exact hunanswered fun hcount => by cases hcount
    rw [aggregateOne_values hname ha hspec, collectFields_eq hwhole, Outcome.ok_bind,
      List.foldlM_map, Outcome.foldlM_fails (e := .overflow)]
    · rfl
    · intro path hpath entries
      by_cases hanswers : a.Answers (integersAt path rows)
      · left
        rw [Aggregation.apply_answer hanswers, Outcome.ok_bind, putField_str]
        exact ⟨_, rfl⟩
      · right
        rw [Aggregation.apply_unanswered hanswers]
        rfl
    · refine ⟨bad, hbad, fun entries => ?_⟩
      rw [Aggregation.apply_unanswered hunanswered]
      rfl

/-! ## several aggregations -/

structure Ask where
  name : String
  spec : Value
  measure : Measure
  written : measure.Written name spec

namespace Ask

def entries (asks : List Ask) : List (String × Value) := asks.map fun ask => (ask.name, ask.spec)

def answers (asks : List Ask) (rows : List Value) : List (String × Value) :=
  asks.map fun ask => (ask.name, ask.measure.answer rows)

theorem aggregate_eq {asks : List Ask} {rows : List Value}
    (hwhole : ∀ ask ∈ asks, ask.measure.WholeOn rows)
    (hanswered : ∀ ask ∈ asks, ask.measure.AnsweredOn rows) :
    aggregate rows ((entries asks).map fun entry => (.str entry.1, entry.2))
      = .ok (Value.overlay [] (answers asks rows)) := by
  unfold aggregate entries
  rw [List.map_map, List.foldlM_map]
  refine foldlM_put (fun ask : Ask => (ask.name, ask.measure.answer rows))
    (fun ask hask answers => ?_) []
  show (aggregateOne rows ask.name ask.spec >>= fun answer => _) = _
  rw [aggregateOne_eq ask.written (hwhole ask hask) (hanswered ask hask)]
  rfl

theorem aggregate_overflows {asks : List Ask} {rows : List Value}
    (hwhole : ∀ ask ∈ asks, ask.measure.WholeOn rows)
    (h : ∃ ask ∈ asks, ¬ ask.measure.AnsweredOn rows) :
    aggregate rows ((entries asks).map fun entry => (.str entry.1, entry.2)) = .error .overflow := by
  obtain ⟨bad, hbad, hunanswered⟩ := h
  unfold aggregate entries
  rw [List.map_map, List.foldlM_map]
  refine Outcome.foldlM_fails (fun ask hask answers => ?_) ⟨bad, hbad, fun answers => ?_⟩ []
  · show (∃ next, (aggregateOne rows ask.name ask.spec >>= fun answer => _) = .ok next)
      ∨ (aggregateOne rows ask.name ask.spec >>= fun answer => _) = _
    by_cases hanswered : ask.measure.AnsweredOn rows
    · rw [aggregateOne_eq ask.written (hwhole ask hask) hanswered]
      exact .inl ⟨_, rfl⟩
    · rw [aggregateOne_overflows ask.written (hwhole ask hask) hanswered]
      exact .inr rfl
  · show (aggregateOne rows bad.name bad.spec >>= fun answer => _) = _
    rw [aggregateOne_overflows bad.written (hwhole bad hbad) hunanswered]
    rfl

end Ask

/-! ## parts of the rows -/

/-- answers that are integers or null, and what the integers among them come to -/
def JoinedBy (combine : List Int → Option Int) (parts : List Value) (whole : Value) : Prop :=
  ∃ answers : List (Option Int), parts = answers.map .ofInt? ∧
    whole = .ofInt? (combine answers.reduceOption) ∧ (whole = .null ↔ ∀ part ∈ parts, part = .null)

/-- the answers for the parts of one field make the answer for the whole: counts and sums add up,
and of the extremes there is the extreme; of means nothing is said -/
def Aggregation.Joins (a : Aggregation) (parts : List Value) (whole : Value) : Prop :=
  match a with
  | .count => ∃ counts : List Nat, parts = counts.map (fun n => .int n) ∧ whole = .int counts.sum
  | .sum => JoinedBy (fun sums => if sums = [] then none else some sums.sum) parts whole
  | .average => True
  | .least => JoinedBy List.min? parts whole
  | .greatest => JoinedBy List.max? parts whole

theorem Value.ofInt?_eq_null {n : Option Int} : ofInt? n = .null ↔ n = none := by
  cases n with
  | none => exact ⟨fun _ => rfl, fun _ => rfl⟩
  | some n => exact ⟨fun h => (by cases h), fun h => (by cases h)⟩

theorem together?_eq_none {op : Int → Int → Int} {ns : List Int} :
    together? op ns = none ↔ ns = [] := by
  cases ns with
  | nil => exact ⟨fun _ => rfl, fun _ => rfl⟩
  | cons n ns => exact ⟨fun h => (by cases h), fun h => (by cases h)⟩

theorem joinedBy_together? {op : Int → Int → Int} [Std.Associative op] [Std.Commutative op]
    {parts : List (List Int)} {whole : List Int} (h : parts.flatten.Perm whole) :
    JoinedBy (together? op) (parts.map fun part => .ofInt? (together? op part))
      (.ofInt? (together? op whole)) := by
  have hwhole : together? op whole = together? op (parts.map (together? op)).reduceOption := by
    rw [← together?_perm h, together?_flatten, List.reduceOption, List.filterMap_map]
    rfl
  have hnone : whole = [] ↔ ∀ part ∈ parts, part = [] := by
    rw [← List.flatten_eq_nil_iff]
    exact ⟨fun hnil => (hnil ▸ h).eq_nil, fun hnil => (hnil ▸ h).nil_eq.symm⟩
  refine ⟨parts.map (together? op), by rw [List.map_map]; rfl, congrArg _ hwhole, ?_⟩
  rw [Value.ofInt?_eq_null, together?_eq_none, hnone, List.forall_mem_map]
  simp only [Value.ofInt?_eq_null, together?_eq_none]

theorem together?_sum :
    together? (· + ·) = fun sums => if sums = [] then none else some sums.sum := by
  funext ns
  cases ns with
  | nil => rfl
  | cons n ns =>
    rw [if_neg (List.cons_ne_nil n ns), List.sum_eq_foldl, List.foldl_cons, Int.zero_add]
    rfl

theorem together?_min : together? min = List.min? := by
  funext ns
  cases ns <;> rfl

theorem together?_max : together? max = List.max? := by
  funext ns
  cases ns <;> rfl

namespace Aggregation

theorem joins_answers (a : Aggregation) {parts : List (List Int)} {whole : List Int}
    (h : parts.flatten.Perm whole) : a.Joins (parts.map a.answer) (a.answer whole) := by
  have hoperation : ∀ {op}, a.operation? = some op → JoinedBy (together? op)
      (parts.map a.answer) (a.answer whole) := by
    intro op hop
    obtain ⟨hassoc, hcomm⟩ := operation?_laws hop
    have hparts : parts.map a.answer = parts.map fun part => .ofInt? (together? op part) :=
      List.map_congr_left fun part _ => answer_operation hop part
    rw [hparts, answer_operation hop]
    exact joinedBy_together? h
  cases a with
  | count =>
    refine ⟨parts.map List.length, ?_, ?_⟩
    · rw [List.map_map]
      exact List.map_congr_left fun part _ => answer_count part
    · rw [answer_count, ← h.length_eq, List.length_flatten]
  | sum =>
    rw [Joins, ← together?_sum]
    exact hoperation rfl
  | average => trivial
  | least =>
    rw [Joins, ← together?_min]
    exact hoperation rfl
  | greatest =>
    rw [Joins, ← together?_max]
    exact hoperation rfl

end Aggregation

namespace Measure

/-- the answers for the parts make the answer for the whole, field by field -/
def Folds (m : Measure) (parts : List Value) (whole : Value) : Prop :=
  match m with
  | .rows => Aggregation.count.Joins parts whole
  | .fields a paths => ∃ (answers : List (List (String × Value))) (all : List (String × Value)),
      parts = answers.map .record ∧ whole = .record all ∧
      ∀ path ∈ paths, ∃ (values : List Value) (v : Value),
        answers.map (Value.field? path) = values.map some ∧ Value.field? path all = some v ∧
        a.Joins values v

theorem folds (m : Measure) {parts : List (List Value)} {rows : List Value}
    (h : parts.flatten.Perm rows) : m.Folds (parts.map m.answer) (m.answer rows) := by
  cases m with
  | rows =>
    refine ⟨parts.map List.length, by rw [List.map_map]; rfl, ?_⟩
    rw [← List.length_flatten, h.length_eq]
    rfl
  | fields a paths =>
    refine ⟨parts.map (byPath a paths), _, by rw [List.map_map]; rfl, rfl, fun path hpath =>
      ⟨parts.map fun part => a.answer (integersAt path part), _, ?_, field?_byPath hpath rows, ?_⟩⟩
    · rw [List.map_map, List.map_map]
      exact List.map_congr_left fun part _ => field?_byPath hpath part
    · have hintegers : (parts.map (integersAt path)).flatten.Perm (integersAt path rows) := by
        rw [← integersAt_flatten]
        exact h.filterMap _
      have hjoins := a.joins_answers hintegers
      rw [List.map_map] at hjoins
      exact hjoins

/-- means of parts in range have a mean in range together -/
theorem answeredOn_flatten (m : Measure) {parts : List (List Value)} {rows : List Value}
    (h : parts.flatten.Perm rows) (hparts : ∀ part ∈ parts, m.AnsweredOn part) :
    m.AnsweredOn rows := by
  cases m with
  | rows => trivial
  | fields a paths =>
    intro path hpath haverage
    have hmeans : Aggregation.MeanInRange (parts.map (integersAt path)).flatten :=
      .flatten (List.forall_mem_map.mpr fun part hpart => hparts part hpart path hpath haverage)
    rw [← integersAt_flatten] at hmeans
    exact hmeans.perm (h.filterMap _)

end Measure

end ListQuery
