import ListQuery.Proofs.Collection.Grouped
import ListQuery.Proofs.Predicate.Path
import ListQuery.Proofs.Scope
import ListQuery.Proofs.Value.Substitution

/-!
# Conditions on the keys of groups

What is asked of a group's row, if it is asked of the key alone, may as well be asked of the rows
before they are grouped.  Rows of one group have equal keys, which no comparison tells apart but those
of texts; so all of them meet the condition or none, the groups of the rows that meet it are the
groups that meet it, and these keep their order, their rows and their aggregates.

* `Predicate.keyedBy`         trees of comparisons at the names of a key;
* `Predicate.evaluate_keyed`  such a tree asks the same of rows with equal keys;
* `Store.opened_filter`       the groups that the rows with some keys open;
* `Store.resolve_groupRow`    the key in the row of a group;
* `Store.groupBy_having`      a condition on the key, asked of the groups or of the rows.
-/

namespace ListQuery

/-! ## trees on keys -/

namespace Predicate

mutual

/-- comparisons at some names that tell no equal values apart, joined by connectives -/
def keyedBy (names : List String) : Predicate → Bool
  | .conjunction parts => keyedAllBy names parts
  | .disjunction parts => keyedAllBy names parts
  | .complement part => keyedBy names part
  | .compare path op _ => decide (path ∈ names) && op.extensional
  | _ => false

def keyedAllBy (names : List String) : List Predicate → Bool
  | [] => true
  | p :: rest => keyedBy names p && keyedAllBy names rest

end

/-- at each of the names, the rows hold what no comparison tells apart -/
def Alike (names : List String) (a b : Value) : Prop :=
  ∀ name ∈ names, ∀ op : Operator, op.extensional = true → ∀ wanted,
    compareWith op wanted (a.resolve name) = compareWith op wanted (b.resolve name)

theorem alike_of_equalItems {names : List String} {a b : Value}
    (ha : Value.hashableAll (Store.keyOf names a) = true)
    (hb : Value.hashableAll (Store.keyOf names b) = true)
    (h : Value.equalItems (Store.keyOf names a) (Store.keyOf names b) = true) : Alike names a b := by
  induction names with
  | nil => exact fun _ hname => absurd hname List.not_mem_nil
  | cons name rest ih =>
    obtain ⟨ha, harest⟩ := Bool.and_eq_true_iff.mp ha
    obtain ⟨hb, hbrest⟩ := Bool.and_eq_true_iff.mp hb
    obtain ⟨hhead, htail⟩ := Bool.and_eq_true_iff.mp h
    refine List.forall_mem_cons.mpr ⟨fun op hop wanted => ?_, ih harest hbrest htail⟩
    exact compareWith_left hop ha hb hhead wanted

section
variable {names : List String} {a b : Value}

mutual

theorem evaluate_keyed (h : Alike names a b) : (p : Predicate) → p.keyedBy names = true →
    p.evaluate a = p.evaluate b
  | .conjunction parts, hp => by
    rw [evaluate, evaluate]
    exact evaluateAll_keyed h parts hp
  | .disjunction parts, hp => by
    rw [evaluate, evaluate]
    exact evaluateAny_keyed h parts hp
  | .complement part, hp => by rw [evaluate, evaluate, evaluate_keyed h part hp]
  | .compare path op wanted, hp => by
    obtain ⟨hpath, hop⟩ := Bool.and_eq_true_iff.mp hp
    rw [evaluate, evaluate]
    exact h path (of_decide_eq_true hpath) op hop wanted
  | .unrestricted, hp | .related _ _ _, hp | .blank, hp => by cases hp

theorem evaluateAll_keyed (h : Alike names a b) : (ps : List Predicate) →
    keyedAllBy names ps = true → evaluateAll ps a = evaluateAll ps b
  | [], _ => by rw [evaluateAll, evaluateAll]
  | p :: rest, hps => by
    obtain ⟨hp, hrest⟩ := Bool.and_eq_true_iff.mp hps
    rw [evaluateAll, evaluateAll, evaluate_keyed h p hp, evaluateAll_keyed h rest hrest]

theorem evaluateAny_keyed (h : Alike names a b) : (ps : List Predicate) →
    keyedAllBy names ps = true → evaluateAny ps a = evaluateAny ps b
  | [], _ => by rw [evaluateAny, evaluateAny]
  | p :: rest, hps => by
    obtain ⟨hp, hrest⟩ := Bool.and_eq_true_iff.mp hps
    rw [evaluateAny, evaluateAny, evaluate_keyed h p hp, evaluateAny_keyed h rest hrest]

end

end

end Predicate

/-! ## groups of some rows -/

namespace Outcome

variable {α β : Type} {find : α → Outcome β} {test : β → Bool} {xs : List α} {ys : List β}

theorem mapM_sifted {f : α → Outcome (Option β)}
    (h : ∀ x ∈ xs, ∀ y, find x = .ok y → f x = .ok (if test y then some y else none))
    (hfind : xs.mapM find = .ok ys) :
    (xs.mapM f >>= fun found => .ok (found.filterMap id)) = .ok (ys.filter test) := by
  induction xs generalizing ys with
  | nil => cases hfind; rfl
  | cons x xs ih =>
    obtain ⟨hx, hrest⟩ := List.forall_mem_cons.mp h
    rw [List.mapM_cons] at hfind
    obtain ⟨y, hy, hfind⟩ := Outcome.bind_eq_ok.mp hfind
    obtain ⟨zs, hzs, hfind⟩ := Outcome.bind_eq_ok.mp hfind
    cases hfind
    obtain ⟨found, hfound, hsifted⟩ := Outcome.bind_eq_ok.mp (ih hrest hzs)
    rw [List.mapM_cons, hx y hy, hfound, List.filter_cons, ← Except.ok.inj hsifted]
    cases test y <;> rfl

theorem mapM_filter {keep : α → Bool} (h : ∀ x ∈ xs, ∀ y, find x = .ok y → test y = keep x)
    (hfind : xs.mapM find = .ok ys) : (xs.filter keep).mapM find = .ok (ys.filter test) := by
  induction xs generalizing ys with
  | nil => cases hfind; rfl
  | cons x xs ih =>
    obtain ⟨hx, hrest⟩ := List.forall_mem_cons.mp h
    rw [List.mapM_cons] at hfind
    obtain ⟨y, hy, hfind⟩ := Outcome.bind_eq_ok.mp hfind
    obtain ⟨zs, hzs, hfind⟩ := Outcome.bind_eq_ok.mp hfind
    cases hfind
    rw [List.filter_cons, List.filter_cons, hx y hy]
    cases keep x with
    | false => exact ih hrest hzs
    | true =>
      rw [if_pos rfl, if_pos rfl, List.mapM_cons, hy, ih hrest hzs]
      rfl

end Outcome

namespace Store

variable {names : List String}

/-- the rows that are kept open the groups whose first row is kept, if rows with equal keys are kept
together -/
theorem opened_filter {keep : Value → Bool} (seen : List Value) {rows : List Value}
    (h : ∀ a ∈ seen ++ rows, ∀ b ∈ seen ++ rows,
      Value.equalItems (keyOf names a) (keyOf names b) = true → keep a = keep b) :
    opened names ((seen.filter keep).map (keyOf names)) (rows.filter keep)
      = (opened names (seen.map (keyOf names)) rows).filter fun g => g.2.head?.any keep := by
  induction rows generalizing seen with
  | nil => rfl
  | cons row rows ih =>
    have hseen : ∀ a ∈ (row :: seen) ++ rows, a ∈ seen ++ row :: rows := by
      intro a ha
      simp only [List.cons_append, List.mem_cons, List.mem_append] at ha ⊢
      tauto
    have hrest := ih (row :: seen) fun a ha b hb => h a (hseen a ha) b (hseen b hb)
    have hrow : row ∈ seen ++ row :: rows := hseen row List.mem_cons_self
    have hlater {next : Value} (hnext : next ∈ rows) : next ∈ seen ++ row :: rows :=
      hseen next (List.mem_append_right _ hnext)
    rw [opened, ← List.map_cons]
    cases hkeep : keep row with
    | false =>
      rw [List.filter_cons_of_neg (by simp [hkeep])] at hrest ⊢
      rw [hrest]
      split
      · rfl
      · rw [List.filter_cons_of_neg (by simp [hkeep])]
    | true =>
      rw [List.filter_cons_of_pos hkeep] at hrest ⊢
      rw [opened, ← List.map_cons, hrest]
      -- an equal key that came up before was that of a row that is kept
      have hknown : (((seen.filter keep).map (keyOf names)).any fun other =>
            Value.equalItems other (keyOf names row))
          = (seen.map (keyOf names)).any fun other => Value.equalItems other (keyOf names row) := by
        rw [List.any_map, List.any_map, List.any_filter, Bool.eq_iff_iff, List.any_eq_true,
          List.any_eq_true]
        refine exists_congr fun a => and_congr_right fun ha => ?_
        rw [Bool.and_eq_true, and_iff_right_iff_imp]
        intro hequal
        rw [h a (List.mem_append_left _ ha) row hrow hequal, hkeep]
      -- and the later rows with its key are all kept
      have hgroup : ((rows.filter keep).filter fun next =>
            Value.equalItems (keyOf names row) (keyOf names next))
          = rows.filter fun next => Value.equalItems (keyOf names row) (keyOf names next) := by
        rw [List.filter_filter]
        refine List.filter_congr fun next hnext => ?_
        cases hequal : Value.equalItems (keyOf names row) (keyOf names next) with
        | false => rfl
        | true => rw [← h row hrow next (hlater hnext) hequal, hkeep]; rfl
      rw [hknown, hgroup]
      split
      · rfl
      · rw [List.filter_cons_of_pos (by simp [hkeep])]

theorem hashable_of_groups {rows : List Value} {found : List (List Value × List Value)}
    (h : groups (names.map .str) rows = .ok found) :
    ∀ row ∈ rows, Value.hashableAll (keyOf names row) = true := by
  suffices hfold : ∀ known, rows.foldlM (fun groups row => do
      return joinGroup (← groupKey (names.map .str) row) row groups) known = .ok found →
        ∀ row ∈ rows, Value.hashableAll (keyOf names row) = true from hfold [] h
  clear h
  induction rows with
  | nil => exact fun _ _ _ hrow => absurd hrow List.not_mem_nil
  | cons row rows ih =>
    intro known h
    rw [List.foldlM_cons, Outcome.bind_eq_ok] at h
    obtain ⟨next, hnext, h⟩ := h
    obtain ⟨key, hkey, _⟩ := Outcome.bind_eq_ok.mp hnext
    have hrow : Value.hashableAll (keyOf names row) = true := by
      by_contra hnone
      rw [groupKey_ite, if_neg hnone] at hkey
      cases hkey
    exact List.forall_mem_cons.mpr ⟨hrow, ih next h⟩

/-! ## rows of groups -/

theorem aggregate_names {rows : List Value} {aggregations : List (Value × Value)}
    {own : List (String × Value)} (h : ListQuery.aggregate rows aggregations = .ok own) :
    ∀ name ∈ own.map Prod.fst, .str name ∈ aggregations.map Prod.fst := by
  suffices hfold : ∀ answers, aggregations.foldlM (fun answers entry => do
      let name ← entry.1.path
      return Value.put name (← aggregateOne rows name entry.2) answers) answers = .ok own →
        ∀ name ∈ own.map Prod.fst,
          name ∈ answers.map Prod.fst ∨ .str name ∈ aggregations.map Prod.fst by
    intro name hname
    exact (hfold [] h name hname).resolve_left List.not_mem_nil
  clear h
  induction aggregations with
  | nil => exact fun answers h name hname => .inl (Except.ok.inj h ▸ hname)
  | cons entry rest ih =>
    intro answers h name hname
    rw [List.foldlM_cons, Outcome.bind_eq_ok] at h
    obtain ⟨next, hnext, h⟩ := h
    obtain ⟨path, hpath, hnext⟩ := Outcome.bind_eq_ok.mp hnext
    obtain ⟨answer, _, hnext⟩ := Outcome.bind_eq_ok.mp hnext
    cases hnext
    rcases ih _ h name hname with hput | hrest
    · obtain ⟨e, he, rfl⟩ := List.mem_map.mp hput
      rcases Value.mem_put he with rfl | he
      · have hkey : entry.1 = .str path := by
          cases hentry : entry.1 <;> rw [hentry] at hpath <;> cases hpath
          rfl
        exact .inr (hkey ▸ List.mem_cons_self)
      · exact .inl (List.mem_map_of_mem he)
    · exact .inr (List.mem_cons_of_mem _ hrest)

/-- the row of a group holds its key, where this is not overwritten by an aggregate -/
theorem resolve_groupRow {g : Grouping} (hkeys : g.keys = names.map .str) {first row : Value}
    {rows : List Value} (hrow : groupRow g (keyOf names first) rows = .ok row) {name : String}
    (hname : name ∈ names) (hdot : '.' ∉ name.toList)
    (hapart : .str name ∉ g.aggregations.map Prod.fst) : row.resolve name = first.resolve name := by
  have haggregate := groupRow_aggregate hkeys (keyOf names first, rows)
  rw [hrow, eq_comm] at haggregate
  obtain ⟨own, hown, hnamed⟩ := Outcome.bind_eq_ok.mp haggregate
  cases hnamed
  have hother : name ∉ own.map Prod.fst := fun h => hapart (aggregate_names hown name h)
  rw [Value.Keyed.resolve_eq ⟨_, .inl rfl⟩ hdot, Value.member, Value.field?_overlay_other hother,
    zip_keyOf, Value.field?_overlay_named (fun name => first.resolve name) (.inl hname)]
  rfl

/-! ## groups that meet a condition -/

section
variable {s : Store} {g : Grouping} {matched rows : List Value} {H : Predicate}
  (hkeys : g.keys = names.map .str)
  (hnames : ∀ name ∈ names, '.' ∉ name.toList ∧ .str name ∉ g.aggregations.map Prod.fst)
  (hH : H.keyedBy names = true) (hfine : ∀ row ∈ matched, ∃ b, H.evaluate row = .ok b)
include hkeys hnames hH hfine

/-- the row of a group meets the condition exactly if the row that opens the group does -/
theorem evaluate_groupRow : ∀ part ∈ opened names [] matched, ∀ row,
    groupRow g part.1 part.2 = .ok row → H.evaluate row = .ok (part.2.head?.any H.holds) := by
  intro part hpart row hrow
  obtain ⟨first, hfirst, hkey, later, hlater, _⟩ := mem_opened hpart
  rw [hkey] at hrow
  have halike : Predicate.Alike names row first := fun name hname op _ wanted => by
    rw [resolve_groupRow hkeys hrow hname (hnames name hname).1 (hnames name hname).2]
  obtain ⟨b, hb⟩ := hfine first hfirst
  rw [Predicate.evaluate_keyed halike H hH, hb, hlater, List.head?_cons, Option.any_some,
    Predicate.holds, hb]

variable (hhashable : ∀ row ∈ matched, Value.hashableAll (keyOf names row) = true)
  (hfind : ((opened names [] matched).mapM fun part => groupRow g part.1 part.2) = .ok rows)
include hhashable hfind

theorem groupBy_predicate (hmatched : s.matching g.model g.predicate = .ok matched) :
    s.groupBy { g with having := .predicate H } = .ok (rows.filter H.holds) := by
  have hgroups : groups g.keys matched = .ok (opened names [] matched) := hkeys ▸ groups_eq hhashable
  unfold groupBy
  dsimp only
  rw [hmatched, Outcome.ok_bind, hgroups, Outcome.ok_bind]
  refine Outcome.mapM_sifted (fun part hpart row hrow => ?_) hfind
  have hmeets := evaluate_groupRow hkeys hnames hH hfine part hpart row hrow
  show (groupRow g part.1 part.2 >>= fun row => H.evaluate row >>= _) = _
  rw [hrow, Outcome.ok_bind, hmeets, Outcome.ok_bind, Predicate.holds, hmeets]
  rfl

theorem groupBy_matching (hhaving : ∃ v, g.having = .other v) {q : Predicate}
    (hq : s.matching g.model q = .ok (matched.filter H.holds)) :
    s.groupBy { g with predicate := q } = .ok (rows.filter H.holds) := by
  have hkept : opened names [] (matched.filter H.holds)
      = (opened names [] matched).filter fun part => part.2.head?.any H.holds := by
    refine opened_filter [] fun a ha b hb hequal => ?_
    rw [Predicate.holds, Predicate.holds, Predicate.evaluate_keyed
      (Predicate.alike_of_equalItems (hhashable a ha) (hhashable b hb) hequal) H hH]
  rw [groupBy_rows (g := { g with predicate := q }) hkeys hhaving hq
    fun row hrow => hhashable row (List.mem_of_mem_filter hrow), hkept]
  refine Outcome.mapM_filter (fun part hpart row hrow => ?_) hfind
  rw [Predicate.holds, evaluate_groupRow hkeys hnames hH hfine part hpart row hrow]

end

/-- rows that are put to a further tree, which has an answer for those that meet the first -/
theorem matching_both {s : Store} {model : Value} {p H q : Predicate} {matched : List Value}
    (hmatched : s.matching model p = .ok matched)
    (hfine : ∀ row ∈ matched, ∃ b, H.evaluate row = .ok b)
    (hq : ∀ row, q.evaluate row = Predicate.evaluateAll [p, H] row) :
    s.matching model q = .ok (matched.filter H.holds) := by
  obtain ⟨stored, hstored, hselected⟩ := Outcome.bind_eq_ok.mp hmatched
  unfold matching
  rw [hstored, Outcome.ok_bind]
  refine Predicate.select_tested (fun row hrow b hb => ?_) hselected
  rw [hq, Predicate.evaluateAll, hb]
  cases b with
  | false => rfl
  | true =>
    have hmeets : row ∈ matched := by
      rw [Predicate.holds_of_select hselected, List.mem_filter, Predicate.holds, hb]
      exact ⟨hrow, rfl⟩
    obtain ⟨answer, hanswer⟩ := hfine row hmeets
    rw [Outcome.ok_bind, if_pos rfl, Predicate.evaluateAll, hanswer, Predicate.holds, hanswer]
    cases answer <;> rfl

end Store

theorem Grouping.of_having {model keys aggregations filters : Value} {having : Having} {g : Grouping}
    (h : Grouping.of model keys aggregations filters having = .ok g) (other : Having) :
    Grouping.of model keys aggregations filters other = .ok { g with having := other } ∧
      g.model = model ∧ keys.items = .ok g.keys ∧ g.having = having := by
  have hof (having : Having) : Grouping.of model keys aggregations filters having = (do
      let names ← keys.items
      let asks ← (if aggregations.truthy then aggregations.namedPairs else pure [])
      let predicate ← Predicate.ofFilters filters
      return ⟨model, names, asks, predicate, having⟩) := by
    unfold Grouping.of
    cases aggregations.truthy <;> rfl
  rw [hof] at h ⊢
  obtain ⟨names, hnames, h⟩ := Outcome.bind_eq_ok.mp h
  obtain ⟨asks, hasks, h⟩ := Outcome.bind_eq_ok.mp h
  obtain ⟨predicate, hpredicate, h⟩ := Outcome.bind_eq_ok.mp h
  cases h
  refine ⟨?_, rfl, hnames, rfl⟩
  rw [hnames, Outcome.ok_bind, hasks, Outcome.ok_bind, hpredicate]
  rfl

/-- Where a grouping has an answer, a condition on its key may be asked of the groups or of the rows:
the answer is the same, namely the groups of the grouping that meet the condition. -/
theorem Store.groupBy_having {s : Store} {model keys aggregations filters v : Value}
    {names : List String} {g : Grouping} {H : Predicate} {rows : List Value}
    (hg : Grouping.of model keys aggregations filters (.other v) = .ok g)
    (hkeys : keys.items = .ok (names.map .str))
    (hnames : ∀ name ∈ names, '.' ∉ name.toList ∧ .str name ∉ g.aggregations.map Prod.fst)
    (hH : H.keyedBy names = true) (hrows : s.groupBy g = .ok rows)
    (hfine : ∀ matched, s.matching model g.predicate = .ok matched →
      ∀ row ∈ matched, ∃ b, H.evaluate row = .ok b) :
    ∃ asked kept, Grouping.of model keys aggregations filters (.predicate H) = .ok asked ∧
      s.groupBy asked = .ok kept ∧
      s.groupBy { g with predicate := .all [g.predicate, H] } = .ok kept ∧
      (∀ both, g.predicate.and H = .ok both →
        s.groupBy { g with predicate := both } = .ok kept) ∧
      kept = rows.filter H.holds := by
  obtain ⟨hasked, rfl, hnamed, hhaving⟩ := Grouping.of_having hg (.predicate H)
  rw [hkeys] at hnamed
  have hkeyed := (Except.ok.inj hnamed).symm
  obtain ⟨matched, hmatched, hgroups⟩ := Outcome.bind_eq_ok.mp hrows
  rw [hkeyed] at hgroups
  obtain ⟨found, hfound, _⟩ := Outcome.bind_eq_ok.mp hgroups
  have hhashable := hashable_of_groups hfound
  have hfind := (groupBy_rows hkeyed ⟨v, hhaving⟩ hmatched hhashable).symm.trans hrows
  have hdecided := hfine matched hmatched
  have hpushed {q : Predicate} (hq : ∀ row, q.evaluate row
      = Predicate.evaluateAll [g.predicate, H] row) :=
    groupBy_matching hkeyed hnames hH hdecided hhashable hfind ⟨v, hhaving⟩
      (matching_both hmatched hdecided hq)
  refine ⟨_, _, hasked, groupBy_predicate hkeyed hnames hH hdecided hhashable hfind hmatched,
    hpushed fun row => Predicate.evaluate_all _ row, fun both hboth => hpushed fun row => ?_, rfl⟩
  unfold Predicate.and at hboth
  split at hboth
  · cases hboth
    rw [Predicate.evaluate]
  · cases hboth

/-- the number one, the double one and the truth value true are asked for by one of them -/
theorem Store.groupBy_having_mixed :
    let one : Value := .float (.finite false 4503599627370496 (-52))
    let stored : List Value := [.record [("k", .int 1), ("x", .int 5)], .record [("k", .null)],
      .record [("k", .bool true), ("x", .int (-2))], .record [("k", one)], .record [("k", .int 3)]]
    let s : Store := ⟨[(.str "m", stored)]⟩
    let g : Grouping :=
      { model := .str "m", keys := [.str "k"], aggregations := [(.str "_count", .bool true)],
        predicate := .unrestricted, having := .other .null }
    let H : Predicate := .disjunction [.compare "k" .isIn (.tuple [one]),
      .complement (.disjunction [.compare "k" .isNull .null, .compare "k" .gt (.int 2)])]
    let rows : List Value := [.record [("k", .int 1), ("_count", .int 3)],
      .record [("k", .null), ("_count", .int 1)], .record [("k", .int 3), ("_count", .int 1)]]
    Grouping.of (.str "m") (.list [.str "k"]) (.record [("_count", .bool true)]) .null (.other .null)
        = .ok g ∧ s.groupBy g = .ok rows ∧
      s.groupBy { g with having := .predicate H } = .ok [.record [("k", .int 1), ("_count", .int 3)]] ∧
      s.groupBy { g with predicate := .all [g.predicate, H] }
        = .ok [.record [("k", .int 1), ("_count", .int 3)]] := by
  intro one stored s g H rows
  have hg : Grouping.of (.str "m") (.list [.str "k"]) (.record [("_count", .bool true)]) .null
      (.other .null) = .ok g := rfl
  have hrows : s.groupBy g = .ok rows := by rfl
  have hnames : ∀ name ∈ ["k"], '.' ∉ name.toList ∧ .str name ∉ g.aggregations.map Prod.fst := by
    rw [List.forall_mem_singleton]
    exact ⟨by decide, by simp [g]⟩
  have hfine : ∀ matched, s.matching (.str "m") g.predicate = .ok matched →
      ∀ row ∈ matched, ∃ b, H.evaluate row = .ok b := by
    intro matched h
    obtain rfl : stored = matched := Except.ok.inj h
    simp only [stored, List.forall_mem_cons]
    exact ⟨⟨_, rfl⟩, ⟨_, rfl⟩, ⟨_, rfl⟩, ⟨_, rfl⟩, ⟨_, rfl⟩, List.forall_mem_nil _⟩
  have hkeys : (Value.list [.str "k"]).items = .ok (["k"].map .str) := rfl
  obtain ⟨asked, kept, hasked, hkept, hpushed, _, rfl⟩ :=
    Store.groupBy_having hg hkeys hnames (by decide) hrows hfine
  cases hasked
  exact ⟨hg, hrows, hkept, hpushed⟩

end ListQuery
