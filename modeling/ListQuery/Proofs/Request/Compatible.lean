import ListQuery.Proofs.Request.Meaning
import ListQuery.Proofs.Value.Integers
import ListQuery.Proofs.Value.Text

/-!
# Requests that always have an answer

Of all that a request asks of a row only the bounds of a range, the records of a relation and the text
of what is searched can be a fault.  Where ranges have integers for bounds and meet integers, where
relations meet records, and where no integer of too many digits is searched, there is an answer, however
sparse the row is: a null, a name that is missing, a list with nulls in it and a related record that is
null come to no comparison.

* `Value.isIntegral`          an integer or a null;
* `Condition.fits`            the value at a condition's path is of the kind that it asks about;
* `Request.Compatible`        what the conditions of a request reach in a row fits them;
* `Request.evaluate_answers`  a request has an answer for every row that it is compatible with;
* `Request.evaluate_unanswered`  a search in an integer that has no text.
-/

namespace ListQuery

namespace Value

/-- an integer, a truth value counting as one, or a null -/
def isIntegral (v : Value) : Bool := v.isNull || v.integer?.isSome

theorem compares_integers (r : Relation) {v w : Value} (hv : v.integer?.isSome = true)
    (hw : w.integer?.isSome = true) : (v.compares r w).isOk = true := by
  obtain ⟨m, hm⟩ := Option.isSome_iff_exists.mp hv
  obtain ⟨n, hn⟩ := Option.isSome_iff_exists.mp hw
  rw [compares_integer r hm hn]
  rfl

end Value

namespace Condition

def recordOrNull (test : Value → Bool) : Value → Bool
  | .null => true
  | .record entries => test (.record entries)
  | _ => false

mutual

/-- the value at a condition's path is of the kind that the condition asks about: of integers and
nulls for a range between integers, of records and nulls for a relation, of any for the rest -/
def fits : Condition → Value → Bool
  | .range lower upper, v => lower.isIntegral && upper.isIntegral && eachItem Value.isIntegral v
  | .related _ nested, v => eachItem (recordOrNull (nestedFits nested)) v
  | _, _ => true

def nestedFits : Value → Value → Bool
  | .record entries, row => entriesFit entries row
  | _, _ => true

def entriesFit : List (String × Value) → Value → Bool
  | [], _ => true
  | (path, .condition c) :: rest, row => c.fits (row.resolve path) && entriesFit rest row
  | _ :: rest, row => entriesFit rest row

end

/-! ## values that fit -/

theorem answerable_null (c : Condition) : c.answerable .null = true := by
  cases c with
  | range lower upper =>
    rw [answerable]
    exact Bool.and_eq_true_iff.mpr ⟨Bool.or_true _, Bool.or_true _⟩
  | related q nested => rw [answerable]; rfl
  | _ => simp [answerable]

theorem entriesAnswerable_null (entries : List (String × Value)) :
    entriesAnswerable entries .null = true := by
  induction entries with
  | nil => rw [entriesAnswerable]
  | cons entry rest ih =>
    obtain ⟨path, v⟩ := entry
    cases v with
    | condition c => rw [entriesAnswerable, Value.resolve_null, answerable_null, ih]; rfl
    | _ => simpa [entriesAnswerable] using ih

theorem nestedAnswerable_null (nested : Value) : nestedAnswerable nested .null = true := by
  cases nested <;> first | exact entriesAnswerable_null _ | simp [nestedAnswerable]

theorem comparable_integral (r : Value.Relation) {bound v : Value} (hbound : bound.isIntegral = true)
    (hv : v.isIntegral = true) : (bound.isNull || comparable r bound v) = true := by
  unfold Value.isIntegral at hbound hv
  unfold comparable
  rw [Bool.or_eq_true] at hbound hv ⊢
  rw [Bool.or_eq_true]
  exact hbound.imp_right fun hbound => hv.imp_right fun hv => Value.compares_integers r hv hbound

/-- a bound that is an integer, on integers and nulls -/
theorem bound_integral (r : Value.Relation) {bound v : Value} (hbound : bound.isIntegral = true)
    (hv : eachItem Value.isIntegral v = true) :
    (bound.isNull || eachItem (comparable r bound) v) = true := by
  cases v with
  | list items =>
    cases hnull : bound.isNull with
    | true => rfl
    | false =>
      rw [Bool.false_or]
      refine List.all_eq_true.mpr fun x hx => ?_
      have hx := comparable_integral r hbound (List.all_eq_true.mp hv x hx)
      rwa [hnull, Bool.false_or] at hx
  | _ => exact comparable_integral r hbound hv

theorem records_answerable {nested v : Value}
    (hnested : ∀ row, nestedFits nested row = true → nestedAnswerable nested row = true)
    (h : eachItem (recordOrNull (nestedFits nested)) v = true) :
    ((Predicate.relatedRecords v).isOk && (recordsOf v).all (nestedAnswerable nested)) = true := by
  have hone : ∀ x, recordOrNull (nestedFits nested) x = true → nestedAnswerable nested x = true := by
    intro x hx
    cases x with
    | null => exact nestedAnswerable_null nested
    | record entries => exact hnested _ hx
    | _ => cases hx
  cases v with
  | null => rfl
  | record entries => exact List.all_eq_true.mpr (List.forall_mem_singleton.mpr (hone _ h))
  | list items => exact List.all_eq_true.mpr fun x hx => hone x (List.all_eq_true.mp h x hx)
  | _ => cases h

mutual

/-- where the value fits, no comparison of it is a fault -/
theorem answerable_of_fits : (c : Condition) → (v : Value) → c.fits v = true → c.answerable v = true
  | .range lower upper, v, h => by
    rw [fits, Bool.and_eq_true, Bool.and_eq_true] at h
    obtain ⟨⟨hlower, hupper⟩, hv⟩ := h
    rw [answerable, Bool.and_eq_true]
    exact ⟨bound_integral .atLeast hlower hv, bound_integral .atMost hupper hv⟩
  | .related _ nested, v, h => by
    rw [fits] at h
    rw [answerable]
    exact records_answerable (nestedAnswerable_of_fits nested) h
  | .exact _, _, _ | .oneOf _, _, _ | .flag _, _, _ | .differs _, _, _ => by simp [answerable]

theorem nestedAnswerable_of_fits : (nested row : Value) → nestedFits nested row = true →
    nestedAnswerable nested row = true
  | .record entries, row, h => by
    rw [nestedFits] at h
    rw [nestedAnswerable]
    exact entriesAnswerable_of_fit entries row h
  | .null, _, _ | .bool _, _, _ | .int _, _, _ | .float _, _, _ | .str _, _, _ | .list _, _, _
  | .tuple _, _, _ | .set _, _, _ | .date _, _, _ | .instant _, _, _ | .object _, _, _
  | .pageMeta _, _, _ | .unset, _, _ | .condition _, _, _ | .operation _ _, _, _ | .kind _, _, _
  | .zone _, _, _ | .duration _, _, _ => by simp [nestedAnswerable]

theorem entriesAnswerable_of_fit : (entries : List (String × Value)) → (row : Value) →
    entriesFit entries row = true → entriesAnswerable entries row = true
  | [], _, _ => by rw [entriesAnswerable]
  | (path, v) :: rest, row, h => by
    cases v with
    | condition c =>
      rw [entriesFit, Bool.and_eq_true] at h
      rw [entriesAnswerable, Bool.and_eq_true]
      exact ⟨answerable_of_fits c _ h.1, entriesAnswerable_of_fit rest row h.2⟩
    | _ =>
      rw [entriesFit] at h
      · rw [entriesAnswerable]
        · exact entriesAnswerable_of_fit rest row h
        · simp
      · simp

end

end Condition

namespace Request

variable {r : Request}

/-- what the conditions of a request reach in a row is of the kind that they ask about, and what is
searched has a text -/
structure Compatible (r : Request) (row : Value) : Prop where
  filters : ∀ e ∈ r.filters, e.2.fits (row.resolve e.1) = true
  relations : ∀ e ∈ r.relationFilters, ∀ c ∈ e.2, c.fits (row.resolve e.1) = true
  search : ∀ term, r.search = some term → term ≠ "" →
    ∀ path ∈ r.searchFields, Condition.eachItem Value.hasText (row.resolve path) = true
  groups : ∀ g ∈ r.orFilters, ∀ e ∈ g, e.2.fits (row.resolve e.1) = true
  excluded : ∀ e ∈ r.notFilters, e.2.fits (row.resolve e.1) = true

theorem Compatible.answerable {row : Value} (h : r.Compatible row) : r.Answerable row where
  filters e he := Condition.answerable_of_fits _ _ (h.filters e he)
  relations e he c hc := Condition.answerable_of_fits _ _ (h.relations e he c hc)
  search term hterm hne path hpath := by
    simp only [Value.text_isOk]
    exact h.search term hterm hne path hpath
  groups g hg e he := Condition.answerable_of_fits _ _ (h.groups g hg e he)
  excluded e he := Condition.answerable_of_fits _ _ (h.excluded e he)

/-- A request has an answer for every row that it is compatible with: where ranges are between
integers and reach integers and nulls, at any depth of related records, relations reach records and
nulls, and searches reach values with texts, no comparison is a fault, whatever else the request asks
and the row lacks. -/
theorem evaluate_answers (h : r.Resolved) {row : Value} (hrow : r.Compatible row) :
    ∃ p answer, r.predicate = .ok p ∧ p.evaluate row = .ok answer := by
  have hdecides := tree_decides h row
  rw [answerable_of hrow.answerable] at hdecides
  exact ⟨_, _, predicate_eq_tree h, hdecides.answered⟩

/-- a row with a null among its ages, a null among its posts, and a post without comments; neither
the score of the draft nor the age of the row is there -/
theorem evaluate_answers_sparse :
    let commented : Condition := .related "some"
      (.record [("score", .condition (.range (.int 1) (.int 9)))])
    let r : Request :=
      { filters := [("ages", .range (.int 18) .null), ("age", .range .null (.int 65))]
        relationFilters := [("posts", [.related "none" (.record [("comments", .condition commented),
          ("score", .condition (.range (.int 5) .null))])])]
        search := some "b", searchFields := ["town", "missing"]
        orFilters := [[("town", .differs .null)], [("ages", .range .null .null)]]
        notFilters := [("posts.score", .range (.int 7) (.int 8))] }
    let row : Value := .record [("ages", .list [.null, .int 20]), ("town", .str "B"),
      ("posts", .list [.null, .record [("score", .int 3), ("comments", .null)],
        .record [("comments", .list [.record [("score", .list [.null, .int 0])], .null])]])]
    r.Resolved ∧ r.Compatible row ∧
      ∃ p answer, r.predicate = .ok p ∧ p.evaluate row = .ok answer := by
  intro commented r row
  have hresolved : r.Resolved := by
    constructor
    · simp only [r, List.forall_mem_cons]
      exact ⟨rfl, rfl, fun _ h => absurd h List.not_mem_nil⟩
    · intro e he
      rw [List.mem_singleton.mp he]
      exact ⟨List.cons_ne_nil _ _, fun c hc => by rw [List.mem_singleton.mp hc]; exact ⟨rfl, rfl⟩⟩
    · simp only [r, List.forall_mem_cons, List.not_mem_nil, false_implies, implies_true, and_true]
      exact ⟨rfl, rfl⟩
    · exact fun e he => by rw [List.mem_singleton.mp he]; rfl
  have hcompatible : r.Compatible row := by
    constructor
    · simp only [r, List.forall_mem_cons]
      exact ⟨by decide +kernel, by decide +kernel, fun _ h => absurd h List.not_mem_nil⟩
    · intro e he c hc
      rw [List.mem_singleton.mp he] at hc ⊢
      rw [List.mem_singleton.mp hc]
      decide +kernel
    · have htexts : ∀ path ∈ r.searchFields,
          Condition.eachItem Value.hasText (row.resolve path) = true := by decide +kernel
      exact fun _ _ _ => htexts
    · simp only [r, List.forall_mem_cons, List.not_mem_nil, false_implies, implies_true, and_true]
      exact ⟨by decide +kernel, by decide +kernel⟩
    · exact fun e he => by rw [List.mem_singleton.mp he]; decide +kernel
  exact ⟨hresolved, hcompatible, evaluate_answers hresolved hcompatible⟩

/-- nothing but a search, in a row with an integer of one digit too many -/
theorem evaluate_unanswered :
    let r : Request := { search := some "1", searchFields := ["n"] }
    let row : Value := .record [("n", .int (Int.ofNat (Nat.pow 10 Numeral.mostDigits)))]
    r.Resolved ∧ ∃ p, r.predicate = .ok p ∧ p.evaluate row = .error .tooManyDigits := by
  intro r row
  have hevaluate (n : Int) (hn : Value.isShort n = false) :
      (Predicate.compare "n" .containsText (.str "1")).evaluate (.record [("n", .int n)])
        = .error .tooManyDigits := by
    show (Operator.folded (.int n) >>= _) = _
    rw [Operator.folded, Value.text_eq, Value.hasText, hn]
    rfl
  exact ⟨⟨nofun, nofun, nofun, nofun⟩, _, rfl, hevaluate _ Value.isShort_power⟩

end Request

end ListQuery
