import ListQuery.Proofs.Predicate.Normal
import ListQuery.Proofs.Value.Text

/-!
# Evaluation of normal trees

The evaluation of a normal tree meets no node, operator or quantifier that it does not know.  If it
fails, then because a value is of a kind that a comparison or a quantifier is not made for, or because
an integer in a text that is searched has too many digits.

* `Outcome.FailsOnValue`           a computation that fails only on what a value is;
* `Operator.check_failsOnValue`    a comparison of two values;
* `Predicate.clean_failsOnValue`   the evaluation of a clean tree.
-/

namespace ListQuery

/-! ## faults of an evaluation -/

/-- a computation that fails only where a value is of the wrong kind or has no text -/
def Outcome.FailsOnValue {α : Type} (x : Outcome α) : Prop :=
  ∀ e, x = .error e → e = .wrongKind ∨ e = .tooManyDigits

namespace Outcome.FailsOnValue

variable {α β : Type} {test : α → Outcome Bool}

theorem ok (a : α) : FailsOnValue (.ok a) := nofun

theorem wrongKind : FailsOnValue (.error .wrongKind : Outcome α) := by
  intro e h
  cases h
  exact .inl rfl

theorem legible (h : Bool) (a : α) : FailsOnValue (Value.legible h a) := by
  intro e he
  cases h <;> cases he
  exact .inr rfl

theorem bind {x : Outcome α} {f : α → Outcome β} (hx : FailsOnValue x) (hf : ∀ a, FailsOnValue (f a)) :
    FailsOnValue (x >>= f) := by
  cases x with
  | error e =>
    intro e' h
    cases h
    exact hx e rfl
  | ok a => exact hf a

theorem ite {c : Bool} {x y : Outcome α} (hx : FailsOnValue x) (hy : FailsOnValue y) :
    FailsOnValue (if c = true then x else y) := by
  cases c with
  | false => exact hy
  | true => exact hx

theorem anyTrue {xs : List α} (h : ∀ x, FailsOnValue (test x)) : FailsOnValue (anyTrue test xs) := by
  induction xs with
  | nil => exact ok false
  | cons x rest ih => exact (h x).bind fun _ => ite (ok true) ih

theorem allTrue {xs : List α} (h : ∀ x, FailsOnValue (test x)) : FailsOnValue (allTrue test xs) := by
  induction xs with
  | nil => exact ok true
  | cons x rest ih => exact (h x).bind fun _ => ite ih (ok false)

end Outcome.FailsOnValue

open Outcome (FailsOnValue)

namespace Value

mutual

theorem compares_failsOnValue (r : Relation) : (v w : Value) → FailsOnValue (v.compares r w)
  | .list xs, w => by
    cases w with
    | list ys => exact comparesItems_failsOnValue r xs ys
    | _ => exact .wrongKind
  | .tuple xs, w => by
    cases w with
    | tuple ys => exact comparesItems_failsOnValue r xs ys
    | _ => exact .wrongKind
  | .instant t, w => by
    cases w with
    | instant u =>
      rw [compares]
      cases Instant.compare? t u with
      | none => exact .wrongKind
      | some o => exact .ok _
    | _ => exact .wrongKind
  | .null, w | .bool _, w | .int _, w | .float _, w | .str _, w | .set _, w | .record _, w
  | .date _, w | .object _, w | .pageMeta _, w | .unset, w | .condition _, w | .operation _ _, w
  | .kind _, w | .zone _, w | .duration _, w => by
    cases w <;> first | exact .wrongKind | exact .ok _

theorem comparesItems_failsOnValue (r : Relation) :
    (xs ys : List Value) → FailsOnValue (comparesItems r xs ys)
  | [], _ | _ :: _, [] => by
    rw [comparesItems]
    · exact .ok _
    · simp
  | x :: xs, y :: ys => by
    rw [comparesItems]
    exact .ite (comparesItems_failsOnValue r xs ys) (compares_failsOnValue r x y)

end

theorem isIn_failsOnValue (v w : Value) : FailsOnValue (v.isIn w) := by
  unfold isIn
  split
  · exact .ok _
  · exact .ok _
  · split
    · exact .ok _
    · exact .ite (.ok _) .wrongKind
  · exact .ite (.ok _) .wrongKind
  · split
    · exact .ok _
    · exact .wrongKind
  · exact .ok _
  · exact .wrongKind

theorem items_failsOnValue (v : Value) : FailsOnValue v.items := by
  cases v <;> first | exact .ok _ | exact .wrongKind

end Value

theorem Operator.guarded_failsOnValue {check : Value → Value → Outcome Bool}
    (h : ∀ v w, FailsOnValue (check v w)) (v w : Value) : FailsOnValue (guarded check v w) :=
  .ite (.ok false) (h v w)

theorem Operator.foldedTest_failsOnValue (test : List Char → List Char → Bool) (v w : Value) :
    FailsOnValue (foldedTest test v w) := by
  have hfolded (v : Value) : FailsOnValue (folded v) := by
    rw [folded, Value.text_eq, Value.legible_map]
    exact .legible _ _
  exact (hfolded v).bind fun _ => (hfolded w).bind fun _ => .ok _

theorem Operator.check_failsOnValue {op : Operator} {check : Value → Value → Outcome Bool}
    (h : op.check? = Option.some check) (v w : Value) : FailsOnValue (check v w) := by
  cases op <;> cases h
  case gt | lt | ge | le => exact guarded_failsOnValue (Value.compares_failsOnValue _) v w
  case isIn => exact Value.isIn_failsOnValue v w
  case equalsText | containsText | startsWithText =>
    exact guarded_failsOnValue (foldedTest_failsOnValue _) v w
  all_goals exact .ok _

namespace Predicate

theorem compareWith_failsOnValue {op : Operator} (h : op.check?.isSome = true) (wanted actual : Value) :
    FailsOnValue (compareWith op wanted actual) := by
  obtain ⟨check, hcheck⟩ := Option.isSome_iff_exists.mp h
  have htest := fun v => Operator.check_failsOnValue hcheck v wanted
  unfold compareWith
  rw [hcheck]
  cases actual with
  | list items => exact .ite (htest _) (.anyTrue htest)
  | _ => exact htest _

theorem relatedRecords_failsOnValue (v : Value) : FailsOnValue (relatedRecords v) := by
  unfold relatedRecords
  split
  · exact .ok _
  · exact .ok _
  · exact Value.items_failsOnValue v

theorem quantify_failsOnValue {quantifier : Operator} {test : Value → Outcome Bool}
    (hq : quantifier.isQuantifier = true) (h : ∀ v, FailsOnValue (test v)) (records : List Value) :
    FailsOnValue (quantify quantifier test records) := by
  cases quantifier with
  | some => exact .anyTrue h
  | none => exact (FailsOnValue.anyTrue h).bind fun _ => .ok _
  | every => exact .allTrue h
  | _ => cases hq

mutual

/-- every node, operator and quantifier of a normal tree is known to the evaluation -/
theorem evaluate_failsOnValue : (p : Predicate) → p.normal = true → (row : Value) →
    FailsOnValue (p.evaluate row)
  | .conjunction parts, h, row => by
    rw [normal, Bool.and_eq_true] at h
    rw [evaluate]
    exact evaluateAll_failsOnValue parts h.2 row
  | .disjunction parts, h, row => by
    rw [normal, Bool.and_eq_true] at h
    rw [evaluate]
    exact evaluateAny_failsOnValue parts h.2 row
  | .complement part, h, row => by
    rw [normal] at h
    rw [evaluate]
    exact (evaluate_failsOnValue part h row).bind fun _ => .ok _
  | .compare path op value, h, row => by
    rw [normal] at h
    rw [evaluate]
    exact compareWith_failsOnValue h value _
  | .related path quantifier nested, h, row => by
    rw [normal, Bool.and_eq_true, Bool.or_eq_true] at h
    have hnested : ∀ record, FailsOnValue (nested.evaluate record) := by
      intro record
      rcases h.2 with hfree | hnormal
      · cases nested with
        | unrestricted => rw [evaluate]; exact .ok _
        | _ => cases hfree
      · exact evaluate_failsOnValue nested hnormal record
    rw [evaluate]
    exact (relatedRecords_failsOnValue _).bind (quantify_failsOnValue h.1 hnested)

theorem evaluateAll_failsOnValue : (ps : List Predicate) → normalAll ps = true → (row : Value) →
    FailsOnValue (evaluateAll ps row)
  | [], _, _ => by rw [evaluateAll]; exact .ok _
  | p :: rest, h, row => by
    rw [normalAll, Bool.and_eq_true] at h
    rw [evaluateAll]
    exact (evaluate_failsOnValue p h.1 row).bind fun _ =>
      .ite (evaluateAll_failsOnValue rest h.2 row) (.ok _)

theorem evaluateAny_failsOnValue : (ps : List Predicate) → normalAll ps = true → (row : Value) →
    FailsOnValue (evaluateAny ps row)
  | [], _, _ => by rw [evaluateAny]; exact .ok _
  | p :: rest, h, row => by
    rw [normalAll, Bool.and_eq_true] at h
    rw [evaluateAny]
    exact (evaluate_failsOnValue p h.1 row).bind fun _ =>
      .ite (.ok _) (evaluateAny_failsOnValue rest h.2 row)

end

theorem clean_failsOnValue {p : Predicate} (h : p.clean = true) (row : Value) :
    FailsOnValue (p.evaluate row) := by
  by_cases hr : p.restricts = true
  · exact evaluate_failsOnValue p (normal_of_clean h hr) row
  · cases p with
    | unrestricted => rw [evaluate]; exact .ok _
    | _ => exact absurd rfl hr

end Predicate

end ListQuery
