import ListQuery.Value.Basic
import ListQuery.Predicate.Operator

/-!
# What can go wrong

* `Fault`      the reason why a call has no answer;
* `Problem`    one rejected field of a request or response, with the place it stands at;
* `Refusal`    the errors this library raises about named things: arguments, presets, deliveries.
-/

namespace ListQuery

/-! ## rejected fields -/

inductive ProblemKind where
  | missing
  | stringType
  | intType | intParsing | intFromFloat | intParsingSize
  | floatType | floatParsing
  | finiteNumber
  | tupleType | listType | dictType | modelType
  | literal
  | datetimeType | datetimeParsing | datetimeOutOfRange
  | notJson
  deriving DecidableEq

def ProblemKind.code : ProblemKind → String
  | .missing => "missing"
  | .stringType => "string_type"
  | .intType => "int_type"
  | .intParsing => "int_parsing"
  | .intFromFloat => "int_from_float"
  | .intParsingSize => "int_parsing_size"
  | .floatType => "float_type"
  | .floatParsing => "float_parsing"
  | .finiteNumber => "finite_number"
  | .tupleType => "tuple_type"
  | .listType => "list_type"
  | .dictType => "dict_type"
  | .modelType => "model_type"
  | .literal => "literal_error"
  | .datetimeType => "datetime_type"
  | .datetimeParsing => "datetime_from_date_parsing"
  | .datetimeOutOfRange => "datetime_parsing"
  | .notJson => "json_invalid"

structure Problem where
  place : List String
  kind : ProblemKind
  deriving DecidableEq

def Problem.inside (name : String) (p : Problem) : Problem := { p with place := name :: p.place }

/-! ## refusals -/

inductive Refusal where
  | general (details : List Value)
  | notFound (details : List Value)
  | invalidArgument (argument message : Value)
  | presetNotFound (name : Value)
  | deliveryFailed (url reason : Value)

/-! ## faults -/

inductive Fault where
  /-- an operation met a value of a kind it is not made for -/
  | wrongKind
  /-- a value has no such part -/
  | noMember
  | noEntry
  | noItem
  | badValue
  /-- an integer has more digits than a text takes -/
  | tooManyDigits
  | divisionByZero
  | overflow
  /-- a full store had no entry to give up -/
  | nothingToEvict
  | notImplemented
  | unknownCollection (model : Value)
  | unsupportedNode (name : String)
  | unsupportedOperator (op : Operator)
  | unsupportedQuantifier (op : Operator)
  | unsupportedAggregation (key : String)
  /-- the fields of `subject` were rejected -/
  | invalid (subject : String) (problems : List Problem)
  | refused (reason : Refusal)
  /-- a peer did not answer -/
  | connection (text : String)
  /-- a value of this kind has no stored form -/
  | unserializable (k : Kind)
  /-- a value has too many parts inside one another to be stored -/
  | nestedTooDeep
  /-- a stored text is no JSON -/
  | unreadable (text : String)

instance : Inhabited Fault := ⟨.wrongKind⟩

/-- a computation that may have no answer -/
abbrev Outcome := Except Fault

/-! ## steps in turn -/

namespace Outcome
variable {α β : Type}

theorem ok_bind (x : α) (f : α → Outcome β) : ((.ok x : Outcome α) >>= f) = f x := rfl

theorem bind_eq_ok {x : Outcome α} {f : α → Outcome β} {b : β} :
    (x >>= f) = .ok b ↔ ∃ a, x = .ok a ∧ f a = .ok b := by
  cases x with
  | error e =>
    constructor
    · intro h; cases h
    · rintro ⟨_, h, _⟩; cases h
  | ok a =>
    constructor
    · intro h; exact ⟨a, rfl, h⟩
    · rintro ⟨_, h, hf⟩; cases h; exact hf

theorem isOk_map (x : Outcome α) (f : α → β) :
    (x >>= fun a => (pure (f a) : Outcome β)).isOk = x.isOk := by
  cases x <;> rfl

theorem isOk_pair {γ : Type} (x : Outcome α) (y : Outcome β) (f : α → β → γ) :
    (x >>= fun a => y >>= fun b => (pure (f a b) : Outcome γ)).isOk = (x.isOk && y.isOk) := by
  cases x <;> cases y <;> rfl

theorem mapM_cons_eq_ok {f : α → Outcome β} {x : α} {xs : List α} {ys : List β} :
    (x :: xs).mapM f = .ok ys ↔
      ∃ y rest, f x = .ok y ∧ xs.mapM f = .ok rest ∧ ys = y :: rest := by
  rw [List.mapM_cons, bind_eq_ok]
  constructor
  · rintro ⟨y, hy, h⟩
    obtain ⟨rest, hrest, h⟩ := bind_eq_ok.mp h
    exact ⟨y, rest, hy, hrest, by cases h; rfl⟩
  · rintro ⟨y, rest, hy, hrest, rfl⟩
    exact ⟨y, hy, bind_eq_ok.mpr ⟨rest, hrest, rfl⟩⟩

theorem mapM_of_forall {f : α → Outcome β} {g : α → β} {xs : List α}
    (h : ∀ x ∈ xs, f x = .ok (g x)) : xs.mapM f = .ok (xs.map g) := by
  induction xs with
  | nil => rfl
  | cons x xs ih =>
    have hrest := ih fun y hy => h y (List.mem_cons_of_mem _ hy)
    exact mapM_cons_eq_ok.mpr ⟨g x, xs.map g, h x List.mem_cons_self, hrest, rfl⟩

end Outcome

end ListQuery
