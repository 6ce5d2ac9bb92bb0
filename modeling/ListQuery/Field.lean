import ListQuery.Fault
import ListQuery.Value.Compare
import ListQuery.Number.Numeral

/-!
# Checked fields

A structured value is made from loose ones field by field.  All fields are checked before any is
refused, so the refusal names every problem, in the order of the fields.

* `Checked`                      a checked value, or the problems found;
* `Checked.apply`                joins the problems of two checks;
* `Field.text`, `Field.integer`  the rules for single fields, and those built from them.
-/

namespace ListQuery

/-- a value that passed its check, or the reasons why it did not -/
inductive Checked (α : Type) where
  | valid (x : α)
  | rejected (problems : List Problem)

namespace Checked

variable {α β : Type}

def map (f : α → β) : Checked α → Checked β
  | .valid x => .valid (f x)
  | .rejected ps => .rejected ps

/-- the problems of both sides come together -/
def apply : Checked (α → β) → Checked α → Checked β
  | .valid f, .valid x => .valid (f x)
  | .valid _, .rejected ps => .rejected ps
  | .rejected ps, .valid _ => .rejected ps
  | .rejected ps, .rejected qs => .rejected (ps ++ qs)

instance : Functor Checked where map := map

instance : Seq Checked where seq f x := apply f (x ())

def reject (kind : ProblemKind) : Checked α := .rejected [⟨[], kind⟩]

def inside (name : String) : Checked α → Checked α
  | .valid x => .valid x
  | .rejected ps => .rejected (ps.map (·.inside name))

/-- the checked value; its problems become a fault about `subject` -/
def orFault (subject : String) : Checked α → Outcome α
  | .valid x => .ok x
  | .rejected ps => .error (.invalid subject ps)

theorem map_eq_valid {f : α → β} {c : Checked α} {y : β} :
    f <$> c = .valid y ↔ ∃ x, c = .valid x ∧ y = f x := by
  show map f c = _ ↔ _
  cases c with
  | valid x => simp [map, eq_comm]
  | rejected ps => simp [map]

theorem seq_eq_valid {f : Checked (α → β)} {c : Checked α} {y : β} :
    f <*> c = .valid y ↔ ∃ g x, f = .valid g ∧ c = .valid x ∧ y = g x := by
  show apply f c = _ ↔ _
  cases f <;> cases c <;> simp [apply, eq_comm]

theorem orFault_eq_ok {subject : String} {c : Checked α} {x : α} :
    c.orFault subject = .ok x ↔ c = .valid x := by
  cases c <;> simp [orFault]

end Checked

namespace Field

/-! ## single values -/

def text : Value → Checked String
  | .str s => .valid s
  | _ => .reject .stringType

/-- integers that a double may stand for -/
def wholeLimit : Binary64 := .exactly (Nat.pow 2 63)

def integerOfDouble (x : Binary64) : Checked Int :=
  match x.truncate? with
  | .error _ => .reject .finiteNumber
  | .ok n =>
    if !x.isIntegral then .reject .intFromFloat
    else if wholeLimit.exceeds x && x.exceeds wholeLimit.neg then .valid n
    else .reject .intParsingSize

/-- an integer written out, with at most as many characters as a number may have digits -/
def integerOfText (s : String) : Checked Int :=
  match Numeral.cleaned? s with
  | none => .reject .intParsing
  | some cs =>
    if Numeral.mostDigits < cs.length then .reject .intParsingSize
    else match Numeral.plain? cs with
      | some n => .valid n
      | none => .reject .intParsing

/-- integers, booleans, integral doubles and texts of integers -/
def integer : Value → Checked Int
  | .int n => .valid n
  | .bool b => .valid b.toNat
  | .float x => integerOfDouble x
  | .str s => integerOfText s
  | _ => .reject .intType

/-- null, or a value that passes the check -/
def optional {α : Type} (check : Value → Checked α) : Value → Checked (Option α)
  | .null => .valid none
  | v => (check v).map some

def choice {α : Type} (ofName? : String → Option α) : Value → Checked α
  | .str s => match ofName? s with
    | some x => .valid x
    | none => .reject .literal
  | _ => .reject .literal

/-! ## several values -/

def each {α : Type} (check : Value → Checked α) : Nat → List Value → Checked (List α)
  | _, [] => .valid []
  | i, v :: rest =>
    List.cons <$> (check v).inside (toString i) <*> each check (i + 1) rest

def texts : Value → Checked (List String)
  | .list items => each text 0 items
  | .tuple items => each text 0 items
  | .set items => each text 0 items
  | _ => .reject .tupleType

def list : Value → Checked (List Value)
  | .list items => .valid items
  | .tuple items => .valid items
  | .set items => .valid items
  | _ => .reject .listType

def record : Value → Checked (List (String × Value))
  | .record entries => .valid entries
  | _ => .reject .dictType

/-! ## named fields -/

def required {α : Type} (name : String) (check : Value → Checked α)
    (fields : List (String × Value)) : Checked α :=
  match Value.field? name fields with
  | some v => (check v).inside name
  | none => (Checked.reject .missing).inside name

def withDefault {α : Type} (name : String) (default : α) (check : Value → Checked α)
    (fields : List (String × Value)) : Checked α :=
  match Value.field? name fields with
  | some v => (check v).inside name
  | none => .valid default

end Field

end ListQuery
