import ListQuery.Value.Display

/-!
# Values that have a text

An integer has a text as long as its digits are no more than a text takes.  A value has one exactly
if each integer that is written in it has; the text is then the one in which the integers are
written at any length, and there is no other fault.

* `Value.isShort`      an integer of so many digits;
* `Value.hasText`      every integer that the text of a value shows is one;
* `Value.legible`      what there is under a condition, and else the fault of an integer too long;
* `Value.text_eq`      the text of a value.
-/

namespace ListQuery

namespace Value

/-! ## integers -/

def isShort (n : Int) : Bool := n.natAbs < Nat.pow 10 Numeral.mostDigits

theorem isShort_iff (n : Int) :
    isShort n = true ↔ (Nat.toDigits 10 n.natAbs).length ≤ Numeral.mostDigits := by
  rw [Nat.length_toDigits_le_iff (by decide) (by decide), isShort, decide_eq_true_iff, Nat.pow_eq]

/-- the least integer without a text -/
theorem isShort_power : isShort (Int.ofNat (Nat.pow 10 Numeral.mostDigits)) = false := by
  have hpart (n : Nat) : isShort (Int.ofNat n) = decide (n < Nat.pow 10 Numeral.mostDigits) := rfl
  rw [hpart]
  generalize Nat.pow 10 Numeral.mostDigits = n
  exact decide_eq_false (Nat.lt_irrefl n)

/-! ## values -/

mutual

/-- no integer of too many digits is shown in the text of a value -/
def hasText : Value → Bool
  | .int n => isShort n
  | .list items => allHaveText items
  | .tuple items => allHaveText items
  | .set items => allHaveText items
  | .record entries => entriesHaveText entries
  | .object attributes => entriesHaveText attributes
  | .pageMeta counts => [counts.total, counts.page, counts.limit, counts.totalPages].all isShort
  | .condition c => conditionHasText c
  | .operation owner _ => !showsOwner owner.kind? || hasText owner
  | _ => true

def allHaveText : List Value → Bool
  | [] => true
  | v :: rest => hasText v && allHaveText rest

def entriesHaveText : List (String × Value) → Bool
  | [] => true
  | (_, v) :: rest => hasText v && entriesHaveText rest

def conditionHasText : Condition → Bool
  | .exact v => hasText v
  | .oneOf vs => allHaveText vs
  | .range lower upper => hasText lower && hasText upper
  | .flag v => hasText v
  | .differs v => hasText v
  | .related _ nested => hasText nested

end

theorem entriesHaveText_eq (entries : List (String × Value)) :
    entriesHaveText entries = entries.all (·.2.hasText) := by
  induction entries with
  | nil => rfl
  | cons e rest ih => rw [entriesHaveText, ih, List.all_cons]

/-! ## texts -/

/-- what there is under a condition; otherwise an integer has too many digits -/
def legible {α : Type} (h : Bool) (a : α) : Outcome α := if h then .ok a else .error .tooManyDigits

section
variable {α β : Type} {a b : Bool}

theorem legible_bind (x : α) (f : α → β) :
    (legible a x >>= fun x => legible b (f x)) = legible (a && b) (f x) := by
  cases a <;> rfl

theorem legible_map (x : α) (f : α → β) :
    (legible a x >>= fun x => (pure (f x) : Outcome β)) = legible a (f x) := by
  cases a <;> rfl

theorem legible_pair {γ : Type} (x : α) (y : β) (f : α → β → γ) :
    (legible a x >>= fun x => legible b y >>= fun y => (pure (f x y) : Outcome γ))
      = legible (a && b) (f x y) := by
  cases a <;> cases b <;> rfl

theorem legible_isOk (h : Bool) (x : α) : (legible h x).isOk = h := by
  cases h <;> rfl

end

theorem integerText_eq (n : Int) : integerText n = legible (isShort n) (signed n) := by
  unfold integerText legible
  simp only [isShort_iff]

theorem pageMetaParts_eq (m : PageMeta) : pageMetaParts integerText m
    = legible ([m.total, m.page, m.limit, m.totalPages].all isShort)
      (Id.run (pageMetaParts atLength m)) := by
  unfold pageMetaParts
  simp only [List.mapM_cons, List.mapM_nil, integerText_eq, pure_bind, legible_map, legible_bind,
    List.all_cons, List.all_nil, Bool.and_true]
  rfl

mutual

theorem literal_eq : (v : Value) →
    v.literal integerText = legible v.hasText (Id.run (v.literal atLength))
  | .int n => integerText_eq n
  | .list items => by
    rw [literal, literals_eq items, legible_map]
    rfl
  | .tuple items => by
    rw [literal, literals_eq items, legible_map]
    rfl
  | .set items => by
    rw [literal, literals_eq items, legible_map]
    rfl
  | .record entries => by
    rw [literal, entryLiterals_eq entries, legible_map]
    rfl
  | .object attributes => by
    rw [literal, attributeLiterals_eq attributes, legible_map]
    rfl
  | .pageMeta m => by
    rw [literal, pageMetaParts_eq, legible_map]
    rfl
  | .condition c => conditionLiteral_eq c
  | .operation owner name => by
    rw [literal, literal, hasText]
    cases showsOwner owner.kind? with
    | false => rfl
    | true =>
      rw [if_pos rfl, if_pos rfl, literal_eq owner, legible_map]
      rfl
  | .null | .bool _ | .float _ | .str _ | .date _ | .instant _ | .unset | .kind _ | .zone _
  | .duration _ => rfl

theorem literals_eq : (vs : List Value) →
    literals integerText vs = legible (allHaveText vs) (Id.run (literals atLength vs))
  | [] => rfl
  | v :: rest => by
    rw [literals, literal_eq v, literals_eq rest, legible_pair]
    rfl

theorem entryLiterals_eq : (entries : List (String × Value)) →
    entryLiterals integerText entries
      = legible (entriesHaveText entries) (Id.run (entryLiterals atLength entries))
  | [] => rfl
  | (name, v) :: rest => by
    rw [entryLiterals, literal_eq v, entryLiterals_eq rest, legible_pair]
    rfl

theorem attributeLiterals_eq : (attributes : List (String × Value)) →
    attributeLiterals integerText attributes
      = legible (entriesHaveText attributes) (Id.run (attributeLiterals atLength attributes))
  | [] => rfl
  | (name, v) :: rest => by
    rw [attributeLiterals, literal_eq v, attributeLiterals_eq rest, legible_pair]
    rfl

theorem conditionLiteral_eq : (c : Condition) →
    conditionLiteral integerText c
      = legible (conditionHasText c) (Id.run (conditionLiteral atLength c))
  | .exact v | .flag v | .differs v | .related _ v => by
    rw [conditionLiteral, literal_eq v, legible_map]
    rfl
  | .oneOf vs => by
    rw [conditionLiteral, literals_eq vs, legible_map]
    rfl
  | .range lower upper => by
    rw [conditionLiteral, literal_eq lower, literal_eq upper, legible_pair]
    rfl

end

/-- the text of a value is the name that it stands for, if the integers in it are short -/
theorem text_eq (v : Value) : v.text = legible v.hasText v.display.toList := by
  rw [display, String.toList_ofList]
  cases v with
  | pageMeta m =>
    show (pageMetaParts integerText m >>= _) = _
    rw [pageMetaParts_eq, legible_map]
    rfl
  | str _ | date _ | instant _ | zone _ | duration _ => rfl
  | _ => exact literal_eq _

theorem display_of_text {v : Value} {text : List Char} (h : v.text = .ok text) :
    v.display.toList = text := by
  rw [text_eq] at h
  cases hv : v.hasText with
  | true =>
    rw [hv] at h
    exact Except.ok.inj h
  | false =>
    rw [hv] at h
    cases h

theorem text_isOk (v : Value) : v.text.isOk = v.hasText := by
  rw [text_eq, legible_isOk]

end Value

end ListQuery
