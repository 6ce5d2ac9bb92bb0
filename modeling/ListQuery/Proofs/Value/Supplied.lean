import ListQuery.Value.Basic

/-!
# Values that were never supplied

A filter tells a value that was never supplied from a null.  Such a value may stand in a mapping at any
depth, and the value without it is one of its own.

* `Value.complete`             every entry of a mapping in the value was supplied;
* `Value.supplied`             the value without the entries that were not;
* `Value.complete_supplied`    it is complete;
* `Value.supplied_of_complete` a complete value stays as it is;
* `Value.Present`              a complete value that was supplied itself.
-/

namespace ListQuery

namespace Value

def isUnset : Value → Bool
  | .unset => true
  | _ => false

mutual

/-- every entry of a mapping in the value was supplied -/
def complete : Value → Bool
  | .list items => completeItems items
  | .tuple items => completeItems items
  | .set items => completeItems items
  | .record entries => completeEntries entries
  | _ => true

def completeItems : List Value → Bool
  | [] => true
  | v :: rest => complete v && completeItems rest

def completeEntries : List (String × Value) → Bool
  | [] => true
  | (_, v) :: rest => !v.isUnset && complete v && completeEntries rest

end

mutual

/-- the value without the entries of mappings that were never supplied -/
def supplied : Value → Value
  | .list items => .list (suppliedItems items)
  | .tuple items => .tuple (suppliedItems items)
  | .set items => .set (suppliedItems items)
  | .record entries => .record (suppliedEntries entries)
  | v => v

def suppliedItems : List Value → List Value
  | [] => []
  | v :: rest => supplied v :: suppliedItems rest

def suppliedEntries : List (String × Value) → List (String × Value)
  | [] => []
  | (name, v) :: rest =>
    if v.isUnset then suppliedEntries rest else (name, supplied v) :: suppliedEntries rest

end

def Present (v : Value) : Prop := v.isUnset = false ∧ v.complete = true

theorem isUnset_iff {v : Value} : v.isUnset = true ↔ v = .unset := by
  cases v <;> simp [isUnset]

theorem completeEntries_cons {e : String × Value} {rest : List (String × Value)} :
    completeEntries (e :: rest) = true ↔ e.2.Present ∧ completeEntries rest = true := by
  obtain ⟨name, v⟩ := e
  rw [completeEntries, Bool.and_eq_true, Bool.and_eq_true, Bool.not_eq_true']
  rfl

theorem completeEntries_iff {entries : List (String × Value)} :
    completeEntries entries = true ↔ ∀ e ∈ entries, e.2.Present := by
  induction entries with
  | nil => exact ⟨fun _ _ h => absurd h List.not_mem_nil, fun _ => rfl⟩
  | cons e rest ih => rw [completeEntries_cons, ih, List.forall_mem_cons]

theorem supplied_isUnset (v : Value) : v.supplied.isUnset = v.isUnset := by
  cases v <;> rfl

mutual

theorem complete_supplied : (v : Value) → v.supplied.complete = true
  | .list items | .tuple items | .set items => completeItems_supplied items
  | .record entries => completeEntries_supplied entries
  | .null | .bool _ | .int _ | .float _ | .str _ | .date _ | .instant _ | .object _ | .pageMeta _
  | .unset | .condition _ | .operation _ _ | .kind _ | .zone _ | .duration _ => rfl

theorem completeItems_supplied : (items : List Value) → completeItems (suppliedItems items) = true
  | [] => rfl
  | v :: rest => by
    rw [suppliedItems, completeItems, complete_supplied v, completeItems_supplied rest]
    rfl

theorem completeEntries_supplied : (entries : List (String × Value)) →
    completeEntries (suppliedEntries entries) = true
  | [] => rfl
  | (name, v) :: rest => by
    have hrest := completeEntries_supplied rest
    rw [suppliedEntries]
    cases hunset : v.isUnset with
    | true => exact hrest
    | false =>
      rw [if_neg Bool.false_ne_true, completeEntries_cons]
      exact ⟨⟨(supplied_isUnset v).trans hunset, complete_supplied v⟩, hrest⟩

end

mutual

theorem supplied_of_complete : (v : Value) → v.complete = true → v.supplied = v
  | .list items, h => congrArg list (suppliedItems_of_complete items h)
  | .tuple items, h => congrArg tuple (suppliedItems_of_complete items h)
  | .set items, h => congrArg set (suppliedItems_of_complete items h)
  | .record entries, h => congrArg record (suppliedEntries_of_complete entries h)
  | .null, _ | .bool _, _ | .int _, _ | .float _, _ | .str _, _ | .date _, _ | .instant _, _
  | .object _, _ | .pageMeta _, _ | .unset, _ | .condition _, _ | .operation _ _, _ | .kind _, _
  | .zone _, _ | .duration _, _ => rfl

theorem suppliedItems_of_complete : (items : List Value) → completeItems items = true →
    suppliedItems items = items
  | [], _ => rfl
  | v :: rest, h => by
    rw [completeItems, Bool.and_eq_true] at h
    rw [suppliedItems, supplied_of_complete v h.1, suppliedItems_of_complete rest h.2]

theorem suppliedEntries_of_complete : (entries : List (String × Value)) →
    completeEntries entries = true → suppliedEntries entries = entries
  | [], _ => rfl
  | (name, v) :: rest, h => by
    obtain ⟨⟨hunset, hv⟩, hrest⟩ := completeEntries_cons.mp h
    rw [suppliedEntries, if_neg (by rw [hunset]; exact Bool.false_ne_true),
      supplied_of_complete v hv, suppliedEntries_of_complete rest hrest]

end

mutual

def Named : Value → Prop
  | .record entries => (entries.map Prod.fst).Nodup ∧ NamedEntries entries
  | _ => True

def NamedEntries : List (String × Value) → Prop
  | [] => True
  | (_, v) :: rest => Named v ∧ NamedEntries rest

end

end Value

end ListQuery
