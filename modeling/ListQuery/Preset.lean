import ListQuery.Builder.Basic

/-!
# Presets

Requests kept under names, in the order in which the names came up.

* `Presets.save`, `Presets.load`, `Presets.names`, `Presets.delete`;
* `Builder.runPreset`   the answer of a preset with other fields written over it.
-/

namespace ListQuery

abbrev Presets := List (String × Request)

namespace Presets

def find? (name : String) : Presets → Option Request
  | [] => none
  | (other, r) :: rest => if other = name then some r else find? name rest

def put (name : String) (r : Request) : Presets → Presets
  | [] => [(name, r)]
  | (other, old) :: rest =>
    if other = name then (other, r) :: rest else (other, old) :: put name r rest

def names (presets : Presets) : List String := presets.map (·.1)

def save (name : String) (r : Request) : Action Presets Unit := do
  if (find? name (← Action.read)).isSome then
    Action.report "querypilot.presets" .debug ("Replacing preset " ++ name)
  Action.update (put name r)

/-- the request kept under a name; there must be one -/
def load (name : String) (presets : Presets) : Outcome Request :=
  match find? name presets with
  | some r => .ok r
  | none => .error (.refused (.presetNotFound (.str name)))

def delete (name : String) : Action Presets Bool := do
  let found := (find? name (← Action.read)).isSome
  Action.update fun presets => presets.filter (·.1 ≠ name)
  return found

theorem find?_put (name other : String) (r : Request) (presets : Presets) :
    find? other (put name r presets) = if name = other then some r else find? other presets := by
  induction presets with
  | nil => simp [put, find?]
  | cons entry rest ih =>
    obtain ⟨key, old⟩ := entry
    by_cases hk : key = name
    · subst hk
      by_cases ho : key = other <;> simp [put, find?, ho]
    · by_cases ho : key = other
      · subst ho
        simp [put, find?, hk, Ne.symm hk]
      · simp [put, find?, hk, ho, ih]

end Presets

/-- the answer of a preset, with `overrides` written over its fields -/
def Builder.runPreset {S : Type} (b : Builder S) (presets : Presets) (name : String)
    (overrides : Value) : Action S PagedResponse := do
  let r ← (← presets.load name).merged overrides
  Action.report "querypilot.presets" .debug ("Executing preset " ++ name)
  b.query r .null

end ListQuery
