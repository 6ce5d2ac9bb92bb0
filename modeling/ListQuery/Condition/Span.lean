import ListQuery.Condition.Basic
import ListQuery.Calendar.Iso
import ListQuery.Text.Classes

/-!
# Ranges of dates and numbers

* `Condition.dates`    a range whose bounds may be ISO 8601 texts; a blank one is no bound;
* `Condition.numbers`  a range with the bounds as they are.
-/

namespace ListQuery

namespace Condition

/-- an instant as text, where a final `Z` stands for universal time -/
def instantOfText (s : String) : Outcome Value :=
  let cs := Text.strip Text.isBlank s.toList
  if cs = [] then .ok .null
  else
    let spelled := match cs.reverse with
      | 'Z' :: front => front.reverse ++ ['+', '0', '0', ':', '0', '0']
      | _ => cs
    match Instant.ofIso? spelled with
    | some t => .ok (.instant t)
    | none => .error .badValue

def dateBound : Value → Outcome Value
  | .null => .ok .null
  | .date d => .ok (.date d)
  | .instant t => .ok (.instant t)
  | .str s => instantOfText s
  | _ => .error .noMember

def dates (lower upper : Value) : Outcome Condition := do
  let lo ← dateBound lower
  return .range lo (← dateBound upper)

def numbers (lower upper : Value) : Condition := .range lower upper

end Condition

end ListQuery
