import ListQuery.Fault
import ListQuery.Value.Display

/-!
# The texts of faults

* `Refusal.message`, `Refusal.toRecord`   what a refusal says, as text and as a record;
* `Fault.message`                         what a fault says, where it says anything of its own.
-/

namespace ListQuery

namespace Refusal

def message : Refusal → String
  | .general [] | .notFound [] => ""
  | .general [detail] | .notFound [detail] => detail.display
  | .general details | .notFound details => (Value.tuple details).display
  | .invalidArgument argument message =>
    if message.truthy then message.display
    else "Argument '" ++ argument.display ++ "' is required"
  | .presetNotFound name => "Preset \"" ++ name.display ++ "\" not found"
  | .deliveryFailed url reason =>
    "Webhook delivery to " ++ url.display ++ " failed: " ++ reason.display

def isNotFound : Refusal → Bool
  | .notFound _ | .presetNotFound _ => true
  | _ => false

def kind : Refusal → String
  | .general _ => "QueryPilotError"
  | .notFound _ => "NotFoundError"
  | .invalidArgument _ _ => "InvalidArgumentError"
  | .presetNotFound _ => "PresetNotFoundError"
  | .deliveryFailed _ _ => "WebhookDeliveryError"

/-- a refusal of the given kind, made from its details; none if their number is wrong -/
def ofKind? (kind : String) (details : List Value) : Option Refusal :=
  match kind, details with
  | "QueryPilotError", _ => some (.general details)
  | "NotFoundError", _ => some (.notFound details)
  | "InvalidArgumentError", [argument] => some (.invalidArgument argument .null)
  | "InvalidArgumentError", [argument, message] => some (.invalidArgument argument message)
  | "PresetNotFoundError", [name] => some (.presetNotFound name)
  | "WebhookDeliveryError", [url, reason] => some (.deliveryFailed url reason)
  | _, _ => none

def toRecord (r : Refusal) : List (String × Value) :=
  match r with
  | .invalidArgument argument _ =>
    [("error", .str "INVALID_ARGUMENT"), ("argument", argument), ("message", .str r.message)]
  | .presetNotFound name =>
    [("error", .str "PRESET_NOT_FOUND"), ("name", name), ("message", .str r.message)]
  | _ => [("error", .str r.kind), ("message", .str r.message)]

end Refusal

namespace Fault

def problemCount (subject : String) (n : Nat) : String :=
  toString n ++ " validation error" ++ (if n = 1 then "" else "s") ++ " for " ++ subject

def message : Fault → String
  | .unknownCollection model => "Unknown collection: " ++ model.logged
  | .unsupportedNode name => "Unsupported predicate node: " ++ name
  | .unsupportedOperator op => "Unsupported operator for in-memory evaluation: " ++ op.label
  | .unsupportedQuantifier op => "Unsupported relation quantifier: " ++ op.label
  | .unsupportedAggregation key => "Unsupported aggregation: " ++ key
  | .invalid subject problems => problemCount subject problems.length
  | .refused reason => reason.message
  | .connection text => text
  | .unserializable k => "Unable to serialize unknown type: " ++ k.text
  | .nestedTooDeep => "Error serializing to JSON: ValueError: Maximum serialization depth exceeded"
  | .unreadable text => text
  | .tooManyDigits =>
    "Exceeds the limit (" ++ toString Numeral.mostDigits
      ++ " digits) for integer string conversion; use sys.set_int_max_str_digits() to increase the limit"
  | .nothingToEvict => "coroutine raised StopIteration"
  | .divisionByZero => "division by zero"
  | .wrongKind | .noMember | .noEntry | .noItem | .badValue | .overflow | .notImplemented => ""

end Fault

end ListQuery
