import ListQuery.Number.Binary64
import ListQuery.Calendar.Date

/-!
# Values

What rows hold, what filters compare with and what answers carry.  A row is usually a `record`: an
insertion-ordered mapping from names.  An `object` has attributes but is no mapping.  A filter may
hold a `Condition` in place of a raw value.  What a path finds in a value that is no mapping may be
no data at all: an operation of the value, or its kind.

* `Value`, `Condition`    the two mutually nested types;
* `Kind`                  the kinds of the values that have attributes in place of entries;
* `Value.field?`          an entry of an ordered mapping;
* `Value.put`             writes an entry, keeping the place of a name that is already there;
* `Value.truthy`          whether a value counts as given.
-/

namespace ListQuery

structure PageMeta where
  total : Int
  page : Int
  limit : Int
  totalPages : Int
  deriving DecidableEq, Inhabited

/-- the kinds of the values that have attributes in place of entries -/
inductive Kind where
  | bool | int | float | str | set | date | instant | object | pageMeta | unset
  | exact | oneOf | range | flag | differs | related
  | builtin | method | kind | zone | duration
  deriving DecidableEq

mutual

/-- a value of a row, a filter or an answer -/
inductive Value where
  | null
  | bool (b : Bool)
  | int (n : Int)
  | float (x : Binary64)
  | str (s : String)
  | list (items : List Value)
  | tuple (items : List Value)
  | set (items : List Value)
  | record (entries : List (String × Value))
  | date (d : Date)
  | instant (t : Instant)
  | object (attributes : List (String × Value))
  | pageMeta (m : PageMeta)
  /-- a filter value that was never supplied -/
  | unset
  | condition (c : Condition)
  /-- something a value can do: it is there, but equals nothing and has no order -/
  | operation (owner : Value) (name : String)
  /-- the kind of a value -/
  | kind (k : Kind)
  /-- a distance from universal time, in microseconds -/
  | zone (offset : Int)
  /-- a length of time, in microseconds -/
  | duration (length : Int)

/-- what a filter asks of the value at its path -/
inductive Condition where
  /-- equal to the value; `null` asks for a null -/
  | exact (value : Value)
  /-- one of the values -/
  | oneOf (values : List Value)
  /-- between the bounds, both included; `null` is no bound -/
  | range (lower upper : Value)
  | flag (value : Value)
  /-- other than the value; `null` asks for anything but a null -/
  | differs (value : Value)
  /-- `some`, `none` or `every` related record meets the nested conditions -/
  | related (quantifier : String) (nested : Value)

end

instance : Inhabited Value := ⟨.null⟩

namespace Value

/-! ## ordered mappings -/

def field? (name : String) : List (String × Value) → Option Value
  | [] => none
  | (key, value) :: rest => if key = name then some value else field? name rest

/-- writes something under a name; a new name comes last -/
def put {α : Type} (name : String) (value : α) : List (String × α) → List (String × α)
  | [] => [(name, value)]
  | (key, old) :: rest =>
    if key = name then (key, value) :: rest else (key, old) :: put name value rest

/-- `base` with the entries of `extra` written over it in turn -/
def overlay (base extra : List (String × Value)) : List (String × Value) :=
  extra.foldl (fun entries entry => put entry.1 entry.2 entries) base

theorem mem_of_field? {name : String} {value : Value} {entries : List (String × Value)}
    (h : field? name entries = some value) : (name, value) ∈ entries := by
  induction entries with
  | nil => cases h
  | cons entry rest ih =>
    obtain ⟨key, old⟩ := entry
    rw [field?] at h
    split at h
    · rename_i hkey; cases h; subst hkey; exact List.mem_cons_self
    · exact List.mem_cons_of_mem _ (ih h)

theorem field?_put_self (name : String) (value : Value) (entries : List (String × Value)) :
    field? name (put name value entries) = some value := by
  induction entries with
  | nil => simp [put, field?]
  | cons entry rest ih =>
    obtain ⟨key, old⟩ := entry
    by_cases h : key = name <;> simp [put, field?, h, ih]

theorem field?_put_of_ne {name other : String} (h : other ≠ name) (value : Value)
    (entries : List (String × Value)) :
    field? other (put name value entries) = field? other entries := by
  induction entries with
  | nil => simp [put, field?, h.symm]
  | cons entry rest ih =>
    obtain ⟨key, old⟩ := entry
    by_cases hk : key = name
    · subst hk; simp [put, field?, h.symm]
    · simp only [put, hk, if_false, field?, ih]

theorem overlay_cons (base : List (String × Value)) (name : String) (value : Value)
    (extra : List (String × Value)) :
    overlay base ((name, value) :: extra) = overlay (put name value base) extra := rfl

/-! ## parts -/

def ofPageMeta (m : PageMeta) : List (String × Value) :=
  [("total", .int m.total), ("page", .int m.page), ("limit", .int m.limit),
    ("total_pages", .int m.totalPages)]

def conditionAttributes : Condition → List (String × Value)
  | .exact v => [("value", v)]
  | .oneOf vs => [("values", .tuple vs)]
  | .range lo hi => [("from_", lo), ("to", hi)]
  | .flag v => [("value", v)]
  | .differs v => [("value", v)]
  | .related quantifier nested => [("kind", .str quantifier), ("where", nested)]

def isNull : Value → Bool
  | .null => true
  | _ => false

/-- neither empty, nor zero, nor absent -/
def truthy : Value → Bool
  | .null => false
  | .bool b => b
  | .int n => n ≠ 0
  | .float x => !x.isZero
  | .str s => s ≠ ""
  | .list items => !items.isEmpty
  | .tuple items => !items.isEmpty
  | .set items => !items.isEmpty
  | .record entries => !entries.isEmpty
  | .unset => false
  | _ => true

/-- the first value if it counts as given, else the second -/
def orElse (v w : Value) : Value := if v.truthy then v else w

def ofOption : Option Value → Value
  | none => .null
  | some v => v

def ofText? : Option String → Value
  | none => .null
  | some s => .str s

def ofInt? : Option Int → Value
  | none => .null
  | some n => .int n

mutual

/-- a value that may stand in a grouping key: nothing mutable in it -/
def hashable : Value → Bool
  | .list _ => false
  | .set _ => false
  | .record _ => false
  | .object _ => false
  | .pageMeta _ => false
  | .tuple items => hashableAll items
  | .condition c => hashableCondition c
  | _ => true

def hashableAll : List Value → Bool
  | [] => true
  | v :: rest => v.hashable && hashableAll rest

def hashableCondition : Condition → Bool
  | .exact v => v.hashable
  | .oneOf vs => hashableAll vs
  | .range lo hi => lo.hashable && hi.hashable
  | .flag v => v.hashable
  | .differs v => v.hashable
  | .related _ nested => nested.hashable

end

end Value

end ListQuery
