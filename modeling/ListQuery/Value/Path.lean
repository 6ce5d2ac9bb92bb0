import ListQuery.Value.Attribute
import ListQuery.Text.Search

/-!
# Paths into values

A path is a text of names with dots between them.  A name is looked up in a record or an object; at
a list it is looked up in every item, and the list of what is found is the end of the path.

* `Value.pick`     one name, through lists of any depth;
* `Value.follow`   the names of a path in turn;
* `Value.resolve`  a path as text.
-/

namespace ListQuery

namespace Value

mutual

/-- the value under a name; at a list, the values under it in the items -/
def pick (name : String) : Value → Value
  | .null => .null
  | .list items => .list (pickAll name items)
  | .tuple items => .list (pickAll name items)
  | v => v.member name

def pickAll (name : String) : List Value → List Value
  | [] => []
  | v :: rest => v.pick name :: pickAll name rest

end

/-- the value at the end of a path; the first list on the way ends it -/
def follow : List String → Value → Value
  | [], v => v
  | _ :: _, .null => .null
  | name :: _, .list items => .list (pickAll name items)
  | name :: _, .tuple items => .list (pickAll name items)
  | name :: rest, v => follow rest (v.member name)

def pathNames (path : String) : List String :=
  (Text.splitOn '.' path.toList).map String.ofList

def resolve (path : String) (v : Value) : Value := follow (pathNames path) v

theorem follow_nil (v : Value) : follow [] v = v := by simp [follow]

theorem follow_null (names : List String) : follow names .null = .null := by
  cases names <;> simp [follow]

theorem resolve_null (path : String) : resolve path .null = .null := follow_null _

theorem pickAll_eq_map (name : String) (items : List Value) :
    pickAll name items = items.map (pick name) := by
  induction items with
  | nil => simp [pickAll]
  | cons v rest ih => simp [pickAll, ih]

end Value

end ListQuery
