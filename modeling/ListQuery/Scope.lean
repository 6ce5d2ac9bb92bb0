import ListQuery.Value.Basic

/-!
# Scopes

Filters that every request of a builder is held to.

* `Scope.tenant`      the rows of one tenant;
* `Scope.softDelete`  the live rows, the trashed ones, or both.
-/

namespace ListQuery

inductive Trash where
  | live | trashed | both
  deriving DecidableEq, Inhabited

/-- the choice from two wishes, of which the one for all rows wins -/
def Trash.of (includeTrashed trashedOnly : Bool) : Trash :=
  if includeTrashed then .both else if trashedOnly then .trashed else .live

namespace Scope

def tenant (id : Value) (field : String) : List (String × Value) := [(field, id)]

/-- a null mark for live rows, any other for trashed ones -/
def softDelete (t : Trash) (field : String) : List (String × Value) :=
  match t with
  | .live => [(field, .null)]
  | .trashed => [(field, .record [("not", .null)])]
  | .both => []

end Scope

end ListQuery
