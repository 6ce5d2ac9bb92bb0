/-!
# Operators of predicate trees

Comparisons, text matches, null tests, quantifiers and connectives, with the symbol each is written
with (`symbol`) and the name each is reported by (`label`).
-/

namespace ListQuery

inductive Operator where
  | eq | ne | gt | lt | ge | le | isIn
  | equalsText | containsText | startsWithText
  | isNull | isNotNull
  | some | none | every
  | and | or | not
  deriving DecidableEq, Inhabited

namespace Operator

def all : List Operator :=
  [.eq, .ne, .gt, .lt, .ge, .le, .isIn, .equalsText, .containsText, .startsWithText,
    .isNull, .isNotNull, .some, .none, .every, .and, .or, .not]

def symbol : Operator → String
  | .eq => "=" | .ne => "!=" | .gt => ">" | .lt => "<" | .ge => ">=" | .le => "<="
  | .isIn => "in"
  | .equalsText => "iexact" | .containsText => "icontains" | .startsWithText => "istartswith"
  | .isNull => "is_null" | .isNotNull => "is_not_null"
  | .some => "some" | .none => "none" | .every => "every"
  | .and => "and" | .or => "or" | .not => "not"

def label (op : Operator) : String :=
  "ConditionOperator." ++ match op with
  | .eq => "EQ" | .ne => "NE" | .gt => "GT" | .lt => "LT" | .ge => "GE" | .le => "LE"
  | .isIn => "IN"
  | .equalsText => "IEQ" | .containsText => "ICONTAINS" | .startsWithText => "ISTARTSWITH"
  | .isNull => "IS_NULL" | .isNotNull => "IS_NOT_NULL"
  | .some => "SOME" | .none => "NONE" | .every => "EVERY"
  | .and => "AND" | .or => "OR" | .not => "NOT"

def ofSymbol? (s : String) : Option Operator := all.find? (·.symbol == s)

def ofQuantifier? (name : String) : Option Operator :=
  [Operator.some, .none, .every].find? (·.symbol == name)

end Operator

end ListQuery
