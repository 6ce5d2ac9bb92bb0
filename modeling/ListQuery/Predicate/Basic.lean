import ListQuery.Value.Basic
import ListQuery.Fault

/-!
# Predicate trees

What a row has to meet: comparisons of the value at a path, quantifiers over related records, and
their combinations.  `unrestricted` is met by every row; the combinators drop it, so it stands in a
tree only where a caller has put it.

* `Predicate.all`, `any`, `negation`  the combinations, without what does not restrict;
* `Predicate.and`, `or`, `not`        the operators on two trees, or one, as they are;
* `Predicate.leaves`                  the labels of the comparisons and quantifiers;
* `Predicate.toValue`                 the tree as a record.
-/

namespace ListQuery

inductive Predicate where
  /-- no restriction -/
  | unrestricted
  | conjunction (parts : List Predicate)
  | disjunction (parts : List Predicate)
  | complement (part : Predicate)
  /-- the value at a path, compared with another -/
  | compare (path : String) (op : Operator) (value : Value)
  /-- some, none or every record at a path meets the nested tree -/
  | related (path : String) (quantifier : Operator) (nested : Predicate)
  /-- a node that says nothing and can be asked nothing -/
  | blank

instance : Inhabited Predicate := ⟨.unrestricted⟩

namespace Predicate

def restricts : Predicate → Bool
  | .unrestricted => false
  | _ => true

/-! ## combinations -/

/-- all of the trees: nothing for none, the tree itself for one -/
def all (ps : List Predicate) : Predicate :=
  match ps.filter restricts with
  | [] => .unrestricted
  | [p] => p
  | many => .conjunction many

/-- any of the trees: nothing for none, the tree itself for one -/
def any (ps : List Predicate) : Predicate :=
  match ps.filter restricts with
  | [] => .unrestricted
  | [p] => p
  | many => .disjunction many

/-- not all of the trees; nothing if they do not restrict -/
def negation (ps : List Predicate) : Predicate :=
  match all ps with
  | .unrestricted => .unrestricted
  | p => .complement p

/-- a node of exactly two parts, the first of which is a tree -/
def and (p q : Predicate) : Outcome Predicate :=
  if p.restricts then .ok (.conjunction [p, q]) else .error .wrongKind

def or (p q : Predicate) : Outcome Predicate :=
  if p.restricts then .ok (.disjunction [p, q]) else .error .wrongKind

def not (p : Predicate) : Outcome Predicate :=
  if p.restricts then .ok (.complement p) else .error .wrongKind

/-! ## views -/

mutual

def leaves : Predicate → Outcome (List String)
  | .unrestricted => .error .noMember
  | .conjunction parts => leavesOf parts
  | .disjunction parts => leavesOf parts
  | .complement part => leaves part
  | .compare path _ _ => .ok [path]
  | .related path quantifier _ => .ok [quantifier.symbol ++ ":" ++ path]
  | .blank => .error .notImplemented

def leavesOf : List Predicate → Outcome (List String)
  | [] => .ok []
  | p :: rest => do
    let here ← leaves p
    return here ++ (← leavesOf rest)

end

mutual

def toValue : Predicate → Outcome Value
  | .unrestricted => .error .noMember
  | .conjunction parts => do
    return .record [("op", .str Operator.and.symbol), ("conditions", .list (← toValues parts))]
  | .disjunction parts => do
    return .record [("op", .str Operator.or.symbol), ("conditions", .list (← toValues parts))]
  | .complement part => do
    return .record [("op", .str Operator.not.symbol), ("conditions", .list [← toValue part])]
  | .compare path op value =>
    .ok (.record [("op", .str op.symbol), ("attr", .str path), ("val", value)])
  | .related path quantifier .unrestricted =>
    .ok (.record [("op", .str quantifier.symbol), ("attr", .str path), ("condition", .null)])
  | .related path quantifier nested => do
    return .record
      [("op", .str quantifier.symbol), ("attr", .str path), ("condition", ← toValue nested)]
  | .blank => .error .notImplemented

def toValues : List Predicate → Outcome (List Value)
  | [] => .ok []
  | p :: rest => do
    let here ← toValue p
    return here :: (← toValues rest)

end

end Predicate

end ListQuery
