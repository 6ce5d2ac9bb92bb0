import ListQuery.Fault
import ListQuery.Text.Search

/-!
# Equality and order of values

Booleans, integers and doubles are one kind of number, compared exactly.  Sequences of one kind
compare entry by entry, records as mappings whatever the order of their entries.  A double that is
not a number equals nothing, not even itself, but a value that holds it equals itself.

* `Value.equals`     equality, defined for all pairs;
* `Value.agrees`     equality of parts, in which one and the same double agrees with itself;
* `Value.compares`   order, a fault on values of different kinds and on kinds without order;
* `Value.isIn`       membership in a sequence, a mapping's names or a text.
-/

namespace ListQuery

namespace Value

/-! ## numbers -/

def number? : Value → Option Binary64
  | .bool b => some (.exactly b.toNat)
  | .int n => some (.exactly n)
  | .float x => some x
  | _ => none

/-! ## equality -/

/-- the same double that is not a number -/
def sameNaN : Value → Value → Bool
  | .float x, .float y => x.sameNaN y
  | _, _ => false

/-- values that are one wherever they stand: truth values, small integers, texts of one character
of the first 256 at most, kinds -/
def oneAndTheSame : Value → Value → Bool
  | .bool a, .bool b => a == b
  | .int m, .int n => m == n && -5 ≤ m && m ≤ 256
  | .str s, .str t => s == t && (match s.toList with
    | [] => true
    | [c] => c.toNat < 256
    | _ => false)
  | .kind k, .kind l => k == l
  | .unset, .unset => true
  | _, _ => false

mutual

def equals : Value → Value → Bool
  | .null, .null => true
  | .str s, .str t => s == t
  | .list xs, .list ys => equalItems xs ys
  | .tuple xs, .tuple ys => equalItems xs ys
  | .set xs, .set ys => xs.length == ys.length && allAmong xs ys
  | .record xs, .record ys => xs.length == ys.length && allEntriesIn xs ys
  | .object xs, .object ys => xs.length == ys.length && allEntriesIn xs ys
  | .date d, .date e => d == e
  | .instant t, .instant u => t.same u
  | .pageMeta m, .pageMeta n => m == n
  | .unset, .unset => true
  | .condition c, .condition d => equalConditions c d
  | .operation v name, .operation w other => name == other && oneAndTheSame v w
  | .kind k, .kind l => k == l
  | .zone a, .zone b => a == b
  | .duration a, .duration b => a == b
  | v, w => match v.number?, w.number? with
    | some x, some y => Binary64.compare? x y == some .eq
    | _, _ => false
termination_by structural v => v

def equalItems : List Value → List Value → Bool
  | [], [] => true
  | x :: xs, y :: ys => (sameNaN x y || x.equals y) && equalItems xs ys
  | _, _ => false
termination_by structural v => v

def allAmong : List Value → List Value → Bool
  | [], _ => true
  | x :: xs, ys => (ys.any fun y => sameNaN x y || x.equals y) && allAmong xs ys
termination_by structural v => v

def allEntriesIn : List (String × Value) → List (String × Value) → Bool
  | [], _ => true
  | (key, x) :: rest, ys =>
    (match field? key ys with
      | some y => sameNaN x y || x.equals y
      | none => false) && allEntriesIn rest ys
termination_by structural v => v

def equalConditions : Condition → Condition → Bool
  | .exact v, .exact w => sameNaN v w || v.equals w
  | .oneOf xs, .oneOf ys => equalItems xs ys
  | .range a b, .range c d => (sameNaN a c || a.equals c) && (sameNaN b d || b.equals d)
  | .flag v, .flag w => sameNaN v w || v.equals w
  | .differs v, .differs w => sameNaN v w || v.equals w
  | .related q n, .related r m => q == r && n.equals m
  | _, _ => false
termination_by structural v => v

end

/-- equality of parts: the same double that is not a number matches, too -/
def agrees (v w : Value) : Bool := sameNaN v w || v.equals w

/-! ## order -/

inductive Relation where
  | below | atMost | above | atLeast
  deriving DecidableEq

def Relation.holds : Relation → Ordering → Bool
  | .below, o => o == .lt
  | .atMost, o => o != .gt
  | .above, o => o == .gt
  | .atLeast, o => o != .lt

/-- inclusion of sets, none when neither holds the other -/
def setOrder? (xs ys : List Value) : Option Ordering :=
  match allAmong xs ys, allAmong ys xs with
  | true, true => some .eq
  | true, false => some .lt
  | false, true => some .gt
  | false, false => none

mutual

/-- whether the first value stands in the relation to the second -/
def compares (r : Relation) : Value → Value → Outcome Bool
  | .str s, .str t => .ok (r.holds (Text.order s.toList t.toList))
  | .list xs, .list ys => comparesItems r xs ys
  | .tuple xs, .tuple ys => comparesItems r xs ys
  | .set xs, .set ys => .ok (((setOrder? xs ys).map r.holds).getD false)
  | .date d, .date e => .ok (r.holds (d.compare e))
  | .instant t, .instant u => match Instant.compare? t u with
    | some o => .ok (r.holds o)
    | none => .error .wrongKind
  | .duration a, .duration b => .ok (r.holds (compare a b))
  | v, w => match v.number?, w.number? with
    | some x, some y => .ok (((Binary64.compare? x y).map r.holds).getD false)
    | _, _ => .error .wrongKind
termination_by structural v => v

/-- the first unequal items decide; else the lengths do -/
def comparesItems (r : Relation) : List Value → List Value → Outcome Bool
  | x :: xs, y :: ys => if x.agrees y then comparesItems r xs ys else x.compares r y
  | xs, ys => .ok (r.holds (compare xs.length ys.length))
termination_by structural v => v

end

/-! ## membership -/

/-- `v` is one of the items, one of the names, or a part of the text -/
def isIn (v : Value) : Value → Outcome Bool
  | .list items => .ok (items.any v.agrees)
  | .tuple items => .ok (items.any v.agrees)
  | .set items =>
    match v with
    | .set _ => .ok (items.any v.agrees)
    | _ => if v.hashable then .ok (items.any v.agrees) else .error .wrongKind
  | .record entries =>
    if v.hashable then .ok (entries.any fun entry => v.equals (.str entry.1)) else .error .wrongKind
  | .str s => match v with
    | .str t => .ok (Text.occursIn t.toList s.toList)
    | _ => .error .wrongKind
  | .pageMeta m => .ok ((ofPageMeta m).any fun entry => v.equals (.tuple [.str entry.1, entry.2]))
  | _ => .error .wrongKind

end Value

end ListQuery
