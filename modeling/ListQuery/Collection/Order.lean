import ListQuery.Plan
import ListQuery.Value.Path
import ListQuery.Value.Convert

/-!
# Ordered rows

Rows are ordered by the values at the paths of several keys, the most significant first.  A null
comes after every other value, and before it where the key descends.  Rows that no key tells apart
keep their order.

* `Value.precedes`  the order of two values under a key;
* `stableSort`      insertion sort, which keeps the order of what it does not tell apart;
* `sortByHalves`    insertion by halves, for values of which some have no order;
* `sortRows`        rows under several keys; a fault where two values that meet have no order.
-/

namespace ListQuery

/-- the first value comes strictly before the second in ascending order -/
def Value.precedes (v w : Value) : Outcome Bool :=
  match v, w with
  | .null, _ => .ok false
  | _, .null => .ok true
  | v, w => if v.agrees w then .ok false else v.compares .below w

def Value.ordered (v w : Value) : Bool :=
  match v.precedes w, w.precedes v with
  | .ok a, .ok b => a || b || v.agrees w
  | _, _ => false

/-! ## stable sorting -/

section
variable {α : Type} (before : α → α → Bool)

/-- puts an item in front of the first one that does not come strictly before it -/
def insertInto (x : α) : List α → List α
  | [] => [x]
  | y :: rest => if before y x then y :: insertInto x rest else x :: y :: rest

/-- `before x y` says that `x` comes strictly before `y` -/
def stableSort : List α → List α
  | [] => []
  | x :: rest => insertInto before x (stableSort rest)

theorem insertInto_perm (x : α) (xs : List α) : (insertInto before x xs).Perm (x :: xs) := by
  induction xs with
  | nil => exact List.Perm.refl _
  | cons y rest ih =>
    simp only [insertInto]
    split
    · exact (ih.cons y).trans (List.Perm.swap x y rest)
    · exact List.Perm.refl _

theorem stableSort_perm (xs : List α) : (stableSort before xs).Perm xs := by
  induction xs with
  | nil => exact List.Perm.refl _
  | cons x rest ih => exact (insertInto_perm before x _).trans (ih.cons x)

end

/-! ## sorting by halves -/

section
variable {α : Type} (before : α → α → Outcome Bool)

/-- the items that go on as a run began, each of them before its neighbour or none, and the rest -/
def restOfRun (falling : Bool) (last : α) : List α → Outcome (List α × List α)
  | [] => .ok ([], [])
  | x :: rest => do
    if (← before x last) = falling then
      let (run, left) ← restOfRun falling x rest
      return (x :: run, left)
    else return ([], x :: rest)

def firstRun : List α → Outcome (List α × List α)
  | x :: y :: rest => do
    let falling ← before y x
    let (run, left) ← restOfRun before falling y rest
    return (if falling then (x :: y :: run).reverse else x :: y :: run, left)
  | short => .ok (short, [])

/-- how many of the sorted items come before a further one, if it is at least `low` and at most
`high`; the middle one decides where to go on -/
def placeByHalves (x : α) (sorted : List α) : (fuel low high : Nat) → Outcome Nat
  | 0, low, _ => .ok low
  | fuel + 1, low, high =>
    if low < high then do
      let middle := low + (high - low) / 2
      match sorted[middle]? with
      | none => return low
      | some y =>
        if ← before x y then placeByHalves x sorted fuel low middle
        else placeByHalves x sorted fuel (middle + 1) high
    else .ok low

/-- puts a further item among sorted ones -/
def insertByHalves (sorted : List α) (x : α) : Outcome (List α) := do
  let place ← placeByHalves before x sorted sorted.length 0 sorted.length
  return sorted.take place ++ x :: sorted.drop place

/-- a run, and what follows it inserted item by item -/
def sortByHalves (xs : List α) : Outcome (List α) := do
  let (run, rest) ← firstRun before xs
  rest.foldlM (insertByHalves before) run

end

/-! ## rows -/

def allOrdered : List Value → Bool
  | [] => true
  | v :: rest => rest.all v.ordered && allOrdered rest

/-- a row comes strictly before another under a key -/
def SortKey.before (k : SortKey) (a b : Value × Value) : Bool :=
  let (first, second) := if k.descends then (b, a) else (a, b)
  match first.1.precedes second.1 with
  | .ok answer => answer
  | .error _ => false

/-- Rows of which not every two have an order; a descending key sorts them from behind.  Up to 63 rows
come out in this order.  From 64 rows on, with a NaN among the values, it may be another. -/
def SortKey.sortPartly (k : SortKey) (keyed : List (Value × Value)) :
    Outcome (List (Value × Value)) :=
  let sort := sortByHalves fun (a b : Value × Value) => a.1.precedes b.1
  if k.descends then List.reverse <$> sort keyed.reverse else sort keyed

def SortKey.sort (k : SortKey) (rows : List Value) : Outcome (List Value) := do
  let keyed ← rows.mapM fun row => do return (row.resolve (← k.field.path), row)
  let sorted ← if allOrdered (keyed.map (·.1)) then pure (stableSort k.before keyed)
    else k.sortPartly keyed
  return sorted.map (·.2)

/-- rows under several keys, sorted by the least significant first -/
def sortRows (keys : List SortKey) (rows : List Value) : Outcome (List Value) :=
  keys.foldr (fun k sorted => do k.sort (← sorted)) (.ok rows)

theorem sortRows_cons (k : SortKey) (keys : List SortKey) (rows : List Value) :
    sortRows (k :: keys) rows = (sortRows keys rows).bind k.sort := rfl

end ListQuery
