import ListQuery.Builder.Basic
import ListQuery.Cache.Responses

/-!
# Builders that keep their responses

A query with a key is answered from a store while its entry lives, and kept there when it had to be
run.

* `Builder.prepareCached`   one query under a key;
* `Builder.cachedQuery`     one query under a key, if that is wanted;
* `Builder.cached`          queries under the keys made for them.
-/

namespace ListQuery

namespace Builder

variable {S : Type}

/-- a query under a key; without one it is run and not kept -/
def prepareCached (b : Builder S) (store : ResponseStore S) (key : Option String) (ttl : Value)
    (r : Request) (maxLimit : Value) : Action S (Prepared S) := do
  match key with
  | none => b.prepare r maxLimit
  | some key =>
    match ← store.lookup key with
    | some found => return .answered found
    | none =>
      Action.report ResponseStore.source .debug ("Cache miss for key " ++ key)
      (← b.prepare r maxLimit).andThen (store.keep key ttl)

def usableKey (key : String) : Option String := if key = "" then none else some key

def keyFor (enabled : Bool) (key : Option String) : Option String :=
  if enabled then key.bind usableKey else none

/-- a query under the given key, kept for `lifetime` seconds or else for those of the builder -/
def cachedQuery (b : Builder S) (store : ResponseStore S) (ttl : Value) (r : Request)
    (key : Option String) (lifetime : Value) (enabled : Bool) (maxLimit : Value) :
    Action S PagedResponse := do
  let seconds := if lifetime.isNull then ttl else lifetime
  (← b.prepareCached store (keyFor enabled key) seconds r maxLimit).complete

def cached (store : ResponseStore S) (ttl : Value) (keyOf : Option (Request → Outcome String))
    (b : Builder S) : Builder S :=
  { b with
    prepare := fun r maxLimit =>
      match keyOf with
      | none => b.prepare r maxLimit
      | some keyOf => do
        b.prepareCached store (usableKey (← keyOf r)) ttl r maxLimit }

end Builder

end ListQuery
