import ListQuery.Cache.Memory
import ListQuery.Cache.Remote

/-!
# Stores of responses

What a builder needs of a store, whatever keeps the responses.  What goes wrong with a store is
reported and changes no answer.

* `ResponseStore`                                 looking up, keeping and giving up responses by key;
* `ResponseStore.ofMemory`, `ofClient`, `down`    stores in memory, on a server, and out of order;
* `ResponseStore.lookup`, `keep`, `invalidate`    the same with faults reported.
-/

namespace ListQuery

structure ResponseStore (S : Type) where
  get : String → Action S (Option PagedResponse)
  /-- keeps a response for a number of seconds -/
  set : String → PagedResponse → (ttl : Value) → Action S Unit
  delete : String → Action S Unit

namespace ResponseStore

variable {S : Type}

def source : String := "querypilot.caching"

/-! ## kinds of stores -/

def responseOf : Option Stored → Option PagedResponse
  | some (.page r) => some r
  | _ => none

/-- a memory that is a part of the state, by a clock that is another -/
def ofMemory (clock : S → Binary64) (get : S → Memory) (put : Memory → S → S) :
    ResponseStore S where
  get key := do
    let now := clock (← Action.read)
    return responseOf (← Action.within get put (Memory.getPage now key))
  set key r ttl := do
    let now := clock (← Action.read)
    Action.within get put (Memory.set now key (.page r) ttl)
  delete key := Action.within get put (Memory.delete key)

/-- the texts of a server under keys that begin with `start` -/
def ofClient (client : Client S) (start : String) : ResponseStore S where
  get key := do return responseOf (← Remote.getPage client start key)
  set key r ttl := Remote.set client start key (.page r) ttl
  delete key := Remote.delete client start key

def down : ResponseStore S where
  get _ := throw (.connection "get down")
  set _ _ _ := throw (.connection "set down")
  delete _ := throw (.connection "delete down")

/-! ## use -/

def complain (what key : String) (f : Fault) : Action S Unit :=
  Action.report source .warning ("Cache " ++ what ++ " failed for key " ++ key ++ ": " ++ f.message)

/-- the response kept under a key, if the store has one and works -/
def lookup (store : ResponseStore S) (key : String) : Action S (Option PagedResponse) := do
  match ← Action.attempt (store.get key) with
  | .ok found =>
    if found.isSome then Action.report source .debug ("Cache hit for key " ++ key)
    return found
  | .error f =>
    complain "get" key f
    return none

def keep (store : ResponseStore S) (key : String) (ttl : Value) (r : PagedResponse) :
    Action S PagedResponse := do
  match ← Action.attempt (store.set key r ttl) with
  | .ok _ => return r
  | .error f =>
    complain "set" key f
    return r

def invalidate (store : ResponseStore S) (key : String) : Action S Unit := do
  match ← Action.attempt (store.delete key) with
  | .ok _ => return
  | .error f => complain "invalidate" key f

end ResponseStore

end ListQuery
