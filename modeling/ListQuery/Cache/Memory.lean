import ListQuery.Action
import ListQuery.Response

/-!
# A store of responses in memory

Entries by key in the order in which they were last written, each with the time until which it may
be read.  An entry past its time is dropped when it is read.  A full store gives up its oldest entry
for a new key.

* `Memory.get`, `Memory.getPage`   an entry as it is, or as a response;
* `Memory.set`                     writes an entry with a lifetime;
* `Memory.delete`, `Memory.clear`.
-/

namespace ListQuery

inductive Stored where
  | value (v : Value)
  | page (r : PagedResponse)
  deriving Inhabited

structure MemoryEntry where
  content : Stored
  /-- the last time, in seconds, at which the entry may be read -/
  expiry : Binary64

structure Memory where
  entries : List (String × MemoryEntry) := []
  /-- how many entries there may be; null for any number -/
  maxEntries : Value := .null
  /-- seconds that an entry lives if it is written without a lifetime -/
  defaultTtl : Value := .int 300
  deriving Inhabited

namespace Memory

def lookup (key : String) : List (String × MemoryEntry) → Option MemoryEntry
  | [] => none
  | (other, entry) :: rest => if other = key then some entry else lookup key rest

def without (key : String) (entries : List (String × MemoryEntry)) : List (String × MemoryEntry) :=
  entries.filter fun entry => entry.1 ≠ key

theorem lookup_without_self (key : String) (entries : List (String × MemoryEntry)) :
    lookup key (without key entries) = none := by
  induction entries with
  | nil => rfl
  | cons entry rest ih =>
    obtain ⟨other, content⟩ := entry
    by_cases h : other = key
    · simpa [without, h] using ih
    · simpa [without, lookup, h] using ih

theorem lookup_without_of_ne {key other : String} (h : other ≠ key)
    (entries : List (String × MemoryEntry)) :
    lookup other (without key entries) = lookup other entries := by
  induction entries with
  | nil => rfl
  | cons entry rest ih =>
    obtain ⟨name, content⟩ := entry
    by_cases hn : name = key
    · subst hn
      simpa [without, lookup, Ne.symm h] using ih
    · by_cases ho : name = other
      · simp [without, lookup, ho, h]
      · simpa [without, lookup, hn, ho] using ih

theorem lookup_append (key : String) (front back : List (String × MemoryEntry)) :
    lookup key (front ++ back) = (lookup key front).or (lookup key back) := by
  induction front with
  | nil => rfl
  | cons entry rest ih =>
    obtain ⟨name, content⟩ := entry
    by_cases h : name = key <;> simp [lookup, h, ih]

def contains (m : Memory) (key : String) : Bool := (lookup key m.entries).isSome

/-- a time in seconds after another -/
def after (now : Binary64) (seconds : Value) : Outcome Binary64 := do
  return now.add (← seconds.toBinary64)

/-- what is kept under a key, if it may still be read -/
def get (now : Binary64) (key : String) : Action Memory (Option Stored) := do
  match lookup key (← Action.read).entries with
  | none => return none
  | some entry =>
    if now.exceeds entry.expiry then
      Action.update fun m => { m with entries := without key m.entries }
      return none
    else return some entry.content

def getPage (now : Binary64) (key : String) : Action Memory (Option Stored) := do
  match ← get now key with
  | some (.value (.record entries)) =>
    return some (.page (← PagedResponse.ofValue (.record entries)))
  | other => return other

/-- a store with a limit that is reached by entries other than the one under the key -/
def isFullFor (m : Memory) (key : String) : Outcome Bool := do
  if m.maxEntries.isNull || m.contains key then return false
  else (Value.int m.entries.length).compares .atLeast m.maxEntries

def evict : Action Memory Unit := do
  match (← Action.read).entries with
  | [] => throw .nothingToEvict
  | (oldest, _) :: rest =>
    Action.update fun m => { m with entries := rest }
    Action.report "querypilot.caching" .debug ("Evicted cache entry " ++ oldest)

/-- writes an entry that may be read for `ttl` seconds, or for the default lifetime -/
def set (now : Binary64) (key : String) (content : Stored) (ttl : Value) : Action Memory Unit := do
  let memory ← Action.read
  if ← memory.isFullFor key then evict
  Action.update fun m => { m with entries := without key m.entries }
  let seconds := if ttl.isNull then memory.defaultTtl else ttl
  let expiry ← after now seconds
  Action.update fun m => { m with entries := m.entries ++ [(key, ⟨content, expiry⟩)] }

def delete (key : String) : Action Memory Unit :=
  Action.update fun m => { m with entries := without key m.entries }

def clear : Action Memory Unit := Action.update fun m => { m with entries := [] }

end Memory

end ListQuery
