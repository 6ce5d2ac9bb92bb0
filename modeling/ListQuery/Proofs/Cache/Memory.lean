import ListQuery.Cache.Memory
import ListQuery.Proofs.Number.Order
import ListQuery.Proofs.Value.Integers

/-!
# What a store in memory does

Each operation of a store in memory, by its answer and by the entries that it leaves behind.

* `exists_since_concat`                              what a run left so, by its last step;
* `Memory.dropping`, `expiring`, `room`, `writing`   the memory after an operation;
* `Memory.alive?`                                    the entry under a key that may be read;
* `Memory.get_eq`, `set_eq`, `delete_eq`, `clear_eq` the operations;
* `Memory.Configured`                                a limit and a lifetime, kept by all of them.
-/

namespace ListQuery

/-! ## the last time -/

/-- What happened in a run, and was left so since, happened in its last step, or was left so by
it. -/
theorem exists_since_concat {α : Type} {p : List α → α → Prop} {q : α → Prop} {run : List α}
    {last : α} :
    (∃ earlier x later, run ++ [last] = earlier ++ x :: later ∧ p earlier x ∧ ∀ y ∈ later, q y) ↔
      p run last ∨
        ((∃ earlier x later, run = earlier ++ x :: later ∧ p earlier x ∧ ∀ y ∈ later, q y) ∧ q last) := by
  constructor
  · rintro ⟨earlier, x, later, hrun, hx, hlater⟩
    rcases List.eq_nil_or_concat' later with rfl | ⟨later, y, rfl⟩
    · obtain ⟨rfl, hlast⟩ := List.append_inj' hrun rfl
      cases hlast
      exact .inl hx
    · rw [← List.cons_append, ← List.append_assoc] at hrun
      obtain ⟨rfl, hlast⟩ := List.append_inj' hrun rfl
      cases hlast
      rw [List.forall_mem_append, List.forall_mem_singleton] at hlater
      exact .inr ⟨⟨earlier, x, later, rfl, hx, hlater.1⟩, hlater.2⟩
  · rintro (hlast | ⟨⟨earlier, x, later, rfl, hx, hlater⟩, hlast⟩)
    · exact ⟨run, last, [], rfl, hlast, fun _ h => absurd h List.not_mem_nil⟩
    · refine ⟨earlier, x, later ++ [last], by simp, hx, ?_⟩
      rw [List.forall_mem_append, List.forall_mem_singleton]
      exact ⟨hlater, hlast⟩

theorem exists_eq_since_concat {α : Type} {q : α → Prop} {run : List α} {x last : α} :
    (∃ earlier later, run ++ [last] = earlier ++ x :: later ∧ ∀ y ∈ later, q y) ↔
      last = x ∨ ((∃ earlier later, run = earlier ++ x :: later ∧ ∀ y ∈ later, q y) ∧ q last) := by
  have hnamed (run : List α) : (∃ earlier later, run = earlier ++ x :: later ∧ ∀ y ∈ later, q y) ↔
      ∃ earlier z later, run = earlier ++ z :: later ∧ z = x ∧ ∀ y ∈ later, q y := by
    constructor
    · rintro ⟨earlier, later, hrun, hlater⟩
      exact ⟨earlier, x, later, hrun, rfl, hlater⟩
    · rintro ⟨earlier, _, later, hrun, rfl, hlater⟩
      exact ⟨earlier, later, hrun, hlater⟩
  rw [hnamed, hnamed]
  exact exists_since_concat

namespace Memory

/-! ## entries -/

def keys (m : Memory) : List String := m.entries.map (·.1)

def dropping (key : String) (m : Memory) : Memory := { m with entries := without key m.entries }

theorem lookup_eq_none {key : String} {entries : List (String × MemoryEntry)} :
    lookup key entries = none ↔ key ∉ entries.map (·.1) := by
  induction entries with
  | nil => simp [lookup]
  | cons entry rest ih =>
    obtain ⟨other, content⟩ := entry
    by_cases h : other = key
    · simp [lookup, h]
    · simp [lookup, h, ih, Ne.symm h]

theorem mem_of_lookup {key : String} {entry : MemoryEntry} {entries : List (String × MemoryEntry)}
    (h : lookup key entries = some entry) : (key, entry) ∈ entries := by
  induction entries with
  | nil => cases h
  | cons first rest ih =>
    obtain ⟨other, content⟩ := first
    rw [lookup] at h
    split at h
    · rename_i hkey; cases h; subst hkey; exact List.mem_cons_self
    · exact List.mem_cons_of_mem _ (ih h)

theorem contains_iff {key : String} {m : Memory} : m.contains key = true ↔ key ∈ m.keys := by
  rw [contains, ← Option.ne_none_iff_isSome, Ne, lookup_eq_none, not_not, keys]

theorem keys_without (key : String) (entries : List (String × MemoryEntry)) :
    (without key entries).map (·.1) = (entries.map (·.1)).filter (· ≠ key) := by
  rw [without, List.filter_map]
  rfl

theorem without_of_notMem {key : String} {entries : List (String × MemoryEntry)}
    (h : key ∉ entries.map (·.1)) : without key entries = entries := by
  refine List.filter_eq_self.mpr fun entry hentry => decide_eq_true ?_
  rintro rfl
  exact h (List.mem_map_of_mem hentry)

theorem lookup_of_tail {key : String} {entry : MemoryEntry} {entries : List (String × MemoryEntry)}
    (hnodup : (entries.map (·.1)).Nodup) (h : lookup key entries.tail = some entry) :
    lookup key entries = some entry := by
  cases entries with
  | nil => cases h
  | cons first rest =>
    obtain ⟨other, content⟩ := first
    have hmem : key ∈ rest.map (·.1) := List.mem_map_of_mem (mem_of_lookup h)
    have hne : other ≠ key := by
      rintro rfl
      exact (List.nodup_cons.mp hnodup).1 hmem
    rw [lookup, if_neg hne]
    exact h

/-! ## reading -/

/-- the entry under a key, if it may be read at a time -/
def alive? (now : Binary64) (key : String) (m : Memory) : Option MemoryEntry :=
  (lookup key m.entries).filter fun entry => !now.exceeds entry.expiry

/-- the memory without the entry under a key if it may not be read any more -/
def expiring (now : Binary64) (key : String) (m : Memory) : Memory :=
  if m.alive? now key = none then dropping key m else m

theorem alive?_eq_some {now : Binary64} {key : String} {entry : MemoryEntry} {m : Memory} :
    m.alive? now key = some entry ↔
      lookup key m.entries = some entry ∧ now.exceeds entry.expiry = false := by
  rw [alive?, Option.filter_eq_some_iff, Bool.not_eq_true']

theorem get_eq (now : Binary64) (key : String) (m : Memory) (log : List LogEntry) :
    (get now key).runOn ⟨m, log⟩
      = (.ok ((m.alive? now key).map (·.content)), ⟨m.expiring now key, log⟩) := by
  unfold get
  rw [Action.runOn_bind, Action.runOn_read, expiring, alive?, dropping]
  dsimp only
  cases h : lookup key m.entries with
  | none =>
    rw [without_of_notMem (lookup_eq_none.mp h)]
    rfl
  | some entry =>
    cases hexceeds : now.exceeds entry.expiry <;> simp [Option.filter_some, hexceeds] <;> rfl

/-- what is found under a key after another one was read, and after the key itself was read -/
theorem lookup_expiring (now : Binary64) (key other : String) (m : Memory) :
    lookup other (m.expiring now key).entries
      = if other = key then m.alive? now key else lookup other m.entries := by
  rw [expiring]
  by_cases hother : other = key
  · subst hother
    rw [if_pos rfl]
    cases h : m.alive? now other with
    | none => rw [if_pos rfl]; exact lookup_without_self other m.entries
    | some entry => rw [if_neg (by simp)]; exact (alive?_eq_some.mp h).1
  · rw [if_neg hother]
    split
    · exact lookup_without_of_ne hother m.entries
    · rfl

/-- a read brings nothing back -/
theorem lookup_of_expiring {now : Binary64} {key other : String} {entry : MemoryEntry} {m : Memory}
    (h : lookup other (m.expiring now key).entries = some entry) :
    lookup other m.entries = some entry := by
  rw [lookup_expiring] at h
  split at h
  · rename_i hother
    subst hother
    exact (alive?_eq_some.mp h).1
  · exact h

/-! ## writing -/

structure Configured (limit : Option Nat) (lifetime : Int) (m : Memory) : Prop where
  limit : m.maxEntries = .ofInt? (limit.map Int.ofNat)
  lifetime : m.defaultTtl = .int lifetime

def empty (limit : Option Nat) (lifetime : Int) : Memory :=
  { maxEntries := .ofInt? (limit.map Int.ofNat), defaultTtl := .int lifetime }

/-- a further key has no place before another entry is given up -/
def Full (limit : Option Nat) (key : String) (m : Memory) : Prop :=
  key ∉ m.keys ∧ ∃ n ∈ limit, n ≤ m.entries.length

instance (limit : Option Nat) (key : String) (m : Memory) : Decidable (Full limit key m) :=
  inferInstanceAs (Decidable (_ ∧ _))

/-- the memory with a place for an entry under the key: a full one without its first entry -/
def room (limit : Option Nat) (key : String) (m : Memory) : Memory :=
  if Full limit key m then { m with entries := m.entries.tail } else m

def fresh? (now : Binary64) (content : Stored) (seconds : Int) : Option MemoryEntry :=
  (after now (.int seconds)).toOption.map fun expiry => ⟨content, expiry⟩

/-- a life in whole seconds ends at a time, if it began at one -/
theorem isNaN_after {now expiry : Binary64} {seconds : Int}
    (h : after now (.int seconds) = .ok expiry) (hnow : now.isNaN = false) :
    expiry.isNaN = false := by
  obtain ⟨x, hx, hsum⟩ := Outcome.bind_eq_ok.mp h
  cases hsum
  cases hseconds : Binary64.ofInt? seconds with
  | none => simp [Value.toBinary64, Value.integer?, hseconds] at hx
  | some y =>
    simp only [Value.toBinary64, Value.integer?, hseconds] at hx
    cases hx
    obtain ⟨a, m, e, rfl⟩ := Binary64.ofInt?_finite hseconds
    exact Binary64.isNaN_add_finite hnow a m e

def writing (limit : Option Nat) (key : String) (entry : Option MemoryEntry) (m : Memory) : Memory :=
  { m with entries :=
      without key (m.room limit key).entries ++ (entry.map fun entry => (key, entry)).toList }

variable {limit : Option Nat} {lifetime : Int} {m : Memory}

theorem configured_empty (limit : Option Nat) (lifetime : Int) :
    (empty limit lifetime).Configured limit lifetime := ⟨rfl, rfl⟩

theorem Configured.dropping (h : m.Configured limit lifetime) (key : String) :
    (m.dropping key).Configured limit lifetime := ⟨h.limit, h.lifetime⟩

theorem Configured.expiring (h : m.Configured limit lifetime) (now : Binary64) (key : String) :
    (m.expiring now key).Configured limit lifetime := by
  unfold Memory.expiring
  split
  · exact h.dropping key
  · exact h

theorem Configured.writing (h : m.Configured limit lifetime) (key : String)
    (entry : Option MemoryEntry) : (m.writing limit key entry).Configured limit lifetime :=
  ⟨h.limit, h.lifetime⟩

theorem isFullFor_eq (h : m.Configured limit lifetime) (key : String) :
    m.isFullFor key = .ok (decide (Full limit key m)) := by
  unfold isFullFor
  rw [h.limit]
  cases limit with
  | none => simp [Full, Value.ofInt?, Value.isNull]; rfl
  | some n =>
    show (if false || m.contains key then pure false
      else (Value.int m.entries.length).compares .atLeast (.int n)) = _
    rw [Bool.false_or]
    split
    · rename_i hkey
      have hmem := contains_iff.mp hkey
      rw [decide_eq_false fun hfull => hfull.1 hmem]
      rfl
    · rename_i hkey
      have hmem : key ∉ m.keys := mt contains_iff.mpr hkey
      rw [Value.compares_int]
      show Except.ok (compare (m.entries.length : Int) n != .lt) = _
      congr 1
      rw [Bool.eq_iff_iff, decide_eq_true_iff, bne_iff_ne, Ne, Int.compare_eq_lt]
      simp only [Full, hmem, Option.mem_some_iff]
      constructor
      · intro hle; exact ⟨not_false, n, rfl, by omega⟩
      · rintro ⟨_, _, rfl, hle⟩; omega

theorem evict_eq {m : Memory} (h : m.entries ≠ []) (log : List LogEntry) :
    ∃ log', evict.runOn ⟨m, log⟩ = (.ok (), ⟨{ m with entries := m.entries.tail }, log'⟩) := by
  obtain ⟨entries, most, ttl⟩ := m
  cases entries with
  | nil => exact absurd rfl h
  | cons first rest => exact ⟨_, rfl⟩

def place (now : Binary64) (key : String) (content : Stored) (seconds : Value) :
    Action Memory Unit := do
  Action.update (dropping key)
  let expiry ← after now seconds
  Action.update fun m => { m with entries := m.entries ++ [(key, ⟨content, expiry⟩)] }

theorem place_eq (now : Binary64) (key : String) (content : Stored) (seconds : Int)
    (log : List LogEntry) :
    (place now key content (.int seconds)).runOn ⟨m, log⟩
      = ((after now (.int seconds)).map fun _ => (),
        ⟨{ m with entries := without key m.entries
            ++ ((fresh? now content seconds).map fun entry => (key, entry)).toList }, log⟩) := by
  unfold place fresh?
  rw [Action.runOn_bind, Action.runOn_update]
  show ((Action.ofOutcome (after now (.int seconds)) : Action Memory Binary64) >>= fun expiry => _).runOn
    ⟨dropping key m, log⟩ = _
  rw [Action.runOn_bind, Action.runOn_ofOutcome]
  cases after now (.int seconds) with
  | error e =>
    show (Except.error e, (⟨dropping key m, log⟩ : Logged Memory)) = _
    simp [dropping, Except.toOption, Except.map]
  | ok expiry => rfl

theorem set_eq (h : m.Configured limit lifetime) (hlimit : ∀ n ∈ limit, 1 ≤ n) (now : Binary64)
    (key : String) (content : Stored) (ttl : Option Int) (log : List LogEntry) :
    ∃ log', (set now key content (.ofInt? ttl)).runOn ⟨m, log⟩
      = ((after now (.int (ttl.getD lifetime))).map fun _ => (),
        ⟨m.writing limit key (fresh? now content (ttl.getD lifetime)), log'⟩) := by
  have hseconds : (if (Value.ofInt? ttl).isNull then m.defaultTtl else .ofInt? ttl)
      = .int (ttl.getD lifetime) := by
    cases ttl with
    | none => exact h.lifetime
    | some seconds => rfl
  have hrun : (set now key content (.ofInt? ttl)).runOn ⟨m, log⟩
      = ((Action.ofOutcome (m.isFullFor key) : Action Memory Bool) >>= fun full =>
          let rest := place now key content
            (if (Value.ofInt? ttl).isNull then m.defaultTtl else .ofInt? ttl)
          if full then evict >>= fun _ => rest else rest).runOn ⟨m, log⟩ := rfl
  rw [hrun, hseconds, isFullFor_eq h key, Action.runOn_bind, Action.runOn_ofOutcome]
  unfold writing room
  by_cases hfull : Full limit key m
  · obtain ⟨n, hn, hle⟩ := hfull.2
    have hne : m.entries ≠ [] := by
      intro hnil
      rw [hnil] at hle
      exact absurd (hlimit n hn) (by simpa using hle)
    obtain ⟨log', hevict⟩ := evict_eq hne log
    refine ⟨log', ?_⟩
    rw [if_pos hfull, decide_eq_true hfull]
    show (evict >>= fun _ => place now key content (.int (ttl.getD lifetime))).runOn ⟨m, log⟩ = _
    rw [Action.runOn_bind, hevict]
    exact place_eq now key content (ttl.getD lifetime) log'
  · refine ⟨log, ?_⟩
    rw [if_neg hfull, decide_eq_false hfull]
    exact place_eq now key content (ttl.getD lifetime) log

/-! ## removing -/

theorem delete_eq (key : String) (m : Memory) (log : List LogEntry) :
    (delete key).runOn ⟨m, log⟩ = (.ok (), ⟨m.dropping key, log⟩) := rfl

theorem clear_eq (m : Memory) (log : List LogEntry) :
    clear.runOn ⟨m, log⟩ = (.ok (), ⟨{ m with entries := [] }, log⟩) := rfl

/-! ## keys -/

theorem keys_dropping (key : String) (m : Memory) : (m.dropping key).keys = m.keys.filter (· ≠ key) :=
  keys_without key m.entries

theorem keys_expiring (now : Binary64) (key : String) (m : Memory) :
    (m.expiring now key).keys.Sublist m.keys := by
  unfold expiring
  split
  · rw [keys_dropping]; exact List.filter_sublist
  · exact List.Sublist.refl _

theorem keys_room (limit : Option Nat) (key : String) (m : Memory) :
    (m.room limit key).keys.Sublist m.keys := by
  unfold room
  split
  · exact (List.tail_sublist m.entries).map _
  · exact List.Sublist.refl _

theorem nodup_expiring (now : Binary64) (key : String) (h : m.keys.Nodup) :
    (m.expiring now key).keys.Nodup := h.sublist (keys_expiring now key m)

theorem nodup_dropping (key : String) (h : m.keys.Nodup) : (m.dropping key).keys.Nodup := by
  rw [keys_dropping]
  exact h.filter _

theorem keys_writing (limit : Option Nat) (key : String) (entry : Option MemoryEntry) (m : Memory) :
    (m.writing limit key entry).keys
      = (m.room limit key).keys.filter (· ≠ key) ++ (entry.map fun _ => key).toList := by
  unfold writing keys
  rw [List.map_append, keys_without]
  cases entry <;> rfl

theorem nodup_writing (entry : Option MemoryEntry) (key : String) (h : m.keys.Nodup) :
    (m.writing limit key entry).keys.Nodup := by
  rw [keys_writing]
  have hroom : ((m.room limit key).keys.filter (· ≠ key)).Nodup :=
    (h.sublist (keys_room limit key m)).filter _
  cases entry with
  | none => simpa using hroom
  | some entry =>
    refine hroom.append (List.nodup_singleton key) ?_
    simp [List.disjoint_singleton]

/-! ## what is found afterwards -/

theorem lookup_writing_self (limit : Option Nat) (key : String) (entry : Option MemoryEntry)
    (m : Memory) : lookup key (m.writing limit key entry).entries = entry := by
  unfold writing
  rw [lookup_append, lookup_without_self, Option.none_or]
  cases entry with
  | none => rfl
  | some entry => exact if_pos rfl

theorem lookup_writing_of_ne {key other : String} (h : other ≠ key) (limit : Option Nat)
    (entry : Option MemoryEntry) (m : Memory) :
    lookup other (m.writing limit key entry).entries = lookup other (m.room limit key).entries := by
  unfold writing
  rw [lookup_append, lookup_without_of_ne h]
  cases entry with
  | none => exact Option.or_none
  | some entry =>
    have hnone : lookup other [(key, entry)] = none := if_neg (Ne.symm h)
    exact (congrArg _ hnone).trans Option.or_none

theorem room_unlimited (key : String) (m : Memory) : m.room none key = m :=
  if_neg fun h => by obtain ⟨_, _, h, _⟩ := h; cases h

/-- making room gives nothing up but one entry -/
theorem lookup_room {key other : String} {entry : MemoryEntry} (hnodup : m.keys.Nodup)
    (h : lookup other (m.room limit key).entries = some entry) :
    lookup other m.entries = some entry := by
  unfold room at h
  split at h
  · exact lookup_of_tail hnodup h
  · exact h

end Memory

end ListQuery
