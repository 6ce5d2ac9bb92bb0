import ListQuery.Proofs.Cache.Caps
import ListQuery.Proofs.Concurrent.Tasks
import ListQuery.Proofs.Value.Overlay

/-!
# Cached queries side by side

A cached query reads the memory, asks the builder inside, and writes the response.  Queries that are
made next to others may all miss, write one after another, and find what the others wrote, or lose it
again to an eviction or an invalidation.  None of it matters to the answers where the data stay as
they are and the keys tell the requests apart: then the memory holds under each key the response to
the request with that key, whatever is written and given up, and in whatever order.

* `Builder.cachedTask`, `Keeper.task`   a cached query in steps;
* `names_named`, `mem_named`            the answers to a batch by name;
* `Memory.Coherent`                     the invariant of the memory;
* `Keeper.Settled`                      data that stay as they are, and keys that tell requests apart;
* `lookup_gives`, `keep_gives`          reading and writing keep the invariant;
* `Keeper.batch_coherent`               named queries after any steps in any order.
-/

namespace ListQuery

/-! ## a cached query in steps -/

namespace Builder

variable {S : Type}

/-- a query under a key: the store is read, and on a miss the builder is asked and the response is
written -/
def cachedTask (b : Builder S) (store : ResponseStore S) (key : Option String) (ttl : Value)
    (r : Request) (maxLimit : Value) : Task S PagedResponse :=
  match key with
  | none => b.task r maxLimit
  | some key => do
    match ← Task.step (store.lookup key) with
    | some found => return found
    | none =>
      Task.step (Action.report ResponseStore.source .debug ("Cache miss for key " ++ key))
      let response ← b.task r maxLimit
      Task.step (store.keep key ttl response)

theorem cachedTask_alone (b : Builder S) (store : ResponseStore S) (key : Option String) (ttl : Value)
    (r : Request) (maxLimit : Value) (w : Logged S) :
    (b.cachedTask store key ttl r maxLimit).alone.runOn w
      = (b.prepareCached store key ttl r maxLimit >>= Prepared.complete).runOn w := by
  cases key with
  | none => exact congrArg (·.runOn w) (b.task_alone r maxLimit)
  | some key =>
    unfold cachedTask prepareCached
    rw [Task.alone_bind, Task.alone_step, bind_assoc, Action.runOn_bind, Action.runOn_bind]
    split
    · rename_i found after _
      cases found with
      | some response => rfl
      | none =>
        show ((Task.step _ >>= fun _ => b.task r maxLimit >>= fun response =>
          Task.step (store.keep key ttl response)).alone).runOn after = _
        rw [Task.alone_bind, Task.alone_step]
        simp only [Task.alone_bind, Task.alone_step, task_alone, bind_assoc]
        rw [Action.runOn_bind, Action.runOn_bind]
        split
        · rw [← prepare_andThen, bind_assoc]
        · rfl
    · rfl

/-! ## answers by name -/

def LastUnder {α : Type} (name : String) (x : α) (entries : List (String × α)) : Prop :=
  ∃ earlier later, entries = earlier ++ (name, x) :: later ∧ name ∉ later.map (·.1)

theorem lastUnder_concat {α : Type} {name : String} {x : α} {entries : List (String × α)}
    {e : String × α} :
    LastUnder name x (entries ++ [e]) ↔ e = (name, x) ∨ e.1 ≠ name ∧ LastUnder name x entries := by
  constructor
  · rintro ⟨earlier, later, h, hlater⟩
    rcases List.eq_nil_or_concat' later with rfl | ⟨later, last, rfl⟩
    · exact .inl (List.singleton_inj.mp (List.append_inj' h rfl).2)
    · rw [← List.cons_append, ← List.append_assoc] at h
      obtain ⟨rfl, hlast⟩ := List.append_inj' h rfl
      rw [List.map_append, List.mem_append, not_or, ← hlast] at hlater
      exact .inr ⟨fun heq => hlater.2 (heq ▸ List.mem_singleton_self _), earlier, later, rfl, hlater.1⟩
  · rintro (rfl | ⟨hne, earlier, later, rfl, hlater⟩)
    · exact ⟨entries, [], rfl, List.not_mem_nil⟩
    · refine ⟨earlier, later ++ [e], by rw [List.append_assoc, List.cons_append], ?_⟩
      rw [List.map_append, List.mem_append, not_or]
      exact ⟨hlater, fun hlast => hne (List.mem_singleton.mp hlast).symm⟩

theorem not_lastUnder_nil {α : Type} {name : String} {x : α} : ¬LastUnder name x [] := by
  rintro ⟨earlier, later, h, _⟩
  simp at h

theorem lastUnder_map {α β : Type} {f : α → β} {name : String} {y : β} {entries : List (String × α)} :
    LastUnder name y (entries.map fun e => (e.1, f e.2)) ↔
      ∃ x, LastUnder name x entries ∧ y = f x := by
  induction entries using List.reverseRecOn with
  | nil => exact ⟨fun h => absurd h not_lastUnder_nil, fun ⟨_, h, _⟩ => absurd h not_lastUnder_nil⟩
  | append_singleton entries e ih =>
    rw [List.map_append, List.map_singleton, lastUnder_concat, ih]
    constructor
    · rintro (he | ⟨hne, x, hx, rfl⟩)
      · obtain ⟨rfl, rfl⟩ := Prod.mk.inj he
        exact ⟨e.2, lastUnder_concat.mpr (.inl rfl), rfl⟩
      · exact ⟨x, lastUnder_concat.mpr (.inr ⟨hne, hx⟩), rfl⟩
    · rintro ⟨x, hx, rfl⟩
      rcases lastUnder_concat.mp hx with rfl | ⟨hne, hx⟩
      · exact .inl rfl
      · exact .inr ⟨hne, x, hx, rfl⟩

theorem named_concat (answers : List (String × PagedResponse)) (e : String × PagedResponse) :
    named (answers ++ [e]) = Value.put e.1 e.2 (named answers) := by
  rw [named, List.foldl_append]
  rfl

/-- the names come in the order in which they were given first -/
theorem names_named (answers : List (String × PagedResponse)) :
    (named answers).map (·.1) = (answers.map (·.1)).eraseDups := by
  induction answers using List.reverseRecOn with
  | nil => rfl
  | append_singleton answers e ih =>
    have hmem : e.1 ∈ (named answers).map (·.1) ↔ e.1 ∈ answers.map (·.1) := by
      rw [ih, List.mem_eraseDups]
    rw [named_concat, List.map_append, List.map_singleton, List.eraseDups_append, ← ih,
      List.cons_removeAll]
    by_cases h : e.1 ∈ answers.map (·.1)
    · rw [Value.map_fst_put e.2 (hmem.mpr h), if_neg (by simpa using h)]
      exact (List.append_nil _).symm
    · rw [Value.put_of_notMem e.2 (mt hmem.mp h), if_pos (by simpa using h), List.map_append]
      rfl

theorem nodup_named (answers : List (String × PagedResponse)) :
    ((named answers).map (·.1)).Nodup := by
  induction answers using List.reverseRecOn with
  | nil => exact List.nodup_nil
  | append_singleton answers e ih =>
    rw [named_concat]
    exact Value.nodup_put e.2 ih

theorem mem_named {answers : List (String × PagedResponse)} {name : String} {response : PagedResponse} :
    (name, response) ∈ named answers ↔ LastUnder name response answers := by
  induction answers using List.reverseRecOn with
  | nil => exact ⟨fun h => absurd h List.not_mem_nil, fun h => absurd h not_lastUnder_nil⟩
  | append_singleton answers e ih =>
    rw [named_concat, Value.mem_put_iff (nodup_named answers), lastUnder_concat, ih]

/-- the answers to named requests: one for each name, in the order in which the names were given
first, and that to the last request under it -/
structure Replies (answer : Request → PagedResponse) (queries : List (String × Request))
    (answers : List (String × PagedResponse)) : Prop where
  nodup : (answers.map (·.1)).Nodup
  names (name : String) : name ∈ answers.map (·.1) ↔ name ∈ queries.map (·.1)
  order : answers.map (·.1) = (queries.map (·.1)).eraseDups
  last {name : String} {response : PagedResponse} :
    (name, response) ∈ answers ↔ ∃ r, LastUnder name r queries ∧ response = answer r

theorem replies_named (answer : Request → PagedResponse) (queries : List (String × Request)) :
    Replies answer queries
      (named ((queries.map (·.1)).zip (queries.map fun q => answer q.2))) := by
  have hzip : (queries.map (·.1)).zip (queries.map fun q => answer q.2)
      = queries.map fun q => (q.1, answer q.2) := List.zip_map'
  have horder : (named (queries.map fun q => (q.1, answer q.2))).map (·.1)
      = (queries.map (·.1)).eraseDups := by
    rw [names_named, List.map_map]
    rfl
  rw [hzip]
  refine ⟨nodup_named _, fun name => ?_, horder, mem_named.trans lastUnder_map⟩
  rw [horder, List.mem_eraseDups]

end Builder

/-! ## the memory -/

/-- under every key there is the response to a request with that key -/
structure Memory.Coherent (key : Request → String) (asked : Request → Prop)
    (answer : Request → PagedResponse) (limit : Option Nat) (default : Int) (m : Memory) : Prop where
  configured : m.Configured limit default
  nodup : m.keys.Nodup
  page {name : String} {entry : MemoryEntry} (h : Memory.lookup name m.entries = some entry) :
    ∃ r, asked r ∧ key r = name ∧ entry.content = .page (answer r)

namespace Memory.Coherent

variable {key : Request → String} {asked : Request → Prop} {answer : Request → PagedResponse}
  {limit : Option Nat} {default : Int} {m : Memory}

theorem empty : (Memory.empty limit default).Coherent key asked answer limit default where
  configured := configured_empty limit default
  nodup := List.nodup_nil
  page h := by cases h

theorem expiring (h : m.Coherent key asked answer limit default) (now : Binary64) (name : String) :
    (m.expiring now name).Coherent key asked answer limit default where
  configured := h.configured.expiring now name
  nodup := nodup_expiring now name h.nodup
  page hfound := h.page (lookup_of_expiring hfound)

theorem dropping (h : m.Coherent key asked answer limit default) (name : String) :
    (m.dropping name).Coherent key asked answer limit default where
  configured := h.configured.dropping name
  nodup := nodup_dropping name h.nodup
  page {other entry} hfound := by
    by_cases hother : other = name
    · subst hother
      exact absurd ((lookup_without_self other m.entries).symm.trans hfound) (by simp)
    · exact h.page ((lookup_without_of_ne hother m.entries).symm.trans hfound)

theorem writing (h : m.Coherent key asked answer limit default) {r : Request} (hasked : asked r)
    (now : Binary64) (seconds : Int) :
    (m.writing limit (key r) (fresh? now (.page (answer r)) seconds)).Coherent
      key asked answer limit default where
  configured := h.configured.writing (key r) _
  nodup := nodup_writing _ (key r) h.nodup
  page {other entry} hfound := by
    by_cases hother : other = key r
    · subst hother
      rw [lookup_writing_self, fresh?, Option.map_eq_some_iff] at hfound
      obtain ⟨expiry, _, rfl⟩ := hfound
      exact ⟨r, hasked, rfl, rfl⟩
    · rw [lookup_writing_of_ne hother] at hfound
      exact h.page (lookup_room h.nodup hfound)

end Memory.Coherent

/-! ## steps of one query -/

namespace Keeper

variable {T : Type}

def task (k : Keeper T) (key : Request → String) (r : Request) : Task (Site T) PagedResponse :=
  k.inner.counted.cachedTask (Site.store k.clock) (Builder.usableKey (key r)) (.int k.lifetime) r .null

theorem task_alone (k : Keeper T) (key : Request → String) (r : Request) (w : Logged (Site T)) :
    (k.task key r).alone.runOn w = ((k.keyed key).query r .null).runOn w :=
  Builder.cachedTask_alone _ _ _ _ r .null w

/-- The builder inside answers each of the requests with one response, whatever happens between its
steps as long as the data stay as they are, and requests with the same key are the same. -/
structure Settled (k : Keeper T) (key : Request → String) (asked : Request → Prop) (data : T → Prop)
    (answer : Request → PagedResponse) : Prop where
  gives {r : Request} (h : asked r) : k.inner.Gives data (· = answer r) r
  keys {r r' : Request} (h : asked r) (h' : asked r') (hkey : key r ≠ "") (hsame : key r = key r') :
    r = r'

/-- the data are as they were, and the memory holds responses to requests under their keys -/
def Coherent (key : Request → String) (asked : Request → Prop) (data : T → Prop)
    (answer : Request → PagedResponse) (limit : Option Nat) (default : Int) (s : Site T) : Prop :=
  data s.inner ∧ s.memory.Coherent key asked answer limit default

variable {k : Keeper T} {key : Request → String} {asked : Request → Prop} {data : T → Prop}
  {answer : Request → PagedResponse} {limit : Option Nat} {default : Int} {r : Request}

theorem ofInner_gives {α : Type} {post : α → Prop} {a : Action T α} (h : a.Gives data post) :
    (Site.ofInner a).Gives (Coherent key asked data answer limit default) post := by
  rintro ⟨s, log⟩ ⟨hdata, hmemory⟩
  obtain ⟨x, after, hrun, hafter, hx⟩ := h ⟨s.inner, log⟩ hdata
  refine ⟨x, ⟨{ s with inner := after.state }, after.log⟩, ?_, ⟨hafter, hmemory⟩, hx⟩
  unfold Site.ofInner
  rw [Action.runOn_within, hrun]

theorem counted_gives {b : Builder T} {post : PagedResponse → Prop} (h : b.Gives data post r) :
    b.counted.Gives (Coherent key asked data answer limit default) post r := by
  have hcount : (Action.update fun s : Site T => { s with asked := s.asked + 1 }).Gives
      (Coherent key asked data answer limit default) fun _ => True :=
    .update fun s hs => hs
  refine hcount.bind fun _ _ => (ofInner_gives h).bind fun p hp => .pure ?_
  cases p with
  | answered response => exact hp
  | fetching fetch =>
    exact (ofInner_gives hp).bind fun conclude hconclude => .pure (ofInner_gives hconclude)

/-- what is found under the key of a request is the response to it -/
theorem lookup_gives (hsettled : k.Settled key asked data answer) (hasked : asked r)
    (hkey : key r ≠ "") :
    ((Site.store k.clock).lookup (key r)).Gives (Coherent key asked data answer limit default)
      fun found => ∀ response ∈ found, response = answer r := by
  rintro ⟨s, log⟩ ⟨hdata, hmemory⟩
  cases halive : s.memory.alive? (k.clock s.inner) (key r) with
  | none =>
    refine ⟨_, _, lookup_of_getPage (getPage_missed halive log), ⟨hdata, hmemory.expiring _ _⟩, ?_⟩
    intro response hresponse
    cases hresponse
  | some entry =>
    obtain ⟨content, expiry⟩ := entry
    obtain ⟨r', hasked', hname, rfl⟩ := hmemory.page (Memory.alive?_eq_some.mp halive).1
    refine ⟨_, _, lookup_of_getPage (getPage_alive halive log), ⟨hdata, hmemory⟩, ?_⟩
    intro response hresponse
    cases hresponse
    rw [hsettled.keys hasked hasked' hkey hname.symm]

theorem keep_gives (hlimit : ∀ n ∈ limit, 1 ≤ n) (hasked : asked r) :
    ((Site.store k.clock).keep (key r) (.int k.lifetime) (answer r)).Gives
      (Coherent key asked data answer limit default) (· = answer r) := by
  rintro ⟨s, log⟩ ⟨hdata, hmemory⟩
  let written := s.memory.writing limit (key r)
    (Memory.fresh? (k.clock s.inner) (.page (answer r)) k.lifetime)
  have hkeep : ∃ log', ((Site.store k.clock).keep (key r) (.int k.lifetime) (answer r)).runOn ⟨s, log⟩
      = (.ok (answer r), ⟨{ s with memory := written }, log'⟩) :=
    keep_eq hmemory.configured hlimit (key r) (answer r) k.lifetime log
  obtain ⟨log', hkeep⟩ := hkeep
  exact ⟨_, _, hkeep, ⟨hdata, hmemory.writing hasked _ _⟩, rfl⟩

theorem task_gives (hsettled : k.Settled key asked data answer) (hlimit : ∀ n ∈ limit, 1 ≤ n)
    (hasked : asked r) :
    (k.task key r).Gives (Coherent key asked data answer limit default) (· = answer r) 6 := by
  have hask : k.inner.counted.Gives (Coherent key asked data answer limit default) (· = answer r) r :=
    counted_gives (hsettled.gives hasked)
  unfold task
  by_cases hkey : key r = ""
  · rw [Builder.usableKey, if_pos hkey]
    exact hask.task.mono (by decide)
  · rw [Builder.usableKey, if_neg hkey]
    refine (Task.Gives.step (lookup_gives hsettled hasked hkey)).bind (m := 5) fun found hfound => ?_
    cases found with
    | some response => exact .pure (hfound response rfl)
    | none =>
      refine (Task.Gives.step (.report _ _ _)).bind (m := 4) fun _ _ => ?_
      refine hask.task.bind (m := 1) fun response hresponse => ?_
      subst hresponse
      exact .step (keep_gives hlimit hasked)

theorem keyed_gives (hsettled : k.Settled key asked data answer) (hlimit : ∀ n ∈ limit, 1 ≤ n)
    (hasked : asked r) :
    (k.keyed key).Gives (Coherent key asked data answer limit default) (· = answer r) r := by
  have hask : k.inner.counted.Gives (Coherent key asked data answer limit default) (· = answer r) r :=
    counted_gives (hsettled.gives hasked)
  have hname : (Action.ofOutcome (.ok (key r)) : Action (Site T) String).Gives
      (Coherent key asked data answer limit default) (· = key r) := .ofOutcome rfl
  refine hname.bind fun name hname => ?_
  subst hname
  unfold Builder.prepareCached
  by_cases hkey : key r = ""
  · rw [Builder.usableKey, if_pos hkey]
    exact hask
  · rw [Builder.usableKey, if_neg hkey]
    refine (lookup_gives hsettled hasked hkey).bind fun found hfound => ?_
    cases found with
    | some response => exact .pure (hfound response rfl)
    | none =>
      refine (Action.Gives.report _ _ _).bind fun _ _ => hask.bind fun p hp => ?_
      refine hp.andThen fun response hresponse => ?_
      subst hresponse
      exact keep_gives hlimit hasked

/-! ## any number of queries -/

/-- what may happen between the steps of queries: an entry is given up, or the builder inside, its
clock included, comes into another state -/
inductive Disturbance (T : Type) where
  | invalidate (name : String)
  | meanwhile (change : T → T)

def disturb (k : Keeper T) : Disturbance T → Action (Site T) Unit
  | .invalidate name => (Site.store k.clock).invalidate name
  | .meanwhile change => Action.update fun s => { s with inner := change s.inner }

theorem disturb_gives {d : Disturbance T}
    (h : ∀ change, d = .meanwhile change → ∀ s, data s → data (change s)) :
    (k.disturb d).Gives (Coherent key asked data answer limit default) fun _ => True := by
  cases d with
  | invalidate name =>
    rintro w ⟨hdata, hmemory⟩
    exact ⟨(), _, rfl, ⟨hdata, hmemory.dropping name⟩, trivial⟩
  | meanwhile change =>
    have hchange : ∀ s : Site T, Coherent key asked data answer limit default s →
        Coherent key asked data answer limit default { s with inner := change s.inner } :=
      fun s hs => ⟨h change rfl s.inner hs.1, hs.2⟩
    exact Action.Gives.update hchange

/-- Take named queries, each in steps, over a memory with room for any number of responses, or for a
number that is not zero, that holds responses to requests under their keys.  After any steps of the
queries in any order, with invalidations and changes that leave the data as they are in between, the
memory still does; every query that has ended has the answer of the builder inside, and six steps are
enough for it.  When all have ended, every name that was given comes with the answer to the last
request under it, where the name was given first, and no other name comes at all; and the queries of a
batch are answered so, with any such change while they fetch. -/
theorem batch_coherent (hsettled : k.Settled key asked data answer) (hlimit : ∀ n ∈ limit, 1 ≤ n)
    {queries : List (String × Request)} (hasked : ∀ q ∈ queries, asked q.2) {start : Site T}
    (hstart : Coherent key asked data answer limit default start) (log : List LogEntry)
    {moves : List (Move (Disturbance T))}
    (hmoves : ∀ change, .outside (.meanwhile change) ∈ moves → ∀ s, data s → data (change s)) :
    let tasks := queries.map fun q => k.task key q.2
    let after := Underway.run k.disturb ⟨tasks, ⟨start, log⟩⟩ moves
    after.world.state.memory.Coherent key asked answer limit default ∧
    (∀ (i : Nat) (result : Outcome PagedResponse), after.tasks[i]? = some (.finished result) →
      ∃ q, queries[i]? = some q ∧ result = .ok (answer q.2)) ∧
    (∀ i < queries.length, 6 ≤ Move.steps i moves →
      ∃ response : PagedResponse, after.tasks[i]? = some (.finished (.ok response))) ∧
    (∀ responses : List PagedResponse,
      after.tasks = responses.map (fun response => .finished (.ok response)) →
      Builder.Replies answer queries (Builder.named ((queries.map (·.1)).zip responses))) ∧
    ∀ d, (∀ change, d = .meanwhile change → ∀ s, data s → data (change s)) →
      ∃ answers after, ((k.keyed key).batch (k.disturb d) queries).runOn ⟨start, log⟩
          = (.ok answers, after) ∧
        Builder.Replies answer queries answers ∧
        after.state.memory.Coherent key asked answer limit default := by
  intro tasks after
  let post (i : Nat) (response : PagedResponse) : Prop :=
    ∃ q, queries[i]? = some q ∧ response = answer q.2
  have hbefore : (⟨tasks, ⟨start, log⟩⟩ : Underway (Site T)).Gives
      (Coherent key asked data answer limit default) post fun _ => 6 := by
    refine ⟨hstart, fun {i t} ht => ?_⟩
    rw [List.getElem?_map, Option.map_eq_some_iff] at ht
    obtain ⟨q, hq, rfl⟩ := ht
    exact (task_gives hsettled hlimit (hasked q (List.mem_of_getElem? hq))).weaken
      fun response hresponse => ⟨q, hq, hresponse⟩
  have hafter : after.Gives (Coherent key asked data answer limit default) post
      fun i => 6 - Move.steps i moves :=
    Underway.gives_run hbefore fun d hd => disturb_gives fun change hchange =>
      hmoves change (hchange ▸ hd)
  have hresult : ∀ (i : Nat) (result : Outcome PagedResponse),
      after.tasks[i]? = some (.finished result) →
        ∃ q, queries[i]? = some q ∧ result = .ok (answer q.2) := by
    intro i result hi
    obtain ⟨response, rfl, q, hq, rfl⟩ := hafter.task hi
    exact ⟨q, hq, rfl⟩
  have hlength : after.tasks.length = queries.length :=
    (Underway.length_run _ _ moves).trans (List.length_map _)
  refine ⟨hafter.world.2, hresult, ?_, ?_, ?_⟩
  · intro i hi hsteps
    have hgives := hafter.task (List.getElem?_eq_getElem (hlength.symm ▸ hi))
    rw [Nat.sub_eq_zero_of_le hsteps] at hgives
    obtain ⟨response, hended, _⟩ := hgives.ended
    exact ⟨response, hended ▸ List.getElem?_eq_getElem (hlength.symm ▸ hi)⟩
  · intro responses hresponses
    have heq : responses = queries.map fun q => answer q.2 := by
      refine List.ext_getElem (by simpa [hresponses] using hlength) ?_
      intro i hi _
      obtain ⟨q, hq, hok⟩ := hresult i (.ok responses[i]) (by
        rw [hresponses, List.getElem?_map, List.getElem?_eq_getElem hi, Option.map_some])
      obtain ⟨_, rfl⟩ := List.getElem?_eq_some_iff.mp hq
      rw [List.getElem_map]
      exact Except.ok.inj hok
    rw [heq]
    exact Builder.replies_named answer queries
  · intro d hd
    obtain ⟨answers, later, hrun, hlater, rfl⟩ := Builder.batch_gives (disturb_gives hd)
      (fun q hq => keyed_gives hsettled hlimit (hasked q hq)) ⟨start, log⟩ hstart
    exact ⟨_, later, hrun, Builder.replies_named answer queries, hlater.2⟩

end Keeper

/-! ## over collections -/

/-- an action that only reads gives what it reads where the invariant says what that is -/
theorem Action.Reads.gives {S α : Type} {inv : S → Prop} {post : α → Prop} {a : Action S α}
    {answer : S → Outcome α} (ha : a.Reads answer)
    (h : ∀ s, inv s → ∃ x, answer s = .ok x ∧ post x) : a.Gives inv post := by
  intro w hw
  obtain ⟨hanswer, hstate⟩ := ha w
  obtain ⟨x, hx, hpost⟩ := h w.state hw
  refine ⟨x, (a.runOn w).2, Prod.ext (hanswer.trans hx) rfl, ?_, hpost⟩
  rw [hstate]
  exact hw

theorem Builder.base_gives {S : Type} (store : S → Store) {config : Config} {collections : Store}
    {r : Request} {response : PagedResponse}
    (h : collections.answerPage config r .null = .ok response) :
    (base config (.ofStore store)).Gives (fun s => store s = collections) (· = response) r := by
  obtain ⟨plan, hplan, h⟩ := Outcome.bind_eq_ok.mp h
  obtain ⟨entry, hentry, h⟩ := Outcome.bind_eq_ok.mp h
  obtain ⟨countPlan, hcountPlan, h⟩ := Outcome.bind_eq_ok.mp h
  have hfind : ((Executor.ofStore store).find plan).Reads fun s => (store s).find plan :=
    Action.Reads.read.bind fun s => Action.Reads.lift ((store s).find plan)
  have hcount : ((Executor.ofStore store).count countPlan).Reads fun s => (store s).count countPlan :=
    Action.Reads.read.bind fun s => Action.Reads.lift ((store s).count countPlan)
  let fetching (plan countPlan : Plan) : Prepared S := .fetching do
    let rows ← Action.attempt ((Executor.ofStore store).find plan)
    let total ← Action.attempt ((Executor.ofStore store).count countPlan)
    return Action.ofOutcome (concludePage config r plan rows total)
  have hprepare : (preparePage config (.ofStore store) r .null).Reads fun _ => (do
      let plan ← Plan.ofPage config r .null
      let _ ← plan.announcement "offset"
      let countPlan ← Plan.ofCount r
      return fetching plan countPlan) :=
    (Action.Reads.lift _).bind fun plan => announce_bind_reads <|
      (Action.Reads.lift _).bind fun countPlan => Action.Reads.pure _
  have hprepared : (do
      let plan ← Plan.ofPage config r .null
      let _ ← plan.announcement "offset"
      let countPlan ← Plan.ofCount r
      return fetching plan countPlan : Outcome (Prepared S)) = .ok (fetching plan countPlan) := by
    rw [hplan, Outcome.ok_bind, hentry, Outcome.ok_bind, hcountPlan]
    rfl
  refine hprepare.gives fun s hs => ⟨_, hprepared, ?_⟩
  have hrows : (Action.attempt ((Executor.ofStore store).find plan)).Gives
      (store · = collections) (· = collections.find plan) :=
    hfind.attempt.gives fun s hs => ⟨_, rfl, by rw [hs]⟩
  have htotal : (Action.attempt ((Executor.ofStore store).count countPlan)).Gives
      (store · = collections) (· = collections.count countPlan) :=
    hcount.attempt.gives fun s hs => ⟨_, rfl, by rw [hs]⟩
  refine hrows.bind fun rows hrows => htotal.bind fun total htotal => .pure ?_
  rw [hrows, htotal, h]
  exact .ofOutcome rfl

/-- four queries for two pages in turn, with two of them under one name, over a memory with room for
one response that is given up and outlived on the way -/
theorem Keeper.batch_coherent_four :
    let collections : Store := ⟨[(.str "m", [.record [("id", .int 1)], .record [("id", .int 2)]])]⟩
    let k : Keeper (Store × Int) :=
      ⟨Builder.base {} (.ofStore Prod.fst), fun s => .exactly s.2, 60⟩
    let first : Request := { model := some "m", limit := some 1 }
    let second : Request := { model := some "m", page := some 2, limit := some 1 }
    let key (r : Request) : String := if r.page = some 2 then "second" else "first"
    let asked (r : Request) : Prop := r = first ∨ r = second
    let data (s : Store × Int) : Prop := s.1 = collections
    let answer (r : Request) : PagedResponse :=
      { data := [.record [("id", .int (r.page.getD 1))]], counts := ⟨2, r.page.getD 1, 1, 2⟩ }
    let queries := [("a", first), ("b", second), ("a", second), ("c", first)]
    let start : Site (Store × Int) := ⟨(collections, 0), 0, .empty (some 1) 300⟩
    let round : List (Move (Disturbance (Store × Int))) := (List.range 4).map .step
    let moves := round ++ round ++ [.outside (.invalidate "first")] ++ round ++ round ++
      [.outside (.meanwhile fun s => (s.1, s.2 + 100))] ++ round ++ round
    let after := Underway.run k.disturb ⟨queries.map fun q => k.task key q.2, ⟨start, []⟩⟩ moves
    k.Settled key asked data answer ∧ (∀ n ∈ some 1, 1 ≤ n) ∧ (∀ q ∈ queries, asked q.2) ∧
      Coherent key asked data answer (some 1) 300 start ∧
      (∀ change, .outside (.meanwhile change) ∈ moves → ∀ s, data s → data (change s)) ∧
      after.world.state.memory.Coherent key asked answer (some 1) 300 ∧
      (∀ i < 4, ∃ q, queries[i]? = some q ∧
        after.tasks[i]? = some (.finished (.ok (answer q.2)))) ∧
      ∃ answers after, ((k.keyed key).batch (k.disturb (.invalidate "first")) queries).runOn ⟨start, []⟩
          = (.ok answers, after) ∧
        answers.map (·.1) = ["a", "b", "c"] ∧ ("a", answer second) ∈ answers ∧
          ("b", answer second) ∈ answers ∧ ("c", answer first) ∈ answers := by
  intro collections k first second key asked data answer queries start round moves after
  have hsettled : k.Settled key asked data answer := by
    refine ⟨?_, ?_⟩
    · rintro r (rfl | rfl)
      · exact Builder.base_gives Prod.fst rfl
      · exact Builder.base_gives Prod.fst rfl
    · rintro r r' (rfl | rfl) (rfl | rfl) - hsame
      · rfl
      · exact absurd hsame (by decide)
      · exact absurd hsame (by decide)
      · rfl
  have hlimit : ∀ n ∈ some 1, 1 ≤ n := by simp
  have hasked : ∀ q ∈ queries, asked q.2 := by simp [queries, asked]
  have hstart : Coherent key asked data answer (some 1) 300 start := ⟨rfl, .empty⟩
  have hmoves : ∀ change, .outside (.meanwhile change) ∈ moves → ∀ s, data s → data (change s) := by
    intro change hchange
    have heq : change = fun s => (s.1, s.2 + 100) := by
      simpa [moves, round] using hchange
    exact heq ▸ fun s hs => hs
  obtain ⟨hmemory, hresult, hsteps, -, hbatch⟩ :=
    batch_coherent hsettled hlimit hasked hstart [] hmoves
  have henough : ∀ i < 4, 6 ≤ Move.steps i moves := by
    intro i hi
    match i, hi with
    | 0, _ | 1, _ | 2, _ | 3, _ => exact Nat.le_refl 6
  dsimp only [after]
  refine ⟨hsettled, hlimit, hasked, hstart, hmoves, hmemory, ?_, ?_⟩
  · intro i hi
    obtain ⟨response, hresponse⟩ := hsteps i hi (henough i hi)
    obtain ⟨q, hq, hok⟩ := hresult i _ hresponse
    exact ⟨q, hq, hok ▸ hresponse⟩
  · obtain ⟨answers, later, hrun, hreplies, -⟩ := hbatch (.invalidate "first") nofun
    refine ⟨answers, later, hrun, hreplies.order, ?_, ?_, ?_⟩
    · exact hreplies.last.mpr
        ⟨second, ⟨[("a", first), ("b", second)], [("c", first)], rfl, by decide⟩, rfl⟩
    · exact hreplies.last.mpr
        ⟨second, ⟨[("a", first)], [("a", second), ("c", first)], rfl, by decide⟩, rfl⟩
    · exact hreplies.last.mpr
        ⟨first, ⟨[("a", first), ("b", second), ("a", second)], [], rfl, by decide⟩, rfl⟩

end ListQuery
