import ListQuery.Builder.Exported
import ListQuery.Cache.Key
import ListQuery.Proofs.Answers
import ListQuery.Proofs.Cache.ReadThrough

/-!
# Caps on the page size behind a cache

A query may come with a cap that stands in for the greatest page size.  The key of a response is made
from the request alone, so a response that was kept under one cap is served under every other.  With
keys that tell requests apart, the response that is served is the one that the first call with the
request got, and it is the one that the builder inside would give if and only if the two caps come to
the same page size.

* `Visit`                    one call, with the state of the builder inside when it is made;
* `Keeper.visited`           a run of calls;
* `Keeper.leader`            the call whose response is served;
* `Keeper.Holds`             the invariant: the memory holds the responses of the first calls;
* `Keeper.visit_served`      one call;
* `Keeper.served_iff`        when a call is answered as the builder inside would answer it;
* `Keeper.export_cut`        an export that a kept response cuts short.
-/

namespace ListQuery

/-! ## page sizes -/

theorem PagedResponse.limit_of_shape {data : List Value} {total page : Value} {limit : Int}
    {response : PagedResponse} (h : shape (.list data) total page (.int limit) = .ok response) :
    response.counts.limit = limit := by
  unfold shape at h
  rw [Outcome.bind_eq_ok] at h
  obtain ⟨rows, _, h⟩ := h
  rw [Outcome.bind_eq_ok] at h
  obtain ⟨pages, _, h⟩ := h
  rw [Outcome.bind_eq_ok] at h
  obtain ⟨counts, hcounts, h⟩ := h
  cases h
  rw [Checked.orFault_eq_ok, checkCounts, Checked.seq_eq_valid] at hcounts
  obtain ⟨_, pages, hcounts, _, rfl⟩ := hcounts
  rw [Checked.seq_eq_valid] at hcounts
  obtain ⟨_, shown, hcounts, hlimit, rfl⟩ := hcounts
  rw [Checked.seq_eq_valid] at hcounts
  obtain ⟨_, page, hcounts, _, rfl⟩ := hcounts
  obtain ⟨total, _, rfl⟩ := Checked.map_eq_valid.mp hcounts
  cases hlimit
  rfl

namespace Store

variable {s : Store} {config : Config} {r : Request} {default most : Int}

theorem normalizeLimit_capped (hdefault : config.defaultLimit = .int default)
    (hmost : config.maxLimit = .int most) (cap : Option Int) :
    normalizeLimit (.ofInt? r.limit) config.defaultLimit
        (Plan.unlessNull (.ofInt? cap) config.maxLimit)
      = .ok (.int (pageSize r.limit default (cap.getD most))) := by
  have hcap : Plan.unlessNull (.ofInt? cap) (.int most) = .int (cap.getD most) := by
    cases cap <;> rfl
  rw [hdefault, hmost, hcap]
  exact normalizeLimit_ofInt? r.limit default (cap.getD most)

/-- caps that come to the same page size come to the same answer -/
theorem answerPage_capped (hdefault : config.defaultLimit = .int default)
    (hmost : config.maxLimit = .int most) {cap other : Option Int}
    (h : pageSize r.limit default (cap.getD most) = pageSize r.limit default (other.getD most)) :
    s.answerPage config r (.ofInt? cap) = s.answerPage config r (.ofInt? other) := by
  unfold answerPage Plan.ofPage Window.offset
  rw [normalizeLimit_capped hdefault hmost, normalizeLimit_capped hdefault hmost, h]

theorem counts_limit (hdefault : config.defaultLimit = .int default)
    (hmost : config.maxLimit = .int most) {cap : Option Int} {response : PagedResponse}
    (h : s.answerPage config r (.ofInt? cap) = .ok response) :
    response.counts.limit = pageSize r.limit default (cap.getD most) := by
  unfold answerPage Plan.ofPage Window.offset at h
  rw [normalizeLimit_capped hdefault hmost] at h
  obtain ⟨plan, hplan, h⟩ := Outcome.bind_eq_ok.mp h
  obtain ⟨_, _, h⟩ := Outcome.bind_eq_ok.mp h
  obtain ⟨_, _, h⟩ := Outcome.bind_eq_ok.mp h
  obtain ⟨_, _, hplan⟩ := Outcome.bind_eq_ok.mp hplan
  obtain ⟨window, hwindow, hplan⟩ := Outcome.bind_eq_ok.mp hplan
  obtain ⟨_, _, hwindow⟩ := Outcome.bind_eq_ok.mp hwindow
  obtain ⟨_, hlimit, hwindow⟩ := Outcome.bind_eq_ok.mp hwindow
  obtain ⟨_, _, hwindow⟩ := Outcome.bind_eq_ok.mp hwindow
  obtain ⟨_, _, hwindow⟩ := Outcome.bind_eq_ok.mp hwindow
  cases hlimit
  cases hwindow
  cases hplan
  unfold Builder.concludePage at h
  obtain ⟨_, _, h⟩ := Outcome.bind_eq_ok.mp h
  obtain ⟨_, _, h⟩ := Outcome.bind_eq_ok.mp h
  obtain ⟨_, _, h⟩ := Outcome.bind_eq_ok.mp h
  exact PagedResponse.limit_of_shape h

end Store

/-! ## calls -/

/-- a query with a cap, and the state of the builder inside when it is made -/
structure Visit (T : Type) where
  world : T
  request : Request
  cap : Option Int

variable {T : Type}

def Visit.bare (v : Visit T) (b : Builder T) : Outcome PagedResponse :=
  ((b.query v.request (.ofInt? v.cap)).runOn ⟨v.world, []⟩).1

namespace Keeper

variable (k : Keeper T) (key : Request → String)

/-- the builder that keeps responses under the keys of their requests -/
def keyed : Builder (Site T) :=
  k.inner.counted.cached (Site.store k.clock) (.int k.lifetime) (some fun r => .ok (key r))

/-- one call; in the meantime the builder inside has come into the state of the call -/
def visit (s : Site T) (v : Visit T) : Outcome PagedResponse × Logged (Site T) :=
  ((k.keyed key).query v.request (.ofInt? v.cap)).runOn ⟨{ s with inner := v.world }, []⟩

/-- the state after some calls -/
def visited (s : Site T) (past : List (Visit T)) : Site T :=
  past.foldl (fun s v => (k.visit key s v).2.state) s

/-- the first call under a key that the builder inside has an answer to -/
def first? (past : List (Visit T)) (name : String) : Option (Visit T) :=
  past.find? fun u => key u.request == name && (u.bare k.inner).isOk

/-- the call whose response is served: the first one under the same key, or the call itself -/
def leader (past : List (Visit T)) (v : Visit T) : Visit T :=
  (k.first? key past (key v.request)).getD v

/-- every response lives through all the calls -/
def Lively (visits : List (Visit T)) : Prop :=
  ∀ u ∈ visits, ∃ expiry, Memory.after (k.clock u.world) (.int k.lifetime) = .ok expiry ∧
    ∀ v ∈ visits, k.clock v.world ≤ expiry

def deposit? (u : Visit T) : Option MemoryEntry :=
  (u.bare k.inner).toOption.bind fun response =>
    Memory.fresh? (k.clock u.world) (.page response) k.lifetime

/-- the memory has no limit and holds the response of the first call under each key -/
structure Holds (default : Int) (past : List (Visit T)) (m : Memory) : Prop where
  configured : m.Configured none default
  found (name : String) :
    Memory.lookup name m.entries = (k.first? key past name).bind k.deposit?

variable {k key} {past : List (Visit T)} {v : Visit T} {s : Site T} {default : Int}

theorem visit_eq (s : Site T) (v : Visit T) : k.visit key s v
    = (k.query ⟨v.request, some (key v.request), none, true, .ofInt? v.cap⟩).runOn
      ⟨{ s with inner := v.world }, []⟩ := by
  rfl

theorem first?_concat (past : List (Visit T)) (v : Visit T) (name : String) :
    k.first? key (past ++ [v]) name = (k.first? key past name).or
      (if key v.request = name ∧ (v.bare k.inner).isOk = true then some v else none) := by
  unfold first?
  rw [List.find?_append]
  congr 1
  rw [List.find?_cons, List.find?_nil]
  by_cases h : key v.request = name ∧ (v.bare k.inner).isOk = true
  · rw [if_pos h]
    simp [h.1, h.2]
  · rw [if_neg h]
    have hfalse : (key v.request == name && (v.bare k.inner).isOk) = false := by
      rw [Bool.and_eq_false_iff, beq_eq_false_iff_ne]
      by_cases hname : key v.request = name
      · exact .inr (Bool.eq_false_iff.mpr fun hok => h ⟨hname, hok⟩)
      · exact .inl hname
    rw [hfalse]

theorem deposit?_alive (hlively : k.Lively (past ++ [v])) {u : Visit T} {name : String}
    (hfirst : k.first? key past name = some u) :
    ∃ response expiry, u.bare k.inner = .ok response ∧
      k.deposit? u = some ⟨.page response, expiry⟩ ∧ k.clock v.world ≤ expiry := by
  have hmem := List.mem_of_find?_eq_some hfirst
  have hkeyed : (key u.request == name && (u.bare k.inner).isOk) = true :=
    List.find?_some (p := fun u : Visit T => key u.request == name && (u.bare k.inner).isOk) hfirst
  obtain ⟨expiry, hexpiry, hlater⟩ := hlively u (List.mem_append_left _ hmem)
  have hok := (Bool.and_eq_true_iff.mp hkeyed).2
  cases hbare : u.bare k.inner with
  | error e => rw [hbare] at hok; cases hok
  | ok response =>
    refine ⟨response, expiry, rfl, ?_, hlater v (by simp)⟩
    rw [deposit?, hbare]
    show Memory.fresh? (k.clock u.world) (.page response) k.lifetime = _
    rw [Memory.fresh?, hexpiry]
    rfl

theorem first?_same (past : List (Visit T)) {name : String} {u : Visit T}
    (h : k.first? key past name = some u) : k.first? key (past ++ [v]) name = some u := by
  rw [first?_concat, h, Option.some_or]

theorem first?_other (past : List (Visit T)) {name : String} (h : name ≠ key v.request) :
    k.first? key (past ++ [v]) name = k.first? key past name := by
  rw [first?_concat, if_neg fun hname => h hname.1.symm, Option.or_none]

theorem visit_kept (hlively : k.Lively (past ++ [v])) (hkey : key v.request ≠ "")
    (h : k.Holds key default past s.memory) {u : Visit T}
    (hfirst : k.first? key past (key v.request) = some u) :
    (k.visit key s v).1 = u.bare k.inner ∧
      k.Holds key default (past ++ [v]) (k.visit key s v).2.state.memory := by
  obtain ⟨response, expiry, hbare, hentry, hnow⟩ := deposit?_alive hlively hfirst
  obtain ⟨hnumber, hnumber', _⟩ := Binary64.le_iff.mp hnow
  have halive : s.memory.alive? (k.clock v.world) (key v.request) = some ⟨.page response, expiry⟩ := by
    refine Memory.alive?_eq_some.mpr ⟨?_, (Binary64.exceeds_eq_false_iff hnumber hnumber').mpr hnow⟩
    rw [h.found, hfirst]
    exact hentry
  have hrun : k.visit key s v = _ := (visit_eq s v).trans
    (query_alive k (KeyedQuery.usable_eq_some.mpr ⟨rfl, rfl, hkey⟩) (s := { s with inner := v.world })
      halive [])
  rw [hrun]
  refine ⟨hbare.symm, h.configured, fun name => (h.found name).trans ?_⟩
  by_cases hname : name = key v.request
  · rw [hname, first?_same past hfirst, hfirst]
  · rw [first?_other past hname]

/-- a call whose response is not there is answered by the builder inside, and its response is kept if
there is one -/
theorem visit_new (hreads : ∀ r maxLimit, ∃ answer, (k.inner.query r maxLimit).Reads answer)
    (hkey : key v.request ≠ "") (h : k.Holds key default past s.memory)
    (hfirst : k.first? key past (key v.request) = none) :
    (k.visit key s v).1 = v.bare k.inner ∧
      k.Holds key default (past ++ [v]) (k.visit key s v).2.state.memory := by
  let q : KeyedQuery := ⟨v.request, some (key v.request), none, true, .ofInt? v.cap⟩
  let site : Site T := { s with inner := v.world }
  have hnone : Memory.lookup (key v.request) s.memory.entries = none := by
    rw [h.found, hfirst]
    rfl
  have hdead : site.memory.alive? (k.clock v.world) (key v.request) = none := by
    rw [Memory.alive?, hnone]
    rfl
  obtain ⟨log, hmissed⟩ := query_missed k (q := q) (s := site) (KeyedQuery.usable_eq_some.mpr ⟨rfl, rfl, hkey⟩)
    h.configured (by simp) hdead []
  obtain ⟨answer, hanswer⟩ := hreads v.request (.ofInt? v.cap)
  have hbare : v.bare k.inner = answer v.world := (hanswer ⟨v.world, []⟩).1
  obtain ⟨hasked, hstate⟩ : (k.ask q site (q.announced [])).1 = answer v.world ∧
      (k.ask q site (q.announced [])).2.state = v.world := hanswer ⟨v.world, q.announced []⟩
  have hrun : k.visit key s v = _ := (visit_eq s v).trans hmissed
  rw [hrun]
  refine ⟨hasked.trans hbare.symm, ?_⟩
  show k.Holds key default (past ++ [v])
    (k.memoryAfter none q (key v.request) site (k.ask q site (q.announced [])))
  unfold memoryAfter
  rw [hasked, ← hbare, hstate]
  have hother {name : String} (hname : name ≠ key v.request) :
      Memory.lookup name (s.memory.expiring (k.clock v.world) (key v.request)).entries
        = (k.first? key (past ++ [v]) name).bind k.deposit? := by
    rw [Memory.lookup_expiring, if_neg hname, first?_other past hname]
    exact h.found name
  have hself : k.first? key (past ++ [v]) (key v.request)
      = if (v.bare k.inner).isOk = true then some v else none := by
    rw [first?_concat, hfirst, Option.none_or]
    simp
  cases hresponse : v.bare k.inner with
  | error e =>
    refine ⟨h.configured.expiring _ _, fun name => ?_⟩
    by_cases hname : name = key v.request
    · rw [hname, hself, hresponse]
      exact (Memory.lookup_expiring _ _ _ _).trans ((if_pos rfl).trans hdead)
    · exact hother hname
  | ok response =>
    refine ⟨(h.configured.expiring _ _).writing _ _, fun name => ?_⟩
    by_cases hname : name = key v.request
    · rw [hname, hself, hresponse]
      show Memory.lookup _ _ = k.deposit? v
      rw [Memory.lookup_writing_self, deposit?, hresponse]
      rfl
    · rw [Memory.lookup_writing_of_ne hname, Memory.room_unlimited]
      exact hother hname

/-- a call after others: the first call under its key is served, and the memory holds what that one
left -/
theorem visit_served (hreads : ∀ r maxLimit, ∃ answer, (k.inner.query r maxLimit).Reads answer)
    (hlively : k.Lively (past ++ [v])) (hkey : key v.request ≠ "")
    (h : k.Holds key default past s.memory) :
    (k.visit key s v).1 = (k.leader key past v).bare k.inner ∧
      k.Holds key default (past ++ [v]) (k.visit key s v).2.state.memory := by
  unfold leader
  cases hfirst : k.first? key past (key v.request) with
  | some u => exact visit_kept hlively hkey h hfirst
  | none => exact visit_new hreads hkey h hfirst

/-! ## a run -/

theorem Lively.earlier (h : k.Lively (past ++ [v])) : k.Lively past := by
  intro u hu
  obtain ⟨expiry, hexpiry, hlater⟩ := h u (List.mem_append_left _ hu)
  exact ⟨expiry, hexpiry, fun w hw => hlater w (List.mem_append_left _ hw)⟩

/-- after any calls the memory holds the responses of the first ones -/
theorem holds_visited (hreads : ∀ r maxLimit, ∃ answer, (k.inner.query r maxLimit).Reads answer)
    (start : T) (hlively : k.Lively past) (hkeys : ∀ u ∈ past, key u.request ≠ "") :
    k.Holds key default past (k.visited key ⟨start, 0, .empty none default⟩ past).memory := by
  induction past using List.reverseRecOn with
  | nil => exact ⟨Memory.configured_empty none default, fun _ => rfl⟩
  | append_singleton past v ih =>
    rw [visited, List.foldl_append]
    have hpast := ih hlively.earlier fun u hu => hkeys u (List.mem_append_left _ hu)
    exact (visit_served hreads hlively (hkeys v (by simp)) hpast).2

theorem leader_cases (past : List (Visit T)) (v : Visit T) :
    k.leader key past v = v ∨
      (k.leader key past v ∈ past ∧ key (k.leader key past v).request = key v.request ∧
        ∃ response, (k.leader key past v).bare k.inner = .ok response) := by
  unfold leader
  cases hfirst : k.first? key past (key v.request) with
  | none => exact .inl rfl
  | some u =>
    have hkeyed : (key u.request == key v.request && (u.bare k.inner).isOk) = true :=
      List.find?_some (p := fun u : Visit T => key u.request == key v.request && (u.bare k.inner).isOk)
        hfirst
    rw [Bool.and_eq_true, beq_iff_eq] at hkeyed
    refine .inr ⟨List.mem_of_find?_eq_some hfirst, hkeyed.1, ?_⟩
    cases hbare : u.bare k.inner with
    | error e =>
      have hok := hkeyed.2
      rw [hbare] at hok
      cases hok
    | ok response => exact ⟨response, hbare⟩

/-- Take any calls on unchanging collections, with keys that are not empty and tell the requests
apart, while no response outlives its time, and one more call.  It is served the response of the first
call with its request that had one, or its own if there is no such call.  That is the answer of the
builder inside just if the caps of the two calls come to the same page size. -/
theorem served_iff (store : T → Store) (collections : Store) (config : Config) (default most : Int)
    (hdefault : config.defaultLimit = .int default) (hmost : config.maxLimit = .int most)
    (clock : T → Binary64) (lifetime kept : Int) (start : T) (key : Request → String)
    (past : List (Visit T)) (v : Visit T) (hkeys : ∀ u ∈ past ++ [v], key u.request ≠ "")
    (hdistinct : ∀ u ∈ past, key u.request = key v.request → u.request = v.request)
    (hsame : ∀ u ∈ past ++ [v], store u.world = collections)
    (hlively : Lively ⟨Builder.base config (.ofStore store), clock, lifetime⟩ (past ++ [v])) :
    let k : Keeper T := ⟨Builder.base config (.ofStore store), clock, lifetime⟩
    let served := (k.visit key (k.visited key ⟨start, 0, .empty none kept⟩ past) v).1
    let first := k.leader key past v
    let size (u : Visit T) := pageSize u.request.limit default (u.cap.getD most)
    first.request = v.request ∧ served = first.bare k.inner ∧
      (served = v.bare k.inner ↔ size first = size v) := by
  intro k served first size
  have hreads (r : Request) (maxLimit : Value) := Builder.base_query store config r maxLimit
  have hbare (u : Visit T) (hu : u ∈ past ++ [v]) :
      u.bare k.inner = collections.answerPage config u.request (.ofInt? u.cap) := by
    rw [← hsame u hu]
    exact (hreads u.request (.ofInt? u.cap) ⟨u.world, []⟩).1
  have hholds : k.Holds key kept past (k.visited key ⟨start, 0, .empty none kept⟩ past).memory :=
    holds_visited (fun r maxLimit => ⟨_, hreads r maxLimit⟩) start hlively.earlier
      fun u hu => hkeys u (List.mem_append_left _ hu)
  have hserved : served = first.bare k.inner :=
    (visit_served (fun r maxLimit => ⟨_, hreads r maxLimit⟩) hlively (hkeys v (by simp)) hholds).1
  have hv := hbare v (by simp)
  rcases (leader_cases past v : first = v ∨ _) with hself | ⟨hmem, hkey, response, hresponse⟩
  · have hfirst : first = v := hself
    rw [hserved, hfirst]
    exact ⟨rfl, rfl, fun _ => rfl, fun _ => rfl⟩
  · have hrequest : first.request = v.request := hdistinct first hmem hkey
    have hu := hbare first (List.mem_append_left _ hmem)
    refine ⟨hrequest, hserved, fun heq => ?_, fun hsize => ?_⟩
    · -- both answers are the same response, which tells the page size of either call
      have hfirst := hu.symm.trans hresponse
      have hown := hv.symm.trans (heq.symm.trans (hserved.trans hresponse))
      exact (Store.counts_limit hdefault hmost hfirst).symm.trans
        (Store.counts_limit hdefault hmost hown)
    · rw [hserved, hu, hv, hrequest]
      apply Store.answerPage_capped hdefault hmost
      show pageSize v.request.limit default (first.cap.getD most) = size v
      rw [← hsize, ← hrequest]

/-- under the keys that are made from requests: a call for another page and two calls that ask for three
rows where two are the most, without a cap and with one of two; a further call with a cap of three -/
theorem served_iff_two_rows :
    let store : Store := ⟨[(.str "m", [.record [("id", .int 1)], .record [("id", .int 2)],
      .record [("id", .int 3)]])]⟩
    let config : Config := { maxLimit := .int 2 }
    let r : Request :=
      { model := some "m", limit := some 3, sortBy := some "id", sortOrder := some .asc }
    let k : Keeper Store := ⟨Builder.base config (.ofStore id), fun _ => .exactly 1000, 300⟩
    let key (r : Request) : String := (CacheKey.ofRequest config r).toOption.getD ""
    let past : List (Visit Store) := [⟨store, { r with page := some 2 }, none⟩, ⟨store, r, none⟩]
    let served (cap : Int) :=
      (k.visit key (k.visited key ⟨store, 0, .empty none 300⟩ past) ⟨store, r, some cap⟩).1
    (∀ u ∈ past ++ [⟨store, r, some 2⟩], key u.request ≠ "") ∧
      (∀ u ∈ past, key u.request = key r → u.request = r) ∧
      (∀ u ∈ past ++ [⟨store, r, some 2⟩], u.world = store) ∧
      k.Lively (past ++ [⟨store, r, some 2⟩]) ∧
      served 2 = (⟨store, r, some 2⟩ : Visit Store).bare k.inner ∧
      served 3 ≠ (⟨store, r, some 3⟩ : Visit Store).bare k.inner := by
  intro store config r k key past served
  obtain ⟨hfirst, hsecond⟩ : key { r with page := some 2 } = "m:page:2:limit:3:sort:id:asc" ∧
      key r = "m:page:1:limit:3:sort:id:asc" := by
    dsimp only [key, r, config]
    exact ⟨rfl, rfl⟩
  have hkeys (cap : Int) : ∀ u ∈ past ++ [⟨store, r, some cap⟩], key u.request ≠ "" := by
    simp [past, hfirst, hsecond]
  have hdistinct : ∀ u ∈ past, key u.request = key r → u.request = r := by
    simp [past, hfirst, hsecond]
  have hsame (cap : Int) : ∀ u ∈ past ++ [⟨store, r, some cap⟩], u.world = store :=
    List.forall_mem_cons.mpr ⟨rfl, List.forall_mem_cons.mpr ⟨rfl, List.forall_mem_singleton.mpr rfl⟩⟩
  obtain ⟨expiry, hexpiry, hnow⟩ : ∃ expiry, Memory.after (.exactly 1000) (.int 300) = .ok expiry ∧
      Binary64.exactly 1000 ≤ expiry := ⟨_, rfl, by decide +kernel⟩
  have hlively (cap : Int) : k.Lively (past ++ [⟨store, r, some cap⟩]) :=
    fun _ _ => ⟨expiry, hexpiry, fun _ _ => hnow⟩
  have hiff (cap : Int) := (served_iff id store config 10 2 rfl rfl k.clock k.lifetime 300 store key past
    ⟨store, r, some cap⟩ (hkeys cap) hdistinct (hsame cap) (hlively cap)).2.2
  exact ⟨hkeys 2, hdistinct, hsame 2, hlively 2, (hiff 2).mpr (by decide), (hiff 3).not.mpr (by decide)⟩

/-- after a query that was cut to two rows, an export of three gets two, where without the cache it
gets three; the other request before has a key of its own -/
theorem export_cut :
    let rows : List Value := [.record [("id", .int 1)], .record [("id", .int 2)],
      .record [("id", .int 3)]]
    let store : Store := ⟨[(.str "m", rows)]⟩
    let config : Config := { maxLimit := .int 2 }
    let r : Request := { model := some "m", sortBy := some "id", sortOrder := some .asc }
    let k : Keeper Store := ⟨Builder.base config (.ofStore id), fun _ => .exactly 1000, 300⟩
    let key (r : Request) : String := (CacheKey.ofRequest config r).toOption.getD ""
    let past : List (Visit Store) :=
      [⟨store, { r with limit := some 1 }, none⟩, ⟨store, { r with limit := some 3 }, none⟩]
    let s := k.visited key ⟨store, 0, .empty none 300⟩ past
    past.map (key ·.request) = ["m:page:1:limit:1:sort:id:asc", "m:page:1:limit:3:sort:id:asc"] ∧
      r.merged (.record [("limit", .int 3)]) = .ok { r with limit := some 3 } ∧
      (((k.keyed key).rowsUpTo r (.int 3)).runOn ⟨s, []⟩).1
        = .ok [.record [("id", .int 1)], .record [("id", .int 2)]] ∧
      ((k.inner.rowsUpTo r (.int 3)).runOn ⟨store, []⟩).1 = .ok rows := by
  exact ⟨rfl, rfl, rfl, rfl⟩

end Keeper

end ListQuery
