import Mathlib.Tactic.NormNum
import ListQuery.Proofs.Cache.Lease
import ListQuery.Proofs.Cache.Vault
import ListQuery.Proofs.Cache.WriteOrder

/-!
# Lifetimes

No entry of a memory is found after its lifetime, whatever it is.  On a server the same holds of
entries that were written for some seconds; one that was written for zero seconds has no end.  A layer
that keeps responses answers with none beyond its lifetime, as far as its store has an end for it.

* `Memory.mem_of_set`, `mem_of_step`   the entries that an operation leaves, whatever the limit;
* `Memory.lapsed`                      a read after the lifetime of the last write;
* `Vault.prompt_memory`, `prompt_server`
                                       the two stores under a layer;
* `Lapses`, `lapses`                   the whole.
-/

namespace ListQuery

/-! ## memories -/

namespace Memory

variable {now : Binary64} {key : String} {m : Memory} {e : String × MemoryEntry}

theorem mem_of_place {content : Stored} {seconds : Value} {log : List LogEntry}
    (h : e ∈ ((place now key content seconds).runOn ⟨m, log⟩).2.state.entries) :
    (e ∈ m.entries ∧ e.1 ≠ key) ∨
      (e.1 = key ∧ e.2.content = content ∧ after now seconds = .ok e.2.expiry) := by
  have hkept (h : e ∈ without key m.entries) : e ∈ m.entries ∧ e.1 ≠ key :=
    (List.mem_filter.mp h).imp_right of_decide_eq_true
  have hplace : (place now key content seconds).runOn ⟨m, log⟩
      = ((Action.ofOutcome (after now seconds) : Action Memory Binary64) >>= fun expiry =>
          Action.update fun m => { m with entries := m.entries ++ [(key, ⟨content, expiry⟩)] }).runOn
        ⟨m.dropping key, log⟩ := rfl
  rw [hplace, Action.runOn_bind, Action.runOn_ofOutcome] at h
  cases hexpiry : after now seconds with
  | error f =>
    rw [hexpiry] at h
    exact .inl (hkept h)
  | ok expiry =>
    rw [hexpiry] at h
    rcases List.mem_append.mp h with h | h
    · exact .inl (hkept h)
    · rw [List.mem_singleton.mp h]
      exact .inr ⟨rfl, rfl, rfl⟩

/-- what is there after a write was there before under another key, or is what was written -/
theorem mem_of_set {content : Stored} {ttl : Value} {log : List LogEntry}
    (h : e ∈ ((set now key content ttl).runOn ⟨m, log⟩).2.state.entries) :
    (e ∈ m.entries ∧ e.1 ≠ key) ∨ (e.1 = key ∧ e.2.content = content ∧
      after now (if ttl.isNull then m.defaultTtl else ttl) = .ok e.2.expiry) := by
  have hrun : (set now key content ttl).runOn ⟨m, log⟩
      = ((Action.ofOutcome (m.isFullFor key) : Action Memory Bool) >>= fun full =>
          let rest := place now key content (if ttl.isNull then m.defaultTtl else ttl)
          if full then evict >>= fun _ => rest else rest).runOn ⟨m, log⟩ := rfl
  rw [hrun, Action.runOn_bind, Action.runOn_ofOutcome] at h
  cases hfull : m.isFullFor key with
  | error f =>
    -- a limit that is not asked about a key that is there cannot be at fault for it
    rw [hfull] at h
    refine .inl ⟨h, ?_⟩
    rintro rfl
    have hthere : m.contains e.1 = true := contains_iff.mpr (List.mem_map_of_mem h)
    rw [isFullFor, hthere, Bool.or_true, if_pos rfl] at hfull
    cases hfull
  | ok full =>
    rw [hfull] at h
    cases full with
    | false => exact mem_of_place h
    | true =>
      have hevict : e ∈ ((evict >>= fun _ => place now key content
          (if ttl.isNull then m.defaultTtl else ttl)).runOn ⟨m, log⟩).2.state.entries := h
      rw [Action.runOn_bind] at hevict
      by_cases hentries : m.entries = []
      · obtain ⟨entries, most, default⟩ := m
        cases hentries
        cases hevict
      · obtain ⟨log', hfirst⟩ := evict_eq hentries log
        rw [hfirst] at hevict
        exact (mem_of_place hevict).imp_left (.imp_left List.mem_of_mem_tail)

theorem mem_of_expiring (h : e ∈ (m.expiring now key).entries) : e ∈ m.entries := by
  unfold expiring at h
  split at h
  · exact List.mem_of_mem_filter h
  · exact h

theorem mem_of_step {s : Step} (hs : s.written? ≠ some e.1) (h : e ∈ (m.step s).entries) :
    e ∈ m.entries := by
  obtain ⟨time, operation⟩ := s
  cases operation with
  | set other content ttl =>
    rcases mem_of_set h with ⟨hbefore, -⟩ | ⟨hkey, -⟩
    · exact hbefore
    · exact absurd (congrArg some hkey.symm) hs
  | get other =>
    have hstep : m.step ⟨time, .get other⟩ = m.expiring time other := by
      show ((get time other >>= fun _ => pure ()).runOn ⟨m, []⟩).2.state = _
      rw [Action.runOn_bind, get_eq]
      rfl
    rw [hstep] at h
    exact mem_of_expiring h
  | delete other => exact List.mem_of_mem_filter h
  | clear => cases h

theorem mem_of_alive {entry : MemoryEntry} (h : m.alive? now key = some entry) :
    (key, entry) ∈ m.entries ∧ now.exceeds entry.expiry = false :=
  (alive?_eq_some.mp h).imp_left mem_of_lookup

/-- Nothing is found under a key after the lifetime of its last write, whatever there was before it and
happened since, and whether the write succeeded or not. -/
theorem lapsed (m : Memory) {time : Binary64} {content : Stored} {seconds : Int} {later : List Step}
    (hunwritten : ∀ s ∈ later, s.written? ≠ some key)
    (hlate : ∀ expiry, after time (.int seconds) = .ok expiry → now.exceeds expiry = true) :
    ((⟨time, .set key content (some seconds)⟩ :: later).foldl step m).alive? now key = none := by
  -- every entry under the key came with the write
  have hends : ∀ e ∈ ((⟨time, .set key content (some seconds)⟩ :: later).foldl step m).entries,
      e.1 = key → after time (.int seconds) = .ok e.2.expiry := by
    have hwritten : ∀ e ∈ (m.step ⟨time, .set key content (some seconds)⟩).entries,
        e.1 = key → after time (.int seconds) = .ok e.2.expiry := by
      intro e he hkey
      rcases mem_of_set he with ⟨-, hother⟩ | ⟨-, -, hexpiry⟩
      · exact absurd hkey hother
      · exact hexpiry
    rw [List.foldl_cons]
    generalize m.step ⟨time, .set key content (some seconds)⟩ = m at hwritten
    induction later generalizing m with
    | nil => exact hwritten
    | cons s rest ih =>
      rw [List.forall_mem_cons] at hunwritten
      refine ih hunwritten.2 _ fun e he hkey => ?_
      exact hwritten e (mem_of_step (hkey ▸ hunwritten.1) he) hkey
  cases halive : ((⟨time, .set key content (some seconds)⟩ :: later).foldl step m).alive? now key with
  | none => rfl
  | some entry =>
    obtain ⟨hmem, hexceeds⟩ := mem_of_alive halive
    rw [hlate entry.expiry (hends _ hmem rfl)] at hexceeds
    cases hexceeds

end Memory

/-! ## the two stores -/

namespace Vault

variable {S : Type}

/-- the lifetime of the deposit is over, if it has an end at all: what began at a time ends at one -/
def Over (now : Binary64) (d : Deposit Binary64) : Prop :=
  ∀ expiry, Memory.after d.since d.ttl = .ok expiry → now.exceeds expiry = true

/-- the deposit was made for some seconds, and they are over -/
def Ended (now : ℚ) (d : Deposit ℚ) : Prop :=
  ∃ seconds : Int, d.ttl = .int seconds ∧ seconds ≠ 0 ∧ d.since + seconds < now

/-- what a response is after it was written and read -/
def Reread (response read : PagedResponse) : Prop :=
  ∃ text, (Stored.page response).encode = .ok text ∧ Stored.decodePage text = .ok (.page read)

def ofMemory (inner : Builder S) (clock : S → Binary64) (memory : S → Memory)
    (put : Memory → S → S) (lifetime : Int) (keyOf : Option (Request → String)) :
    Vault S Binary64 :=
  ⟨inner, .ofMemory clock memory put, clock, lifetime, keyOf⟩

/-- every entry of the memory came with a deposit -/
def MemoryHolds (memory : S → Memory) (deposits : List (Deposit Binary64)) (s : S) : Prop :=
  ∀ e ∈ (memory s).entries, ∃ d ∈ deposits, d.key = e.1 ∧ e.2.content = .page d.response ∧
    Memory.after d.since d.ttl = .ok e.2.expiry

theorem prompt_memory (inner : Builder S) {clock : S → Binary64} {memory : S → Memory}
    {put : Memory → S → S} (hmemory : ∀ m s, memory (put m s) = m)
    (hclock : ∀ m s, clock (put m s) = clock s) (lifetime : Int)
    (keyOf : Option (Request → String)) :
    (ofMemory inner clock memory put lifetime keyOf).Prompt (fun s s' => memory s' = memory s) Over
      Eq (MemoryHolds memory) where
  pass h hpass := by unfold MemoryHolds; rwa [hpass]
  get {deposits} key w h := by
    intro got
    have hrun (found : Option Stored) (m : Memory)
        (h : (Memory.getPage (clock w.state) key).runOn ⟨memory w.state, w.log⟩ = (.ok found, ⟨m, w.log⟩)) :
        got = (.ok (ResponseStore.responseOf found), ⟨put m w.state, w.log⟩) := by
      show (Action.within memory put (Memory.getPage (clock w.state) key) >>= fun found =>
        pure (ResponseStore.responseOf found) : Action S (Option PagedResponse)).runOn w = _
      rw [Action.runOn_bind, Action.runOn_within, h]
      rfl
    have hleft (m : Memory) (hm : ∀ e ∈ m.entries, e ∈ (memory w.state).entries) :
        MemoryHolds memory deposits (put m w.state) := by
      unfold MemoryHolds
      rw [hmemory]
      exact fun e he => h e (hm e he)
    cases halive : (memory w.state).alive? (clock w.state) key with
    | none =>
      rw [hrun _ _ (Keeper.getPage_missed halive w.log)]
      exact ⟨hleft _ fun e he => Memory.mem_of_expiring he, hclock _ _, fun response hresponse =>
        nomatch hresponse⟩
    | some entry =>
      obtain ⟨hmem, hexceeds⟩ := Memory.mem_of_alive halive
      obtain ⟨d, hd, hkey, hcontent, hexpiry⟩ := h _ hmem
      obtain ⟨content, expiry⟩ := entry
      cases hcontent
      rw [hrun _ _ (Keeper.getPage_alive halive w.log)]
      refine ⟨hleft _ fun e he => he, hclock _ _, fun response hresponse => ?_⟩
      cases hresponse
      exact ⟨d, hd, hkey, rfl, fun hover =>
        Bool.false_ne_true (hexceeds.symm.trans (hover expiry hexpiry))⟩
  set {deposits} key response seconds w h := by
    have hrun : (((ResponseStore.ofMemory clock memory put).set key response (.int seconds)).runOn w).2.state
        = put ((Memory.set (clock w.state) key (.page response) (.int seconds)).runOn
          ⟨memory w.state, w.log⟩).2.state w.state := rfl
    show MemoryHolds memory _ (((ResponseStore.ofMemory clock memory put).set key response
      (.int seconds)).runOn w).2.state
    rw [hrun]
    unfold MemoryHolds
    rw [hmemory]
    intro e he
    rcases Memory.mem_of_set he with ⟨hbefore, -⟩ | ⟨hkey, hcontent, hexpiry⟩
    · obtain ⟨d, hd, hrest⟩ := h e hbefore
      exact ⟨d, List.mem_append_left _ hd, hrest⟩
    · exact ⟨_, List.mem_append_right _ List.mem_cons_self, hkey.symm, hcontent, hexpiry⟩
  delete {deposits} key w h := by
    have hrun : (((ResponseStore.ofMemory clock memory put).delete key).runOn w).2.state
        = put ((memory w.state).dropping key) w.state := rfl
    show MemoryHolds memory _ (((ResponseStore.ofMemory clock memory put).delete key).runOn w).2.state
    rw [hrun]
    unfold MemoryHolds
    rw [hmemory]
    exact fun e he => h e (List.mem_of_mem_filter he)

def ofClient (inner : Builder S) (client : Client S) (start : String) (now : S → ℚ) (lifetime : Int)
    (keyOf : Option (Request → String)) : Vault S ℚ :=
  ⟨inner, .ofClient client start, now, lifetime, keyOf⟩

/-- every text under the prefix came with a deposit -/
def ServerHolds (v : Ledger S) (start : String) (deposits : List (Deposit ℚ)) (s : S) : Prop :=
  ∀ key, ∀ l ∈ v.lease s (start ++ key), ∃ d ∈ deposits, d.key = key ∧
    (Stored.page d.response).encode = .ok l.text ∧
    ∃ seconds : Int, d.ttl = .int seconds ∧ l.ends = Lease.ending d.since (some seconds)

theorem ServerHolds.thinned {v : Ledger S} {start : String} {deposits : List (Deposit ℚ)} {s s' : S}
    (h : ServerHolds v start deposits s) (hthinned : v.Thinned s s') :
    ServerHolds v start deposits s' := by
  intro key l hl
  rcases hthinned.lease (start ++ key) with hsame | hnone
  · rw [hsame] at hl
    exact h key l hl
  · rw [hnone] at hl
    cases hl

theorem ServerHolds.more {v : Ledger S} {start : String} {deposits : List (Deposit ℚ)} {s : S}
    (h : ServerHolds v start deposits s) (d : Deposit ℚ) : ServerHolds v start (deposits ++ [d]) s := by
  intro key l hl
  obtain ⟨d, hd, hrest⟩ := h key l hl
  exact ⟨d, List.mem_append_left _ hd, hrest⟩

theorem ServerHolds.wrote {v : Ledger S} {start key text : String} {deposits : List (Deposit ℚ)}
    {s s' : S} (h : ServerHolds v start deposits s) {response : PagedResponse} {seconds : Int}
    (htext : (Stored.page response).encode = .ok text)
    (hwrote : v.Wrote (start ++ key) ⟨text, Lease.ending (v.now s) (some seconds)⟩ s s') :
    ServerHolds v start (deposits ++ [⟨key, response, v.now s, .int seconds⟩]) s' := by
  intro other l hl
  rw [hwrote.lease] at hl
  by_cases hother : other = key
  · subst hother
    rw [Function.update_self] at hl
    cases hl
    exact ⟨_, List.mem_append_right _ List.mem_cons_self, rfl, htext, seconds, rfl, rfl⟩
  · rw [Function.update_of_ne (Remote.full_ne (Ne.symm hother))] at hl
    exact h.more _ other l hl

theorem prompt_server (inner : Builder S) {client : Client S} {v : Ledger S} (hclient : client.Keeps v)
    (start : String) (lifetime : Int) (keyOf : Option (Request → String)) :
    (ofClient inner client start v.now lifetime keyOf).Prompt v.Elapsed Ended Reread
      (ServerHolds v start) where
  pass {deposits s s'} h hpass := by
    intro key l hl
    rw [hpass.lease] at hl
    exact h key l (Option.mem_filter_iff.mp hl).1
  get {deposits} key w h := by
    intro got
    obtain ⟨hsame, found, hdone, hfound⟩ :=
      Remote.getWith_cases hclient start key Stored.decodePage w
    have hrun : got = (.ok (ResponseStore.responseOf found),
        ((Remote.getPage client start key).runOn w).2) := by
      show (Remote.getPage client start key >>= fun found =>
        pure (ResponseStore.responseOf found) : Action S (Option PagedResponse)).runOn w = _
      rw [Action.runOn_bind]
      rcases hgot : (Remote.getPage client start key).runOn w with ⟨f | answer, after⟩
      · exact nomatch (congrArg Prod.fst hgot).symm.trans hdone
      · cases (congrArg Prod.fst hgot).symm.trans hdone
        rfl
    rw [hrun]
    refine ⟨h.thinned hsame.thinned, hsame.now, fun response hresponse => ?_⟩
    have hpage : found = some (.page response) := by
      cases found with
      | none => cases hresponse
      | some content =>
        cases content with
        | value x => cases hresponse
        | page r => cases hresponse; rfl
    obtain ⟨l, hl, hread⟩ := hfound _ hpage
    obtain ⟨d, hd, hkey, htext, seconds, httl, hends⟩ := h key l hl
    refine ⟨d, hd, hkey, ⟨l.text, htext, hread⟩, ?_⟩
    rintro ⟨other, hother, hne, hover⟩
    rw [httl] at hother
    cases hother
    exact absurd (hclient.lasts hl _ (hends.trans (if_neg hne))) (not_le.mpr hover)
  set {deposits} key response seconds w h := by
    rcases Remote.set_cases hclient start key (.page response) (some seconds) w with
      ⟨text, htext, hwrote⟩ | ⟨-, hsame⟩
    · exact h.wrote htext hwrote
    · exact (h.thinned hsame.thinned).more _
  delete {deposits} key w h := by
    rcases Remote.delete_cases hclient start key w with hdeleted | hsame
    · exact h.thinned hdeleted.thinned
    · exact h.thinned hsame.thinned

end Vault

/-! ## the whole -/

/-- what becomes of lifetimes in the two stores, and in a layer over each of them -/
structure Lapses {S : Type} (client : Client S) (v : Ledger S) (start : String) : Prop where
  /-- a memory finds nothing under a key after the lifetime of its last write, whatever that is -/
  memory (m : Memory) (time now : Binary64) (key : String) (content : Stored) (seconds : Int)
    (later : List Memory.Step) (log : List LogEntry)
    (unwritten : ∀ s ∈ later, s.written? ≠ some key)
    (late : ∀ expiry, Memory.after time (.int seconds) = .ok expiry → now.exceeds expiry = true) :
    let left := (⟨time, .set key content (some seconds)⟩ :: later).foldl Memory.step m
    ((Memory.get now key).runOn ⟨left, log⟩).1 = .ok none ∧
      ((Memory.getPage now key).runOn ⟨left, log⟩).1 = .ok none
  /-- a store over a server finds nothing after the lifetime of an accepted write for some seconds -/
  server (w : Logged S) (key : String) (content : Stored) (seconds : Int) (steps : List (Remote.Step S))
    (decode : String → Outcome Stored)
    (given : seconds ≠ 0) (accepted : Remote.Accepted client start key content (some seconds) w)
    (steady : ∀ s ∈ steps, s.Steady v) (unwritten : ∀ s ∈ steps, ¬ s.Writes key) :
    let left := Remote.behind client start w (.set key content (some seconds) :: steps)
    v.now w.state + seconds < v.now left.state →
      ((Remote.getWith client start decode key).runOn left).1 = .ok none
  /-- an accepted write for zero seconds, or without a number, is found at any time, until the key is
  written again or removed -/
  unending (w : Logged S) (key text : String) (content : Stored) (ttl : Option Int)
    (steps : List (Remote.Step S)) (decode : String → Outcome Stored)
    (zero : ∀ n ∈ ttl, n = 0) (accepted : Remote.Accepted client start key content ttl w)
    (steady : ∀ s ∈ steps, s.Steady v) (untouched : ∀ s ∈ steps, ¬ s.Concerns key)
    (encodes : content.encode = .ok text) (nonempty : text ≠ "") :
    let left := Remote.behind client start w (.set key content ttl :: steps)
    (∃ answer, ((client.get (start ++ key)).runOn left).1 = .ok answer) →
      ((Remote.getWith client start decode key).runOn left).1 = .ok (decode text).toOption
  /-- a layer over a memory answers with no response beyond the lifetime that it was stored for -/
  memory_layer {T : Type} (inner : Builder T) (clock : T → Binary64) (memory : T → Memory)
    (put : Memory → T → T) (lifetime : Int) (keyOf : Option (Request → String))
    (replaced : ∀ m s, memory (put m s) = m) (timed : ∀ m s, clock (put m s) = clock s)
    (apart : ∀ r maxLimit w, memory ((inner.query r maxLimit).runOn w).2.state = memory w.state)
    (first : T) (empty : (memory first).entries = []) (errands : List (Errand T))
    (quiet : ∀ e ∈ errands, Vault.Quiet (fun s s' => memory s' = memory s) e)
    (log : List LogEntry) (e : Errand T) (q : Question) (asks : e.question? keyOf = some q) :
    let L := Vault.ofMemory inner clock memory put lifetime keyOf
    let w := L.run ⟨⟨first, []⟩, log⟩ errands
    L.Fresh Vault.Over Eq q w.state ((L.perform e).runOn w).1
  /-- a layer over a server answers with no response beyond the lifetime that it was stored for, unless
  that was zero seconds -/
  server_layer (inner : Builder S) (lifetime : Int) (keyOf : Option (Request → String))
    (apart : ∀ r maxLimit w, v.Elapsed w.state ((inner.query r maxLimit).runOn w).2.state)
    (first : S) (empty : ∀ key, v.lease first (start ++ key) = none) (errands : List (Errand S))
    (quiet : ∀ e ∈ errands, Vault.Quiet v.Elapsed e) (log : List LogEntry) (e : Errand S)
    (q : Question) (asks : e.question? keyOf = some q) :
    let L := Vault.ofClient inner client start v.now lifetime keyOf
    let w := L.run ⟨⟨first, []⟩, log⟩ errands
    L.Fresh Vault.Ended Vault.Reread q w.state ((L.perform e).runOn w).1

/-- Lifetimes end in a memory whatever they are, and on a server that keeps to them unless they are of
zero seconds, which the store takes for none. -/
theorem lapses {S : Type} {client : Client S} {v : Ledger S} (hclient : client.Keeps v)
    (start : String) : Lapses client v start where
  memory m time now key content seconds later log unwritten late := by
    intro left
    have halive : left.alive? now key = none := Memory.lapsed m unwritten late
    refine ⟨?_, by rw [Keeper.getPage_missed halive]⟩
    rw [Memory.get_eq, halive]
    rfl
  server w key content seconds steps decode given accepted steady unwritten :=
    Remote.lapsed hclient given accepted steady unwritten decode
  unending w key text content ttl steps decode zero accepted steady untouched encodes nonempty := by
    rintro left ⟨answer, hanswer⟩
    exact Remote.unending hclient zero accepted steady untouched decode encodes nonempty hanswer
  memory_layer inner clock memory put lifetime keyOf replaced timed apart first empty errands quiet log
      e q asks := by
    have hfirst : Vault.MemoryHolds memory [] first := by
      intro e he
      rw [empty] at he
      cases he
    exact Vault.fresh_run (Vault.prompt_memory inner replaced timed lifetime keyOf) apart hfirst quiet
      log asks
  server_layer inner lifetime keyOf apart first empty errands quiet log e q asks := by
    have hfirst : Vault.ServerHolds v start [] first := by
      intro key l hl
      rw [empty] at hl
      cases hl
    exact Vault.fresh_run (Vault.prompt_server inner hclient start lifetime keyOf) apart hfirst quiet
      log asks

/-- what was written for a minute is not found after a minute and a second -/
theorem lapses_minute :
    let w : Logged Shelf := ⟨{}, []⟩
    let steps : List (Remote.Step Shelf) := [.meanwhile (Shelf.advance 61)]
    let left := Remote.behind Shelf.client "querypilot:" w
      (.set "k" (.value (.int 1)) (some 60) :: steps)
    Shelf.client.Keeps Shelf.ledger ∧ (60 : Int) ≠ 0 ∧
      Remote.Accepted Shelf.client "querypilot:" "k" (.value (.int 1)) (some 60) w ∧
      (∀ s ∈ steps, s.Steady Shelf.ledger) ∧ (∀ s ∈ steps, ¬ s.Writes "k") ∧
      Shelf.ledger.now w.state + (60 : Int) < Shelf.ledger.now left.state ∧
      ((Remote.get Shelf.client "querypilot:" "k").runOn left).1 = .ok none := by
  intro w steps left
  have haccepted : Remote.Accepted Shelf.client "querypilot:" "k" (.value (.int 1)) (some 60) w :=
    ⟨"1", rfl, rfl⟩
  have hsteady : ∀ s ∈ steps, s.Steady Shelf.ledger := by
    intro s hs
    rw [List.mem_singleton.mp hs]
    exact Shelf.elapsed_advance (by norm_num)
  have hunwritten : ∀ s ∈ steps, ¬ s.Writes "k" := by
    intro s hs
    rw [List.mem_singleton.mp hs]
    exact not_false
  have hlate : Shelf.ledger.now w.state + (60 : Int) < Shelf.ledger.now left.state := by
    show (0 : ℚ) + (60 : Int) < 0 + 61
    norm_num
  exact ⟨Shelf.client_keeps, by decide, haccepted, hsteady, hunwritten, hlate,
    (lapses Shelf.client_keeps "querypilot:").server w "k" (.value (.int 1)) 60 steps Stored.decode
      (by decide) haccepted hsteady hunwritten hlate⟩

theorem Stored.decode_one : Stored.decode "1" = .ok (.value (.int 1)) := by
  have hoctets : "1".toUTF8.toList = [49] := by
    unfold ByteArray.toList
    rw [ByteArray.toList.loop, if_pos (by decide), ByteArray.toList.loop, if_neg (by decide)]
    rfl
  have hcharacters : Json.recode "1" = .ok ['1'] := by
    unfold Json.recode
    rw [hoctets]
    rfl
  unfold Stored.decode Json.readStored
  rw [hcharacters]
  rfl

/-- what was written for zero seconds is found a second later -/
theorem outlives_zero :
    let w : Logged Shelf := ⟨{}, []⟩
    let steps : List (Remote.Step Shelf) := [.meanwhile (Shelf.advance 1)]
    let left := Remote.behind Shelf.client "querypilot:" w
      (.set "k" (.value (.int 1)) (some 0) :: steps)
    Shelf.client.Keeps Shelf.ledger ∧
      Remote.Accepted Shelf.client "querypilot:" "k" (.value (.int 1)) (some 0) w ∧
      (∀ s ∈ steps, s.Steady Shelf.ledger) ∧ (∀ s ∈ steps, ¬ s.Writes "k") ∧
      Shelf.ledger.now w.state + (0 : Int) < Shelf.ledger.now left.state ∧
      ((Remote.get Shelf.client "querypilot:" "k").runOn left).1 = .ok (some (.value (.int 1))) := by
  intro w steps left
  have haccepted : Remote.Accepted Shelf.client "querypilot:" "k" (.value (.int 1)) (some 0) w :=
    ⟨"1", rfl, rfl⟩
  have hsteady : ∀ s ∈ steps, s.Steady Shelf.ledger := by
    intro s hs
    rw [List.mem_singleton.mp hs]
    exact Shelf.elapsed_advance (by norm_num)
  have huntouched : ∀ s ∈ steps, ¬ s.Concerns "k" := by
    intro s hs
    rw [List.mem_singleton.mp hs]
    exact not_false
  refine ⟨Shelf.client_keeps, haccepted, hsteady, fun s hs hwrites => huntouched s hs hwrites.concerns,
    ?_, ?_⟩
  · show (0 : ℚ) + (0 : Int) < 0 + 1
    norm_num
  · have hencode : (Stored.value (.int 1)).encode = .ok "1" := rfl
    have hfound := Remote.unending Shelf.client_keeps (by simp) haccepted hsteady huntouched
      Stored.decode hencode (by decide) rfl
    rw [Stored.decode_one] at hfound
    exact hfound

end ListQuery
