import ListQuery.Proofs.Cache.Lease
import ListQuery.Proofs.Cache.Pattern

/-!
# Calls of a store and what they leave

On a server that answers every command, and whose scans go through all its keys, what a call of a store
leaves under each key is a function of what was there: a write and a deletion are about one key, and a
store that is cleared takes away what the pattern made of its prefix covers.

* `Client.Iteration`, `Client.Ends`   scans from a cursor on until it is 0 again;
* `Host`, `Host.Serves`               a server that is scanned so;
* `Host.cleared`                      what is there after a store was cleared;
* `Host.Call`, `Call.effect`          the calls of a store, and what they make of the texts by key;
* `Host.left`                         what a call leaves is its effect.
-/

namespace ListQuery

variable {S : Type}

/-! ## scans -/

namespace Client

inductive Deletions (client : Client S) : Logged S → Logged S → Prop where
  | none (w : Logged S) : Deletions client w w
  | delete {w later : Logged S} (keys : List String)
      (h : Deletions client ((client.delete keys).runOn w).2 later) : Deletions client w later

/-- scans from a cursor on until it is 0, with deletions between them, all that they found, and the
state after the last one -/
inductive Iteration (client : Client S) (pattern : String) :
    Nat → Logged S → List String → Logged S → Prop where
  | last {cursor : Nat} {w after : Logged S} {keys : List String}
      (h : (client.scan cursor pattern).runOn w = (.ok (0, keys), after)) :
      Iteration client pattern cursor w keys after
  | next {cursor next : Nat} {w after between final : Logged S} {keys found : List String}
      (h : (client.scan cursor pattern).runOn w = (.ok (next, keys), after)) (hnext : next ≠ 0)
      (hbetween : client.Deletions after between)
      (hrest : Iteration client pattern next between found final) :
      Iteration client pattern cursor w (keys ++ found) final

/-- after so many scans at the most, with deletions between them, the cursor is 0 -/
def Ends (client : Client S) (pattern : String) : (scans cursor : Nat) → Logged S → Prop
  | 0, _, _ => False
  | scans + 1, cursor, w => ∀ next keys after,
    (client.scan cursor pattern).runOn w = (.ok (next, keys), after) → next ≠ 0 →
      ∀ between, client.Deletions after between → Ends client pattern scans next between

end Client

/-- a server that stores share: its client, what it has, after how many scans its keys are gone through,
and what becomes of it as seconds go by -/
structure Host (S : Type) where
  client : Client S
  ledger : Ledger S
  rounds : S → Nat
  pass : ℚ → S → S

/-- The server keeps texts for as long as they were written for, and answers every command.  Scans find
keys that match, and none is missed that is there until the last of them; nor do they go on for ever. -/
structure Host.Serves (host : Host S) : Prop where
  keeps : host.client.Keeps host.ledger
  elapses {seconds : ℚ} (h : 0 ≤ seconds) (s : S) : host.ledger.Elapsed s (host.pass seconds s)
  elapsed (seconds : ℚ) (s : S) : host.ledger.now (host.pass seconds s) = host.ledger.now s + seconds
  get (key : String) (w : Logged S) : ((host.client.get key).runOn w).1.isOk = true
  set (key text : String) (w : Logged S) : ((host.client.set key text).runOn w).1.isOk = true
  setWithExpiry (key text : String) {seconds : Int} (h : 0 < seconds) (w : Logged S) :
    ((host.client.setWithExpiry key (.int seconds) text).runOn w).1.isOk = true
  delete {keys : List String} (h : keys ≠ []) (w : Logged S) :
    ((host.client.delete keys).runOn w).1.isOk = true
  scan (cursor : Nat) (pattern : String) (w : Logged S) :
    ((host.client.scan cursor pattern).runOn w).1.isOk = true
  matching {cursor next : Nat} {pattern : String} {w : Logged S} {keys : List String}
    (h : ((host.client.scan cursor pattern).runOn w).1 = .ok (next, keys)) :
    ∀ key ∈ keys, Glob.covers pattern key = true
  complete {pattern : String} {w final : Logged S} {found : List String}
    (h : host.client.Iteration pattern 0 w found final) {key : String}
    (hkey : Glob.covers pattern key = true) (hthere : (host.ledger.lease final.state key).isSome = true) :
    key ∈ found
  ends (pattern : String) (w : Logged S) : host.client.Ends pattern (host.rounds w.state) 0 w

namespace Ledger

variable {v : Ledger S} {s s' s'' : S}

theorem Same.deleted (h : v.Same s s') : v.Deleted [] s s' where
  now := h.now
  lease := by rw [h.lease]; simp

theorem Deleted.trans {keys others : List String} (h : v.Deleted keys s s')
    (h' : v.Deleted others s' s'') : v.Deleted (keys ++ others) s s'' where
  now := h'.now.trans h.now
  lease := by
    funext key
    rw [h'.lease, h.lease]
    by_cases hkey : key ∈ keys <;> by_cases hother : key ∈ others <;> simp [hkey, hother]

end Ledger

theorem Outcome.eq_ok_of_isOk {α : Type} {x : Outcome α} (h : x.isOk = true) : ∃ a, x = .ok a := by
  cases x with
  | error f => cases h
  | ok a => exact ⟨a, rfl⟩

namespace Host

variable {host : Host S} {start : String}

theorem delete_left (h : host.Serves) {keys : List String} (hkeys : keys ≠ []) (w : Logged S) :
    host.ledger.Deleted keys w.state ((host.client.delete keys).runOn w).2.state := by
  obtain ⟨x, hok⟩ := Outcome.eq_ok_of_isOk (h.delete hkeys w)
  rcases h.keeps.delete keys w with hdeleted | ⟨⟨f, hf⟩, -⟩
  · exact hdeleted
  · rw [hok] at hf
    cases hf

theorem deleted_found (h : host.Serves) (keys : List String) (w : Logged S) :
    ∃ after, (if !keys.isEmpty then host.client.delete keys else pure () : Action S Unit).runOn w
        = (.ok (), after) ∧
      host.ledger.Deleted keys w.state after.state ∧ host.client.Deletions w after := by
  by_cases hkeys : keys = []
  · subst hkeys
    exact ⟨w, rfl, Ledger.Same.deleted ⟨rfl, rfl⟩, .none w⟩
  · have hgiven : (!keys.isEmpty) = true := by simpa using hkeys
    obtain ⟨⟨⟩, hok⟩ := Outcome.eq_ok_of_isOk (h.delete hkeys w)
    refine ⟨((host.client.delete keys).runOn w).2, ?_, delete_left h hkeys w, .delete keys (.none _)⟩
    rw [if_pos hgiven]
    exact Prod.ext hok rfl

/-- the loop that deletes what scans find is an iteration, of which nothing found is left -/
theorem clearFrom_cases (h : host.Serves) {scans cursor : Nat} {w : Logged S}
    (hends : host.client.Ends (start ++ "*") scans cursor w) :
    let done := (Remote.clearFrom host.client start scans cursor).runOn w
    ∃ found final, host.client.Iteration (start ++ "*") cursor w found final ∧
      (∀ key ∈ found, Glob.covers (start ++ "*") key = true) ∧
      (∀ key, key ∉ found → host.ledger.lease final.state key = host.ledger.lease w.state key) ∧
      host.ledger.Deleted found w.state done.2.state := by
  induction scans generalizing cursor w with
  | zero => cases hends
  | succ scans ih =>
    intro done
    obtain ⟨⟨next, keys⟩, hok⟩ := Outcome.eq_ok_of_isOk (h.scan cursor (start ++ "*") w)
    obtain ⟨scanned, hscan⟩ : ∃ after, (host.client.scan cursor (start ++ "*")).runOn w
        = (.ok (next, keys), after) := ⟨_, Prod.ext hok rfl⟩
    have hsame : host.ledger.Same w.state scanned.state := by
      have hsame := h.keeps.scan cursor (start ++ "*") w
      rwa [hscan] at hsame
    obtain ⟨between, hdelete, hdeleted, hbetween⟩ := deleted_found h keys scanned
    have hgone : host.ledger.Deleted keys w.state between.state := hsame.deleted.trans hdeleted
    have hdone : done = ((if next = 0 then pure () else
        Remote.clearFrom host.client start scans next : Action S Unit).runOn between) := by
      show (Remote.clearFrom host.client start (scans + 1) cursor).runOn w = _
      rw [Remote.clearFrom, Action.runOn_bind, hscan]
      have hrun : ∀ rest : Action S Unit, ((if !keys.isEmpty then host.client.delete keys else pure ()
          : Action S Unit) >>= fun _ => rest).runOn scanned = rest.runOn between := by
        intro rest
        rw [Action.runOn_bind, hdelete]
      rw [← hrun]
      cases keys <;> rfl
    by_cases hnext : next = 0
    · subst hnext
      rw [hdone]
      exact ⟨keys, scanned, .last hscan, h.matching hok, fun key _ => congrFun hsame.lease key, hgone⟩
    · obtain ⟨found, final, hrest, hmatching, hkept, hleft⟩ :=
        ih (hends next keys scanned hscan hnext between hbetween)
      rw [hdone, if_neg hnext]
      refine ⟨keys ++ found, final, .next hscan hnext hbetween hrest, ?_, ?_, hgone.trans hleft⟩
      · intro key hkey
        exact (List.mem_append.mp hkey).elim (h.matching hok key) (hmatching key)
      · intro key hkey
        rw [List.mem_append, not_or] at hkey
        exact (hkept key hkey.2).trans ((congrFun hgone.lease key).trans (if_neg hkey.1))

/-- a store that is cleared leaves nothing that its pattern covers, and all else as it was -/
theorem cleared (h : host.Serves) (start : String) (w : Logged S) :
    let done := (Remote.clear host.client start (host.rounds w.state)).runOn w
    host.ledger.now done.2.state = host.ledger.now w.state ∧
      host.ledger.lease done.2.state = fun name =>
        if Glob.covers (start ++ "*") name then none else host.ledger.lease w.state name := by
  intro done
  obtain ⟨found, final, hiteration, hmatching, hkept, hdeleted⟩ :=
    clearFrom_cases h (h.ends (start ++ "*") w)
  obtain ⟨log, hrun⟩ := Remote.runOn_orReport ("Redis clear failed for prefix " ++ start) ()
    (Remote.clearFrom host.client start (host.rounds w.state) 0) w
  rw [show done = _ from hrun]
  refine ⟨hdeleted.now, funext fun name => (congrFun hdeleted.lease name).trans ?_⟩
  by_cases hfound : name ∈ found
  · rw [if_pos hfound, if_pos (hmatching name hfound)]
  · rw [if_neg hfound]
    split
    · rename_i hcovers
      -- what is there to the end would have been found
      have hgone : ¬ (host.ledger.lease final.state name).isSome = true :=
        fun hthere => hfound (h.complete hiteration hcovers hthere)
      rw [hkept name hfound] at hgone
      exact Option.not_isSome_iff_eq_none.mp hgone
    · rfl

end Host

/-! ## calls -/

namespace Host

inductive Call where
  | set (key : String) (content : Stored) (ttl : Option Int)
  | get (decode : String → Outcome Stored) (key : String)
  | delete (key : String)
  | clear

namespace Call

def step (scans : Nat) : Call → Remote.Step S
  | .set key content ttl => .set key content ttl
  | .get decode key => .get decode key
  | .delete key => .delete key
  | .clear => .clear scans

/-- what a call of the store with a prefix makes of the texts by key -/
def effect (start : String) (now : ℚ) (c : Call) (leases : String → Option Lease) :
    String → Option Lease :=
  match c with
  | .set key content ttl =>
    match content.encode with
    | .error _ => leases
    | .ok text =>
      if ttl.any (· < 0) then leases
      else Function.update leases (start ++ key) (some ⟨text, Lease.ending now ttl⟩)
  | .get _ _ => leases
  | .delete key => fun name => if name = start ++ key then none else leases name
  | .clear => fun name => if Glob.covers (start ++ "*") name then none else leases name

end Call

variable {host : Host S}

def after (host : Host S) (start : String) (w : Logged S) (c : Call) : Logged S :=
  Remote.behindStep host.client start w (c.step (host.rounds w.state))

theorem wrote_of_isOk {put : Outcome Unit × Logged S} {name : String} {l : Lease} {s : S}
    (hok : put.1.isOk = true) (h : host.ledger.Wrote name l s put.2.state ∨
      ((∃ f, put.1 = .error f) ∧ host.ledger.Same s put.2.state)) :
    host.ledger.Wrote name l s put.2.state := by
  rcases h with hwrote | ⟨⟨f, hf⟩, -⟩
  · exact hwrote
  · rw [hf] at hok
    cases hok

/-- a text is there after it was written, unless its end is not ahead -/
theorem command_left (h : host.Serves) (name text : String) (ttl : Option Int) (w : Logged S) :
    let put := (Remote.command host.client name text ttl).runOn w
    if ttl.any (· < 0) then host.ledger.Same w.state put.2.state
    else host.ledger.Wrote name ⟨text, Lease.ending (host.ledger.now w.state) ttl⟩ w.state
      put.2.state := by
  unfold Remote.command
  cases ttl with
  | none => exact wrote_of_isOk (h.set name text w) (h.keeps.set name text w)
  | some n =>
    rcases lt_trichotomy n 0 with hneg | rfl | hpos
    · have htruthy : (Value.ofInt? (some n)).truthy = true := decide_eq_true hneg.ne
      have hany : (some n).any (· < 0) = true := decide_eq_true hneg
      rw [if_pos hany, if_pos htruthy]
      exact (h.keeps.refuses name text hneg.le w).2
    · exact wrote_of_isOk (h.set name text w) (h.keeps.set name text w)
    · have htruthy : (Value.ofInt? (some n)).truthy = true := decide_eq_true hpos.ne'
      have hany : (some n).any (· < 0) = false := decide_eq_false hpos.not_gt
      have hending : Lease.ending (host.ledger.now w.state) (some n)
          = some (host.ledger.now w.state + n) := if_neg hpos.ne'
      rw [hany, if_pos htruthy, hending]
      exact wrote_of_isOk (h.setWithExpiry name text hpos w) (h.keeps.setWithExpiry name text hpos w)

/-- A call leaves its effect on the texts by key, and takes no time. -/
theorem left (h : host.Serves) (start : String) (w : Logged S) (c : Call) :
    host.ledger.now (host.after start w c).state = host.ledger.now w.state ∧
      host.ledger.lease (host.after start w c).state
        = c.effect start (host.ledger.now w.state) (host.ledger.lease w.state) := by
  cases c with
  | set key content ttl =>
    obtain ⟨log, hrun⟩ := Remote.runOn_orReport ("Redis set failed for key " ++ key) ()
      ((liftM content.encode : Action S String) >>= fun text =>
        Remote.command host.client (start ++ key) text ttl) w
    have hafter : (host.after start w (.set key content ttl)).state
        = (((liftM content.encode : Action S String) >>= fun text =>
          Remote.command host.client (start ++ key) text ttl).runOn w).2.state := congrArg (·.2.state) hrun
    rw [hafter, Call.effect]
    cases content.encode with
    | error f => exact ⟨rfl, rfl⟩
    | ok text =>
      have hput := command_left h (start ++ key) text ttl w
      dsimp only at hput ⊢
      split at hput
      · rename_i hneg
        rw [if_pos hneg]
        exact ⟨hput.now, hput.lease⟩
      · rename_i hpos
        rw [if_neg hpos]
        exact ⟨hput.now, hput.lease⟩
  | get decode key =>
    obtain ⟨hsame, -⟩ := Remote.getWith_cases h.keeps start key decode w
    rw [show host.after start w (.get decode key) = _ from
      Remote.behindStep_get host.client start w decode key]
    exact ⟨hsame.now, hsame.lease⟩
  | delete key =>
    obtain ⟨log, hrun⟩ := Remote.runOn_orReport ("Redis delete failed for key " ++ key) ()
      (host.client.delete [start ++ key]) w
    have hafter : (host.after start w (.delete key)).state
        = ((host.client.delete [start ++ key]).runOn w).2.state := congrArg (·.2.state) hrun
    have hdeleted := delete_left h (List.cons_ne_nil (start ++ key) []) w
    rw [hafter, hdeleted.lease]
    exact ⟨hdeleted.now, funext fun name => by simp only [List.mem_singleton, Call.effect]⟩
  | clear => exact cleared h start w

end Host

end ListQuery
