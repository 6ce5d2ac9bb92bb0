import Mathlib.Algebra.Order.Ring.Cast
import Mathlib.Algebra.Order.Ring.Rat
import Mathlib.Logic.Function.Basic
import ListQuery.Cache.Remote

/-!
# Texts that a server lets go

A server keeps a text that was written for some seconds for so long, and one that was written without
an end until it is deleted or written over.  A store over a client of such a server writes with an end
exactly if it is given seconds other than none: what it writes for zero seconds stays.

* `Lease`, `Ledger`                   a text with the end of its life, and what a server has;
* `Client.Keeps`                      a client of such a server;
* `Remote.getWith_cases`, `set_cases`, `delete_cases`, `clear_thins`
                                      the store over the client, by what is left on the server;
* `Remote.Step`, `Remote.behind`      runs of a store;
* `Remote.lease_step`                 what a step does to the text under a key that it does not write;
* `Remote.lapsed`, `Remote.unending`  a read after a write with an end, and after one without;
* `Shelf`                             a server with a clock.
-/

namespace ListQuery

/-! ## servers -/

/-- a text, and the last time, in seconds, at which it is there, if it does not stay for good -/
structure Lease where
  text : String
  ends : Option ℚ

def Lease.Lasts (now : ℚ) (l : Lease) : Prop := ∀ last ∈ l.ends, now ≤ last

instance (now : ℚ) (l : Lease) : Decidable (l.Lasts now) :=
  match h : l.ends with
  | none => isTrue fun last hlast => by rw [h] at hlast; cases hlast
  | some last =>
    decidable_of_iff (now ≤ last)
      ⟨fun hle other hother => by rw [h] at hother; cases hother; exact hle, fun hlasts => hlasts last h⟩

theorem Lease.filter_lasts {now later : ℚ} (h : now ≤ later) (l? : Option Lease) :
    (l?.filter fun l => l.Lasts now).filter (fun l => l.Lasts later) = l?.filter fun l => l.Lasts later := by
  apply Option.ext
  intro l
  simp only [Option.filter_eq_some_iff, decide_eq_true_eq]
  constructor
  · rintro ⟨⟨hl, _⟩, hlasts⟩
    exact ⟨hl, hlasts⟩
  · rintro ⟨hl, hlasts⟩
    exact ⟨⟨hl, fun last hlast => h.trans (hlasts last hlast)⟩, hlasts⟩

/-- the end of a life of so many seconds; there is none for zero seconds or a life without a number -/
def Lease.ending (now : ℚ) : Option Int → Option ℚ
  | none => none
  | some n => if n = 0 then none else some (now + n)

structure Ledger (S : Type) where
  now : S → ℚ
  lease : S → String → Option Lease

namespace Ledger

variable {S : Type} (v : Ledger S)

structure Same (s s' : S) : Prop where
  now : v.now s' = v.now s
  lease : v.lease s' = v.lease s

structure Wrote (key : String) (l : Lease) (s s' : S) : Prop where
  now : v.now s' = v.now s
  lease : v.lease s' = Function.update (v.lease s) key (some l)

structure Deleted (keys : List String) (s s' : S) : Prop where
  now : v.now s' = v.now s
  lease : v.lease s' = fun key => if key ∈ keys then none else v.lease s key

structure Thinned (s s' : S) : Prop where
  now : v.now s' = v.now s
  lease (key : String) : v.lease s' key = v.lease s key ∨ v.lease s' key = none

/-- time went by, and what came to its end is no longer there -/
structure Elapsed (s s' : S) : Prop where
  now : v.now s ≤ v.now s'
  lease (key : String) : v.lease s' key = (v.lease s key).filter fun l => l.Lasts (v.now s')

variable {v} {s s' s'' : S}

theorem Same.thinned (h : v.Same s s') : v.Thinned s s' where
  now := h.now
  lease key := .inl (congrFun h.lease key)

theorem Deleted.thinned {keys : List String} (h : v.Deleted keys s s') : v.Thinned s s' where
  now := h.now
  lease key := by
    rw [h.lease]
    by_cases hkey : key ∈ keys
    · exact .inr (if_pos hkey)
    · exact .inl (if_neg hkey)

theorem Thinned.trans (h : v.Thinned s s') (h' : v.Thinned s' s'') : v.Thinned s s'' where
  now := h'.now.trans h.now
  lease key := by
    rcases h'.lease key with hlater | hlater
    · rw [hlater]
      exact h.lease key
    · exact .inr hlater

end Ledger

/-- A client of a server that keeps texts for as long as they were written for.  A command takes no
time.  One that is refused may have been carried out, or nothing changed. -/
structure Client.Keeps {S : Type} (client : Client S) (v : Ledger S) : Prop where
  /-- a text that came to its end is not there -/
  lasts {s : S} {key : String} {l : Lease} (h : v.lease s key = some l) : l.Lasts (v.now s)
  get (key : String) (w : Logged S) :
    let got := (client.get key).runOn w
    v.Same w.state got.2.state ∧ ∀ found, got.1 = .ok found →
      found = (v.lease w.state key).map (·.text)
  set (key text : String) (w : Logged S) :
    let put := (client.set key text).runOn w
    v.Wrote key ⟨text, none⟩ w.state put.2.state ∨
      ((∃ f, put.1 = .error f) ∧ v.Same w.state put.2.state)
  setWithExpiry (key text : String) {seconds : Int} (h : 0 < seconds) (w : Logged S) :
    let put := (client.setWithExpiry key (.int seconds) text).runOn w
    v.Wrote key ⟨text, some (v.now w.state + seconds)⟩ w.state put.2.state ∨
      ((∃ f, put.1 = .error f) ∧ v.Same w.state put.2.state)
  /-- an end that is not ahead is refused -/
  refuses (key text : String) {seconds : Int} (h : seconds ≤ 0) (w : Logged S) :
    let put := (client.setWithExpiry key (.int seconds) text).runOn w
    (∃ f, put.1 = .error f) ∧ v.Same w.state put.2.state
  delete (keys : List String) (w : Logged S) :
    let removed := (client.delete keys).runOn w
    v.Deleted keys w.state removed.2.state ∨
      ((∃ f, removed.1 = .error f) ∧ v.Same w.state removed.2.state)
  scan (cursor : Nat) (pattern : String) (w : Logged S) :
    v.Same w.state ((client.scan cursor pattern).runOn w).2.state

/-! ## the store -/

namespace Remote

variable {S : Type} {client : Client S} {v : Ledger S} {start key : String}

theorem runOn_orReport {α : Type} (what : String) (fallback : α) (a : Action S α) (w : Logged S) :
    ∃ log, (orReport what fallback a).runOn w
      = (.ok (match (a.runOn w).1 with
          | .ok x => x
          | .error _ => fallback), ⟨(a.runOn w).2.state, log⟩) := by
  unfold orReport
  rw [Action.runOn_bind, Action.runOn_attempt]
  dsimp only
  rcases a.runOn w with ⟨f | x, after⟩ <;> exact ⟨_, rfl⟩

def found (decode : String → Outcome Stored) : Outcome (Option String) → Option Stored
  | .ok (some text) => if text = "" then none else (decode text).toOption
  | _ => none

theorem getWith_eq (client : Client S) (start key : String) (decode : String → Outcome Stored)
    (w : Logged S) :
    let got := (client.get (start ++ key)).runOn w
    ∃ log, (getWith client start decode key).runOn w = (.ok (found decode got.1), ⟨got.2.state, log⟩) := by
  intro got
  unfold getWith
  obtain ⟨log, hrun⟩ := runOn_orReport ("Redis get failed for key " ++ key) none _ w
  refine ⟨log, hrun.trans ?_⟩
  rw [Action.runOn_bind, show (client.get (start ++ key)).runOn w = got from rfl]
  rcases got with ⟨f | answer, after⟩
  · rfl
  · cases answer with
    | none => rfl
    | some text =>
      by_cases htext : text = ""
      · subst htext; rfl
      · dsimp only [found]
        rw [if_neg htext, if_neg htext]
        cases decode text <;> rfl

theorem getWith_cases (h : client.Keeps v) (start key : String) (decode : String → Outcome Stored)
    (w : Logged S) :
    let done := (getWith client start decode key).runOn w
    v.Same w.state done.2.state ∧ ∃ content, done.1 = .ok content ∧ ∀ x ∈ content,
      ∃ l, v.lease w.state (start ++ key) = some l ∧ decode l.text = .ok x := by
  intro done
  obtain ⟨hsame, hget⟩ := h.get (start ++ key) w
  obtain ⟨log, hrun⟩ := getWith_eq client start key decode w
  rw [show done = _ from hrun]
  refine ⟨hsame, _, rfl, fun x hx => ?_⟩
  unfold found at hx
  split at hx
  · rename_i text hanswer
    have hlease := hget _ hanswer
    split at hx
    · cases hx
    · obtain ⟨l, hl, rfl⟩ := Option.map_eq_some_iff.mp hlease.symm
      refine ⟨l, hl, ?_⟩
      cases hread : decode l.text with
      | error f => rw [hread] at hx; cases hx
      | ok y => rw [hread] at hx; cases hx; rfl
  · cases hx

/-- if the server answers, what is found is what the text that is there stands for -/
theorem getWith_answered (h : client.Keeps v) {decode : String → Outcome Stored} {w : Logged S}
    {answer : Option String} (hanswer : ((client.get (start ++ key)).runOn w).1 = .ok answer)
    {l : Lease} (hlease : v.lease w.state (start ++ key) = some l) (htext : l.text ≠ "") :
    ((getWith client start decode key).runOn w).1 = .ok (decode l.text).toOption := by
  obtain ⟨log, hrun⟩ := getWith_eq client start key decode w
  obtain rfl := (h.get (start ++ key) w).2 answer hanswer
  rw [hrun, hanswer, hlease]
  exact congrArg Except.ok (if_neg htext)

def command (client : Client S) (name text : String) (ttl : Option Int) : Action S Unit :=
  if (Value.ofInt? ttl).truthy then client.setWithExpiry name (.ofInt? ttl) text
  else client.set name text

def Accepted (client : Client S) (start key : String) (content : Stored) (ttl : Option Int)
    (w : Logged S) : Prop :=
  ∃ text, content.encode = .ok text ∧ ((command client (start ++ key) text ttl).runOn w).1 = .ok ()

/-- a text is written with an end if there are seconds, other than none -/
theorem command_cases (h : client.Keeps v) (name text : String) (ttl : Option Int) (w : Logged S) :
    let put := (command client name text ttl).runOn w
    v.Wrote name ⟨text, Lease.ending (v.now w.state) ttl⟩ w.state put.2.state ∨
      ((∃ f, put.1 = .error f) ∧ v.Same w.state put.2.state) := by
  unfold command
  cases ttl with
  | none => exact h.set name text w
  | some n =>
    by_cases hzero : n = 0
    · subst hzero
      exact h.set name text w
    · have htruthy : (Value.ofInt? (some n)).truthy = true := decide_eq_true hzero
      have hending : Lease.ending (v.now w.state) (some n) = some (v.now w.state + n) := if_neg hzero
      rw [if_pos htruthy, hending]
      rcases lt_or_gt_of_ne hzero with hneg | hpos
      · exact .inr (h.refuses name text hneg.le w)
      · exact h.setWithExpiry name text hpos w

/-- a write puts the text of its content on the server, with an end if it is given seconds other than
none, or it was not accepted, and may have changed nothing -/
theorem set_cases (h : client.Keeps v) (start key : String) (content : Stored) (ttl : Option Int)
    (w : Logged S) :
    let done := (set client start key content (.ofInt? ttl)).runOn w
    (∃ text, content.encode = .ok text ∧
      v.Wrote (start ++ key) ⟨text, Lease.ending (v.now w.state) ttl⟩ w.state done.2.state) ∨
      (¬ Accepted client start key content ttl w ∧ v.Same w.state done.2.state) := by
  intro done
  obtain ⟨log, hrun⟩ := runOn_orReport ("Redis set failed for key " ++ key) ()
    ((liftM content.encode : Action S String) >>= fun text =>
      command client (start ++ key) text ttl) w
  rw [show done = _ from hrun]
  cases htext : content.encode with
  | error f =>
    refine .inr ⟨?_, rfl, rfl⟩
    rintro ⟨text, hencode, _⟩
    rw [htext] at hencode
    cases hencode
  | ok text =>
    have hput := command_cases h (start ++ key) text ttl w
    rcases hput with hwrote | ⟨⟨f, hf⟩, hsame⟩
    · exact .inl ⟨text, rfl, hwrote⟩
    · refine .inr ⟨?_, hsame⟩
      rintro ⟨other, hencode, haccepted⟩
      rw [htext] at hencode
      cases hencode
      rw [hf] at haccepted
      cases haccepted

theorem delete_cases (h : client.Keeps v) (start key : String) (w : Logged S) :
    let done := (delete client start key).runOn w
    v.Deleted [start ++ key] w.state done.2.state ∨ v.Same w.state done.2.state := by
  intro done
  obtain ⟨log, hrun⟩ := runOn_orReport ("Redis delete failed for key " ++ key) ()
    (client.delete [start ++ key]) w
  rw [show done = _ from hrun]
  exact (h.delete [start ++ key] w).imp_right And.right

theorem thins_bind {α β : Type} {a : Action S α} {f : α → Action S β}
    (ha : ∀ w, v.Thinned w.state (a.runOn w).2.state)
    (hf : ∀ x w, v.Thinned w.state ((f x).runOn w).2.state) (w : Logged S) :
    v.Thinned w.state ((a >>= f).runOn w).2.state := by
  rw [Action.runOn_bind]
  have hfirst := ha w
  rcases hrun : a.runOn w with ⟨e | x, after⟩
  · rwa [hrun] at hfirst
  · rw [hrun] at hfirst
    exact hfirst.trans (hf x after)

theorem clear_thins (h : client.Keeps v) (start : String) (rounds : Nat) (w : Logged S) :
    v.Thinned w.state ((clear client start rounds).runOn w).2.state := by
  have hnothing (w : Logged S) : v.Thinned w.state w.state := Ledger.Same.thinned ⟨rfl, rfl⟩
  have hdelete (keys : List String) (w : Logged S) :
      v.Thinned w.state ((client.delete keys).runOn w).2.state := by
    rcases h.delete keys w with hdeleted | ⟨-, hsame⟩
    · exact hdeleted.thinned
    · exact hsame.thinned
  have hfrom (cursor : Nat) (w : Logged S) :
      v.Thinned w.state ((clearFrom client start rounds cursor).runOn w).2.state := by
    induction rounds generalizing cursor w with
    | zero => exact hnothing w
    | succ rounds ih =>
      refine thins_bind (fun w => (h.scan cursor (start ++ "*") w).thinned) (fun scanned w => ?_) w
      obtain ⟨next, keys⟩ := scanned
      have hrest (w : Logged S) : v.Thinned w.state
          (((if next = 0 then pure () else clearFrom client start rounds next) :
            Action S Unit).runOn w).2.state := by
        split
        · exact hnothing w
        · exact ih next w
      dsimp only
      split
      · exact thins_bind (hdelete keys) (fun _ => hrest) w
      · exact hrest w
  obtain ⟨log, hrun⟩ := runOn_orReport ("Redis clear failed for prefix " ++ start) ()
    (clearFrom client start rounds 0) w
  rw [show (clear client start rounds).runOn w = _ from hrun]
  exact hfrom 0 w

/-! ## runs -/

inductive Step (S : Type) where
  | set (key : String) (content : Stored) (ttl : Option Int)
  | get (decode : String → Outcome Stored) (key : String)
  | delete (key : String)
  | clear (rounds : Nat)
  | meanwhile (change : S → S)

namespace Step

def perform (client : Client S) (start : String) : Step S → Action S Unit
  | .set key content ttl => Remote.set client start key content (.ofInt? ttl)
  | .get decode key => do let _ ← Remote.getWith client start decode key
  | .delete key => Remote.delete client start key
  | .clear rounds => Remote.clear client start rounds
  | .meanwhile change => Action.update change

/-- nothing happens to the server but that time goes by -/
def Steady (v : Ledger S) : Step S → Prop
  | .meanwhile change => ∀ s, v.Elapsed s (change s)
  | _ => True

def Writes (key : String) : Step S → Prop
  | .set other _ _ => other = key
  | _ => False

def Concerns (key : String) : Step S → Prop
  | .set other _ _ => other = key
  | .delete other => other = key
  | .clear _ => True
  | _ => False

end Step

def behindStep (client : Client S) (start : String) (w : Logged S) (s : Step S) : Logged S :=
  ((s.perform client start).runOn w).2

theorem behindStep_get (client : Client S) (start : String) (w : Logged S)
    (decode : String → Outcome Stored) (key : String) :
    behindStep client start w (.get decode key) = ((getWith client start decode key).runOn w).2 := by
  show ((getWith client start decode key >>= fun _ => pure ()).runOn w).2 = _
  rw [Action.runOn_bind]
  rcases (getWith client start decode key).runOn w with ⟨e | x, after⟩ <;> rfl

def behind (client : Client S) (start : String) (w : Logged S) (steps : List (Step S)) : Logged S :=
  steps.foldl (behindStep client start) w

theorem full_ne {key other : String} (h : other ≠ key) : start ++ key ≠ start ++ other := by
  intro heq
  have hlists := congrArg String.toList heq
  rw [String.toList_append, String.toList_append, List.append_cancel_left_eq] at hlists
  exact h (String.toList_inj.mp hlists.symm)

theorem Step.Writes.concerns {s : Step S} (h : s.Writes key) : s.Concerns key := by
  cases s with
  | set other content ttl => exact h
  | _ => cases h

/-- A step leaves the text under a key that it does not write, or takes it away: where it removes it, or
where the text came to its end. -/
theorem lease_step (h : client.Keeps v) {s : Step S} (hsteady : s.Steady v) (hs : ¬ s.Writes key)
    (w : Logged S) :
    let after := behindStep client start w s
    v.lease after.state (start ++ key) = v.lease w.state (start ++ key) ∨
      (v.lease after.state (start ++ key) = none ∧ (s.Concerns key ∨
        ∃ l, v.lease w.state (start ++ key) = some l ∧ ¬ l.Lasts (v.now after.state))) := by
  intro after
  cases s with
  | set other content ttl =>
    left
    rcases set_cases h start other content ttl w with ⟨text, -, hwrote⟩ | ⟨-, hsame⟩
    · refine (congrFun hwrote.lease (start ++ key)).trans ?_
      exact Function.update_of_ne (full_ne hs) _ _
    · exact congrFun hsame.lease _
  | get decode other =>
    left
    obtain ⟨hsame, -⟩ := getWith_cases h start other decode w
    rw [show after = _ from behindStep_get client start w decode other]
    exact congrFun hsame.lease _
  | delete other =>
    by_cases hother : other = key
    · rcases delete_cases h start other w with hdeleted | hsame
      · exact (hdeleted.thinned.lease _).imp_right fun hnone => ⟨hnone, .inl hother⟩
      · exact .inl (congrFun hsame.lease _)
    · left
      rcases delete_cases h start other w with hdeleted | hsame
      · refine (congrFun hdeleted.lease (start ++ key)).trans (if_neg ?_)
        rw [List.mem_singleton]
        exact full_ne hother
      · exact congrFun hsame.lease _
  | clear rounds =>
    exact ((clear_thins h start rounds w).lease _).imp_right fun hnone => ⟨hnone, .inl trivial⟩
  | meanwhile change =>
    have hlease : v.lease after.state (start ++ key) = _ := (hsteady w.state).lease (start ++ key)
    rw [hlease]
    cases v.lease w.state (start ++ key) with
    | none => exact .inl rfl
    | some l =>
      by_cases hlasts : l.Lasts (v.now after.state)
      · exact .inl (Option.filter_some_pos (decide_eq_true hlasts))
      · refine .inr ⟨Option.filter_some_neg (decide_eq_false hlasts), .inr ?_⟩
        exact ⟨l, rfl, hlasts⟩

variable {steps : List (Step S)}

theorem ends_behind (h : client.Keeps v) (hsteady : ∀ s ∈ steps, s.Steady v)
    (hunwritten : ∀ s ∈ steps, ¬ s.Writes key) {ends : Option ℚ} {w : Logged S}
    (hends : ∀ l ∈ v.lease w.state (start ++ key), l.ends = ends) :
    ∀ l ∈ v.lease (behind client start w steps).state (start ++ key), l.ends = ends := by
  induction steps generalizing w with
  | nil => exact hends
  | cons s rest ih =>
    rw [List.forall_mem_cons] at hsteady hunwritten
    apply ih hsteady.2 hunwritten.2
    rcases lease_step h hsteady.1 hunwritten.1 w with hsame | ⟨hnone, -⟩
    · rwa [hsame]
    · rw [hnone]
      exact fun l hl => nomatch hl

theorem unending_behind (h : client.Keeps v) (hsteady : ∀ s ∈ steps, s.Steady v)
    (huntouched : ∀ s ∈ steps, ¬ s.Concerns key) {text : String} {w : Logged S}
    (hlease : v.lease w.state (start ++ key) = some ⟨text, none⟩) :
    v.lease (behind client start w steps).state (start ++ key) = some ⟨text, none⟩ := by
  induction steps generalizing w with
  | nil => exact hlease
  | cons s rest ih =>
    rw [List.forall_mem_cons] at hsteady huntouched
    apply ih hsteady.2 huntouched.2
    have hunwritten : ¬ s.Writes key := fun hs => huntouched.1 hs.concerns
    rcases lease_step h hsteady.1 hunwritten w with hsame | ⟨-, hconcerns | ⟨l, hl, hlasts⟩⟩
    · exact hsame.trans hlease
    · exact absurd hconcerns huntouched.1
    · rw [hlease] at hl
      cases hl
      exact absurd (fun last hlast => nomatch hlast) hlasts

/-- what was written for some seconds is not found after them, unless it was written again -/
theorem lapsed (h : client.Keeps v) {content : Stored} {seconds : Int} (hpos : seconds ≠ 0)
    {w : Logged S} (haccepted : Accepted client start key content (some seconds) w)
    (hsteady : ∀ s ∈ steps, s.Steady v) (hunwritten : ∀ s ∈ steps, ¬ s.Writes key)
    (decode : String → Outcome Stored)
    (hlate : v.now w.state + seconds
      < v.now (behind client start w (.set key content (some seconds) :: steps)).state) :
    ((getWith client start decode key).runOn
      (behind client start w (.set key content (some seconds) :: steps))).1 = .ok none := by
  let after := behindStep client start w (.set key content (some seconds))
  have hends : ∀ l ∈ v.lease after.state (start ++ key),
      l.ends = some (v.now w.state + seconds) := by
    rcases set_cases h start key content (some seconds) w with ⟨text, -, hwrote⟩ | ⟨hrefused, -⟩
    · intro l hl
      have hwritten := (congrFun hwrote.lease (start ++ key)).trans (Function.update_self ..)
      rw [Option.mem_def, show v.lease after.state (start ++ key) = _ from hwritten] at hl
      cases hl
      exact if_neg hpos
    · exact absurd haccepted hrefused
  have hlater := ends_behind h hsteady hunwritten hends
  obtain ⟨-, found, hdone, hfound⟩ :=
    getWith_cases h start key decode (behind client start after steps)
  refine hdone.trans (congrArg Except.ok ?_)
  by_contra hsome
  obtain ⟨x, hx⟩ := Option.ne_none_iff_exists'.mp hsome
  obtain ⟨l, hl, -⟩ := hfound x hx
  exact absurd (h.lasts hl _ (hlater l hl)) (not_le.mpr hlate)

/-- what was written without an end is found at any time, until it is written again or removed -/
theorem unending (h : client.Keeps v) {content : Stored} {ttl : Option Int} (hzero : ∀ n ∈ ttl, n = 0)
    {w : Logged S} (haccepted : Accepted client start key content ttl w)
    (hsteady : ∀ s ∈ steps, s.Steady v) (huntouched : ∀ s ∈ steps, ¬ s.Concerns key)
    (decode : String → Outcome Stored) {text : String} (htext : content.encode = .ok text)
    (hgiven : text ≠ "") {answer : Option String}
    (hanswer : ((client.get (start ++ key)).runOn
      (behind client start w (.set key content ttl :: steps))).1 = .ok answer) :
    ((getWith client start decode key).runOn
      (behind client start w (.set key content ttl :: steps))).1 = .ok (decode text).toOption := by
  let after := behindStep client start w (.set key content ttl)
  have hlease : v.lease after.state (start ++ key) = some ⟨text, none⟩ := by
    rcases set_cases h start key content ttl w with ⟨other, hother, hwrote⟩ | ⟨hrefused, -⟩
    · rw [htext] at hother
      cases hother
      have hwritten := (congrFun hwrote.lease (start ++ key)).trans (Function.update_self ..)
      have hending : Lease.ending (v.now w.state) ttl = none := by
        cases ttl with
        | none => rfl
        | some n => exact if_pos (hzero n rfl)
      rw [hending] at hwritten
      exact hwritten
    · exact absurd haccepted hrefused
  exact getWith_answered h hanswer (unending_behind h hsteady huntouched hlease) hgiven

end Remote

/-! ## a server with a clock -/

/-- the time, the keys that were written, and what was last written under each -/
structure Shelf where
  now : ℚ := 0
  names : List String := []
  leases : String → Option Lease := fun _ => none

namespace Shelf

def ledger : Ledger Shelf where
  now := (·.now)
  lease s key := (s.leases key).filter fun l => l.Lasts s.now

def put (key : String) (l : Lease) (s : Shelf) : Shelf :=
  { s with names := key :: s.names, leases := Function.update s.leases key (some l) }

def remove (keys : List String) (s : Shelf) : Shelf :=
  { s with leases := fun key => if key ∈ keys then none else s.leases key }

def advance (seconds : ℚ) (s : Shelf) : Shelf := { s with now := s.now + seconds }

def client : Client Shelf where
  get key := do return (ledger.lease (← Action.read) key).map (·.text)
  set key text := Action.update (put key ⟨text, none⟩)
  setWithExpiry key seconds text := do
    let seconds := seconds.integer?.getD 0
    if 0 < seconds then Action.update fun s => put key ⟨text, some (s.now + seconds)⟩ s
    else throw (.connection "invalid expire time in 'setex' command")
  delete keys := Action.update (remove keys)
  scan _ pattern := do
    let s ← Action.read
    return (0, s.names.filter fun key => (ledger.lease s key).isSome &&
      Text.startsWith key.toList pattern.toList.dropLast)

theorem wrote_put (key : String) {l : Lease} {s : Shelf} (h : l.Lasts s.now) :
    ledger.Wrote key l s (put key l s) where
  now := rfl
  lease := by
    funext other
    by_cases hother : other = key
    · subst hother
      show Option.filter _ (Function.update s.leases other (some l) other) = _
      rw [Function.update_self, Function.update_self]
      exact Option.filter_some_pos (decide_eq_true h)
    · show Option.filter _ (Function.update s.leases key (some l) other) = _
      rw [Function.update_of_ne hother, Function.update_of_ne hother]
      rfl

theorem deleted_remove (keys : List String) (s : Shelf) : ledger.Deleted keys s (remove keys s) where
  now := rfl
  lease := by
    funext key
    show Option.filter _ (if key ∈ keys then none else s.leases key) = _
    split <;> rfl

theorem elapsed_advance {seconds : ℚ} (h : 0 ≤ seconds) (s : Shelf) :
    ledger.Elapsed s (advance seconds s) where
  now := le_add_of_nonneg_right h
  lease key := (Lease.filter_lasts (le_add_of_nonneg_right h) (s.leases key)).symm

theorem client_keeps : client.Keeps ledger where
  lasts h := of_decide_eq_true (Option.filter_eq_some_iff.mp h).2
  get key w := ⟨⟨rfl, rfl⟩, fun found hfound => (Except.ok.inj hfound).symm⟩
  set key text w := .inl (wrote_put key fun last hlast => nomatch hlast)
  setWithExpiry key text {seconds} h w := by
    have hrun : (client.setWithExpiry key (.int seconds) text).runOn w
        = (.ok (), ⟨put key ⟨text, some (w.state.now + seconds)⟩ w.state, w.log⟩) := by
      show (if 0 < seconds then Action.update fun s => put key ⟨text, some (s.now + seconds)⟩ s
        else throw _ : Action Shelf Unit).runOn w = _
      rw [if_pos h]
      rfl
    rw [hrun]
    refine .inl (wrote_put key fun last hlast => ?_)
    cases hlast
    exact le_add_of_nonneg_right (Int.cast_nonneg h.le)
  refuses key text {seconds} h w := by
    have hrun : (client.setWithExpiry key (.int seconds) text).runOn w
        = (.error (.connection "invalid expire time in 'setex' command"), w) := by
      show (if 0 < seconds then Action.update fun s => put key ⟨text, some (s.now + seconds)⟩ s
        else throw _ : Action Shelf Unit).runOn w = _
      rw [if_neg (not_lt.mpr h)]
      rfl
    rw [hrun]
    exact ⟨⟨_, rfl⟩, rfl, rfl⟩
  delete keys w := .inl (deleted_remove keys w.state)
  scan cursor pattern w := ⟨rfl, rfl⟩

end Shelf

end ListQuery
