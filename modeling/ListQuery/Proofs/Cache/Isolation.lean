import ListQuery.Proofs.Cache.Lapse
import ListQuery.Proofs.Cache.Rack

/-!
# Stores that share a server

Two stores write under keys of their own if neither prefix begins with the other.  A store that is
cleared, though, asks for its keys by its prefix and a star, a pattern in which characters of the prefix
may stand for others.  What one store does is not seen by the other exactly if that pattern covers none
of the other's keys, as is so for a plain prefix.

* `Host.Call.effect_apart`  a call of a store on the keys of another;
* `Host.Turn`, `Host.run`   calls of two stores in any order, and seconds that go by;
* `Host.Isolated`        what is read through a store does not depend on the calls of the other;
* `Host.agree_run`       two runs with the same calls of one store;
* `Host.stores_apart`    the whole.
-/

namespace ListQuery

variable {S : Type} {p q : String}

/-! ## calls and the keys of another store -/

structure Unrelated (p q : String) : Prop where
  right (rest : String) : q ≠ p ++ rest
  left (rest : String) : p ≠ q ++ rest

theorem Unrelated.of_octets (hpq : ¬ Glob.octets p <+: Glob.octets q)
    (hqp : ¬ Glob.octets q <+: Glob.octets p) : Unrelated p q where
  right rest h := hpq (Glob.octets_prefix.mpr ⟨rest, h⟩)
  left rest h := hqp (Glob.octets_prefix.mpr ⟨rest, h⟩)

theorem Unrelated.append_ne (h : Unrelated p q) (a b : String) : p ++ a ≠ q ++ b := by
  intro heq
  have hp : Glob.octets p <+: Glob.octets (q ++ b) := Glob.octets_prefix.mpr ⟨a, heq.symm⟩
  have hq : Glob.octets q <+: Glob.octets (q ++ b) := Glob.octets_prefix.mpr ⟨b, rfl⟩
  rcases List.prefix_or_prefix_of_prefix hp hq with hpq | hqp
  · obtain ⟨rest, hrest⟩ := Glob.octets_prefix.mp hpq
    exact h.right rest hrest
  · obtain ⟨rest, hrest⟩ := Glob.octets_prefix.mp hqp
    exact h.left rest hrest

/-- two states agree on the time, and on what is there under the keys with a prefix -/
structure Ledger.Agree (v : Ledger S) (start : String) (s t : S) : Prop where
  now : v.now s = v.now t
  lease (key : String) : v.lease s (start ++ key) = v.lease t (start ++ key)

namespace Host

variable {host : Host S}

namespace Call

variable {f g : String → Option Lease} {name : String}

theorem effect_congr (start : String) (now : ℚ) (c : Call) (h : f name = g name) :
    c.effect start now f name = c.effect start now g name := by
  cases c with
  | set key content ttl =>
    rw [effect, effect]
    cases content.encode with
    | error e => exact h
    | ok text =>
      dsimp only
      split
      · exact h
      · simp only [Function.update_apply, h]
  | get decode key => exact h
  | delete key | clear => simp only [effect, h]

/-- a call of a store leaves alone what is not under its prefix and not covered by its pattern -/
theorem effect_apart {start : String} (hname : ∀ key, start ++ key ≠ name)
    (hcovers : Glob.covers (start ++ "*") name = false) (now : ℚ) (c : Call) :
    c.effect start now f name = f name := by
  cases c with
  | set key content ttl =>
    rw [effect]
    cases content.encode with
    | error e => rfl
    | ok text =>
      dsimp only
      split
      · rfl
      · exact Function.update_of_ne (hname key).symm _ _
  | get decode key => rfl
  | delete key => exact if_neg (hname key).symm
  | clear => simp only [effect, hcovers, Bool.false_eq_true, if_false]

end Call

/-! ## runs -/

inductive Turn where
  | first (c : Call)
  | second (c : Call)
  | wait (seconds : {t : ℚ // 0 ≤ t})

def Turn.others : Turn → Bool
  | .first _ => false
  | _ => true

def turn (host : Host S) (p q : String) (w : Logged S) : Turn → Logged S
  | .first c => host.after p w c
  | .second c => host.after q w c
  | .wait seconds => ⟨host.pass seconds w.state, w.log⟩

def run (host : Host S) (p q : String) (w : Logged S) (turns : List Turn) : Logged S :=
  turns.foldl (host.turn p q) w

/-- after any run, what is read through the second store is the same as after the run without the calls
of the first store -/
def Isolated (host : Host S) (p q : String) (w : Logged S) : Prop :=
  ∀ turns decode key,
    ((Remote.getWith host.client q decode key).runOn (host.run p q w turns)).1
      = ((Remote.getWith host.client q decode key).runOn
          (host.run p q w (turns.filter Turn.others))).1

theorem getWith_reads (h : host.Serves) (start key : String) (decode : String → Outcome Stored)
    (w : Logged S) :
    ((Remote.getWith host.client start decode key).runOn w).1 = .ok (Remote.found decode
      (.ok ((host.ledger.lease w.state (start ++ key)).map (·.text)))) := by
  obtain ⟨log, hrun⟩ := Remote.getWith_eq host.client start key decode w
  obtain ⟨answer, hanswer⟩ := Outcome.eq_ok_of_isOk (h.get (start ++ key) w)
  rw [hrun, hanswer, (h.keeps.get (start ++ key) w).2 answer hanswer]

theorem agree_first (h : host.Serves) (hapart : Unrelated p q)
    (hcovers : ∀ key, Glob.covers (p ++ "*") (q ++ key) = false) (c : Call) {w w' : Logged S}
    (hagree : host.ledger.Agree q w.state w'.state) :
    host.ledger.Agree q (host.after p w c).state w'.state := by
  obtain ⟨hnow, hlease⟩ := left h p w c
  refine ⟨hnow.trans hagree.now, fun key => ?_⟩
  rw [hlease, Call.effect_apart (fun other => hapart.append_ne other key) (hcovers key)]
  exact hagree.lease key

theorem agree_second (h : host.Serves) (c : Call) {w w' : Logged S}
    (hagree : host.ledger.Agree q w.state w'.state) :
    host.ledger.Agree q (host.after q w c).state (host.after q w' c).state := by
  obtain ⟨hnow, hlease⟩ := left h q w c
  obtain ⟨hnow', hlease'⟩ := left h q w' c
  refine ⟨by rw [hnow, hnow', hagree.now], fun key => ?_⟩
  rw [hlease, hlease', hagree.now]
  exact Call.effect_congr q _ c (hagree.lease key)

theorem agree_wait (h : host.Serves) (seconds : {t : ℚ // 0 ≤ t}) {s s' : S}
    (hagree : host.ledger.Agree q s s') :
    host.ledger.Agree q (host.pass seconds s) (host.pass seconds s') := by
  have hnow : host.ledger.now (host.pass seconds s) = host.ledger.now (host.pass seconds s') := by
    rw [h.elapsed, h.elapsed, hagree.now]
  refine ⟨hnow, fun key => ?_⟩
  rw [(h.elapses seconds.2 s).lease, (h.elapses seconds.2 s').lease, hagree.lease, hnow]

/-- with or without the calls of the first store, a run leaves the same under the keys of the second -/
theorem agree_run (h : host.Serves) (hapart : Unrelated p q)
    (hcovers : ∀ key, Glob.covers (p ++ "*") (q ++ key) = false) (turns : List Turn) {w w' : Logged S}
    (hagree : host.ledger.Agree q w.state w'.state) :
    host.ledger.Agree q (host.run p q w turns).state
      (host.run p q w' (turns.filter Turn.others)).state := by
  induction turns generalizing w w' with
  | nil => exact hagree
  | cons turn rest ih =>
    cases turn with
    | first c => exact ih (agree_first h hapart hcovers c hagree)
    | second c => exact ih (agree_second h c hagree)
    | wait seconds => exact ih (agree_wait h seconds hagree)

theorem isolated_of_covers (h : host.Serves) (hapart : Unrelated p q)
    (hcovers : ∀ key, Glob.covers (p ++ "*") (q ++ key) = false) (w : Logged S) :
    host.Isolated p q w := by
  intro turns decode key
  have hagree : host.ledger.Agree q (host.run p q w turns).state
      (host.run p q w (turns.filter Turn.others)).state :=
    agree_run h hapart hcovers turns ⟨rfl, fun _ => rfl⟩
  rw [getWith_reads h, getWith_reads h, hagree.lease key]

/-- what is gone once a store was cleared is what its pattern covers -/
theorem clear_left (h : host.Serves) (start : String) (w : Logged S) (name : String) :
    host.ledger.lease (host.after start w .clear).state name
      = if Glob.covers (start ++ "*") name then none else host.ledger.lease w.state name :=
  congrFun (left h start w .clear).2 name

def writeOne (key : String) : Call := .set key (.value (.int 1)) none

theorem writeOne_left (h : host.Serves) (start key : String) (w : Logged S) :
    host.ledger.lease (host.after start w (writeOne key)).state
      = Function.update (host.ledger.lease w.state) (start ++ key) (some ⟨"1", none⟩) :=
  (left h start w (writeOne key)).2

theorem get_one (h : host.Serves) {start key : String} {w : Logged S}
    (hlease : host.ledger.lease w.state (start ++ key) = some ⟨"1", none⟩) :
    ((Remote.get host.client start key).runOn w).1 = .ok (some (.value (.int 1))) := by
  have hfound : Remote.found Stored.decode (.ok (some "1")) = (Stored.decode "1").toOption := by
    rw [Remote.found, if_neg (by decide)]
  refine (getWith_reads h start key Stored.decode w).trans ?_
  rw [hlease, Option.map_some, hfound, Stored.decode_one]
  rfl

theorem get_none (h : host.Serves) {start key : String} {w : Logged S}
    (hlease : host.ledger.lease w.state (start ++ key) = none) :
    ((Remote.get host.client start key).runOn w).1 = .ok none := by
  refine (getWith_reads h start key Stored.decode w).trans ?_
  rw [hlease]
  rfl

/-- a key of the second store that the pattern of the first one covers can be lost -/
theorem covers_of_isolated (h : host.Serves) {w : Logged S} (hisolated : host.Isolated p q w)
    (key : String) : Glob.covers (p ++ "*") (q ++ key) = false := by
  cases hcovers : Glob.covers (p ++ "*") (q ++ key) with
  | false => rfl
  | true =>
    let written := host.after q w (writeOne key)
    have hthere : host.ledger.lease written.state (q ++ key) = some ⟨"1", none⟩ := by
      rw [writeOne_left h, Function.update_self]
    have hgone : host.ledger.lease (host.after p written .clear).state (q ++ key) = none := by
      rw [clear_left h, if_pos hcovers]
    have hsame := hisolated [.second (writeOne key), .first .clear] Stored.decode key
    have hlost := (get_none h hgone).symm.trans (hsame.trans (get_one h hthere))
    cases hlost

/-- What a store of two on one server does to the other, and to all that is there when it is cleared. -/
structure Shares (host : Host S) (p q : String) (w : Logged S) : Prop where
  /-- what is gone once the first store was cleared is what its pattern covers -/
  cleared (name : String) : host.ledger.lease (host.after p w .clear).state name
    = if Glob.covers (p ++ "*") name then none else host.ledger.lease w.state name
  /-- the first store is not seen by the second if its pattern covers no key of the second -/
  isolated : host.Isolated p q w ↔ ∀ key, Glob.covers (p ++ "*") (q ++ key) = false
  /-- a plain prefix: the second store does not see the first, and what is gone once that was cleared
  are the keys that begin with its prefix -/
  plain : Glob.plain p = true → host.Isolated p q w ∧
    (∀ key, host.ledger.lease (host.after p w .clear).state (p ++ key) = none) ∧
    ∀ name, (∀ key, name ≠ p ++ key) →
      host.ledger.lease (host.after p w .clear).state name = host.ledger.lease w.state name

/-- Of two stores with unrelated prefixes one is not seen by the other, whatever both do and in whatever
order, exactly if the pattern by which it is cleared covers no key of the other; and what it loses when
it is cleared is what that pattern covers.  For a plain prefix these are the keys under the prefix. -/
theorem stores_apart (h : host.Serves) (hapart : Unrelated p q) (w : Logged S) :
    host.Shares p q w := by
  refine ⟨clear_left h p w, ⟨fun hisolated => covers_of_isolated h hisolated, fun hcovers =>
    isolated_of_covers h hapart hcovers w⟩, fun hplain => ⟨?_, fun key => ?_, fun name hname => ?_⟩⟩
  · refine isolated_of_covers h hapart (fun key => ?_) w
    rw [← Bool.not_eq_true, Glob.covers_plain hplain]
    rintro ⟨rest, hrest⟩
    exact hapart.append_ne rest key hrest.symm
  · rw [clear_left h, if_pos ((Glob.covers_plain hplain).mpr ⟨key, rfl⟩)]
  · rw [clear_left h, if_neg]
    rw [Glob.covers_plain hplain]
    exact fun ⟨key, hkey⟩ => hname key hkey

/-- two stores on a server that is scanned slot by slot, with texts of both that have an end and none -/
theorem stores_apart_slots :
    let slots : List (String × Option Lease) := [("app:k", some ⟨"1", none⟩),
      ("web:k", some ⟨"2", some 9⟩), ("app:k", none), ("app:", some ⟨"4", some 7⟩)]
    let w : Logged Rack := ⟨⟨5, slots⟩, []⟩
    Rack.host.Serves ∧ Unrelated "app:" "web:" ∧ Glob.plain "app:" = true ∧
      Rack.host.Isolated "app:" "web:" w ∧
      (∀ key, Rack.host.ledger.lease (Rack.host.after "app:" w .clear).state ("app:" ++ key) = none) ∧
      Rack.host.ledger.lease (Rack.host.after "app:" w .clear).state "web:k" = some ⟨"2", some 9⟩ := by
  intro slots w
  have hapart : Unrelated "app:" "web:" := .of_octets (by decide +kernel) (by decide +kernel)
  have hplain : Glob.plain "app:" = true := by decide +kernel
  have hshares := stores_apart Rack.host_serves hapart w
  obtain ⟨hisolated, hgone, -⟩ := hshares.plain hplain
  refine ⟨Rack.host_serves, hapart, hplain, hisolated, hgone, ?_⟩
  exact (hshares.cleared "web:k").trans rfl

/-- a store whose prefix is a pattern for other texts than itself: when it is cleared, the key of the
other store is lost, and its own is not -/
theorem clear_misses :
    let p := "a[b]:"
    let q := "ab:"
    let w : Logged Rack := ⟨{}, []⟩
    let written := Rack.host.run p q w [.first (writeOne "k"), .second (writeOne "k")]
    let cleared := Rack.host.after p written .clear
    Rack.host.Serves ∧ Unrelated p q ∧
      ((Remote.get Rack.host.client q "k").runOn written).1 = .ok (some (.value (.int 1))) ∧
      ((Remote.get Rack.host.client q "k").runOn cleared).1 = .ok none ∧
      ((Remote.get Rack.host.client p "k").runOn cleared).1 = .ok (some (.value (.int 1))) := by
  intro p q w written cleared
  have hserves := Rack.host_serves
  have hapart : Unrelated p q := .of_octets (by decide +kernel) (by decide +kernel)
  have hne : p ++ "k" ≠ q ++ "k" := hapart.append_ne "k" "k"
  have hfirst : Rack.host.ledger.lease written.state (p ++ "k") = some ⟨"1", none⟩ := by
    show Rack.host.ledger.lease (Rack.host.after q (Rack.host.after p w (writeOne "k"))
      (writeOne "k")).state _ = _
    rw [writeOne_left hserves, Function.update_of_ne hne, writeOne_left hserves, Function.update_self]
  have hsecond : Rack.host.ledger.lease written.state (q ++ "k") = some ⟨"1", none⟩ := by
    show Rack.host.ledger.lease (Rack.host.after q (Rack.host.after p w (writeOne "k"))
      (writeOne "k")).state _ = _
    rw [writeOne_left hserves, Function.update_self]
  have hcovers : Glob.covers (p ++ "*") (q ++ "k") = true := by decide +kernel
  have hmisses : ¬ Glob.covers (p ++ "*") (p ++ "k") = true := by decide +kernel
  refine ⟨hserves, hapart, get_one hserves hsecond, get_none hserves ?_, get_one hserves ?_⟩
  · rw [clear_left hserves, if_pos hcovers]
  · rw [clear_left hserves, if_neg hmisses, hfirst]

end Host

end ListQuery
