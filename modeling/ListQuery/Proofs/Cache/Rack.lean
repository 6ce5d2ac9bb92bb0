import ListQuery.Proofs.Cache.Calls

/-!
# A server that is scanned slot by slot

The server writes into new slots, in front of the others, and deletes by emptying the slots of a key.
A scan looks at two slots from the cursor on.  As deletions move no slot, scans with deletions between
them come past every key that is there to the end, and are over when the slots are.

* `Rack`, `Rack.client`      the server, and a client of it;
* `Rack.found_of_iteration`  what is there to the end is found;
* `Rack.host_serves`         what a store asks of a server.
-/

namespace ListQuery

/-- the time, and the slots, the last one that was written first -/
structure Rack where
  now : ℚ := 0
  slots : List (String × Option Lease) := []

namespace Rack

variable {pattern : String} {w final : Logged Rack} {key : String}

/-! ## the server -/

/-- the first slot with a key says what is there under it -/
def held (key : String) : List (String × Option Lease) → Option Lease
  | [] => none
  | (name, l) :: rest => if name = key then l else held key rest

def ledger : Ledger Rack where
  now := (·.now)
  lease s key := (held key s.slots).filter fun l => l.Lasts s.now

def put (key : String) (l : Lease) (s : Rack) : Rack := { s with slots := (key, some l) :: s.slots }

def emptied (keys : List String) (e : String × Option Lease) : String × Option Lease :=
  if e.1 ∈ keys then (e.1, none) else e

def remove (keys : List String) (s : Rack) : Rack := { s with slots := s.slots.map (emptied keys) }

def advance (seconds : ℚ) (s : Rack) : Rack := { s with now := s.now + seconds }

def names (s : Rack) : List String := s.slots.map (·.1)

def width : Nat := 2

def seen (s : Rack) (cursor : Nat) (pattern : String) : List String :=
  ((s.names.drop cursor).take width).filter fun key =>
    (ledger.lease s key).isSome && Glob.covers pattern key

def client : Client Rack where
  get key := do return (ledger.lease (← Action.read) key).map (·.text)
  set key text := Action.update (put key ⟨text, none⟩)
  setWithExpiry key seconds text := do
    let seconds := seconds.integer?.getD 0
    if 0 < seconds then Action.update fun s => put key ⟨text, some (s.now + seconds)⟩ s
    else throw (.connection "invalid expire time in 'setex' command")
  delete keys := Action.update (remove keys)
  scan cursor pattern := do
    let s ← Action.read
    return (if cursor + width < s.names.length then cursor + width else 0, s.seen cursor pattern)

def host : Host Rack where
  client := client
  ledger := ledger
  rounds s := s.names.length + 1
  pass := advance

/-! ## commands -/

theorem wrote_put (key : String) {l : Lease} {s : Rack} (h : l.Lasts s.now) :
    ledger.Wrote key l s (put key l s) where
  now := rfl
  lease := by
    funext other
    have hheld : ledger.lease (put key l s) other
        = (if key = other then some l else held other s.slots).filter fun l => l.Lasts s.now := rfl
    rw [hheld]
    by_cases hother : key = other
    · subst hother
      rw [if_pos rfl, Function.update_self]
      exact Option.filter_some_pos (decide_eq_true h)
    · rw [if_neg hother, Function.update_of_ne (Ne.symm hother)]
      rfl

theorem held_emptied (keys : List String) (key : String) (slots : List (String × Option Lease)) :
    held key (slots.map (emptied keys)) = if key ∈ keys then none else held key slots := by
  induction slots with
  | nil => simp [held]
  | cons e rest ih =>
    obtain ⟨name, l⟩ := e
    rw [List.map_cons, held, emptied]
    by_cases hname : name = key
    · subst hname
      by_cases hkey : name ∈ keys <;> simp [hkey, held]
    · by_cases hkey : name ∈ keys <;> simp [hkey, hname, held, ih]

theorem deleted_remove (keys : List String) (s : Rack) : ledger.Deleted keys s (remove keys s) where
  now := rfl
  lease := by
    funext key
    show (held key (s.slots.map (emptied keys))).filter _ = _
    rw [held_emptied]
    split <;> rfl

theorem names_remove (keys : List String) (s : Rack) : (remove keys s).names = s.names := by
  rw [names, names, remove, List.map_map]
  refine List.map_congr_left fun e _ => ?_
  show (emptied keys e).1 = e.1
  rw [emptied]
  split <;> rfl

theorem elapsed_advance {seconds : ℚ} (h : 0 ≤ seconds) (s : Rack) :
    ledger.Elapsed s (advance seconds s) where
  now := le_add_of_nonneg_right h
  lease key := (Lease.filter_lasts (le_add_of_nonneg_right h) (held key s.slots)).symm

theorem runOn_setWithExpiry (key text : String) (seconds : Int) (w : Logged Rack) :
    (client.setWithExpiry key (.int seconds) text).runOn w
      = if 0 < seconds then (.ok (), ⟨put key ⟨text, some (w.state.now + seconds)⟩ w.state, w.log⟩)
        else (.error (.connection "invalid expire time in 'setex' command"), w) := by
  show (if 0 < seconds then Action.update fun s => put key ⟨text, some (s.now + seconds)⟩ s
    else throw _ : Action Rack Unit).runOn w = _
  split <;> rfl

theorem client_keeps : client.Keeps ledger where
  lasts h := of_decide_eq_true (Option.filter_eq_some_iff.mp h).2
  get key w := ⟨⟨rfl, rfl⟩, fun found hfound => (Except.ok.inj hfound).symm⟩
  set key text w := .inl (wrote_put key fun last hlast => nomatch hlast)
  setWithExpiry key text {seconds} h w := by
    rw [runOn_setWithExpiry, if_pos h]
    refine .inl (wrote_put key fun last hlast => ?_)
    cases hlast
    exact le_add_of_nonneg_right (Int.cast_nonneg h.le)
  refuses key text {seconds} h w := by
    rw [runOn_setWithExpiry, if_neg (not_lt.mpr h)]
    exact ⟨⟨_, rfl⟩, rfl, rfl⟩
  delete keys w := .inl (deleted_remove keys w.state)
  scan cursor pattern w := ⟨rfl, rfl⟩

/-! ## scans -/

/-- deletions leave the slots where they are, and bring nothing back -/
theorem deletions_thin {after between : Logged Rack} (h : client.Deletions after between) :
    between.state.names = after.state.names ∧ ledger.Thinned after.state between.state := by
  induction h with
  | none w => exact ⟨rfl, rfl, fun _ => .inl rfl⟩
  | delete keys _ ih =>
    exact ⟨ih.1.trans (names_remove ..), (deleted_remove ..).thinned.trans ih.2⟩

/-- a scan changes nothing, and goes on behind the slots that it looked at while there are others -/
theorem scan_cases {cursor next : Nat} {keys : List String} {after : Logged Rack}
    (h : (client.scan cursor pattern).runOn w = (.ok (next, keys), after)) :
    after = w ∧ keys = w.state.seen cursor pattern ∧
      (next = 0 → w.state.names.length ≤ cursor + width) ∧
      (next ≠ 0 → next = cursor + width ∧ cursor + width < w.state.names.length) := by
  have hrun : (client.scan cursor pattern).runOn w
      = (.ok (if cursor + width < w.state.names.length then cursor + width else 0,
          w.state.seen cursor pattern), w) := rfl
  obtain ⟨hscanned, hafter⟩ := Prod.mk.inj (hrun.symm.trans h)
  obtain ⟨hnext, hkeys⟩ := Prod.mk.inj (Except.ok.inj hscanned)
  refine ⟨hafter.symm, hkeys.symm, fun hzero => ?_, fun hgoes => ?_⟩
  · by_contra hmore
    rw [if_pos (not_le.mp hmore), hzero] at hnext
    cases hnext
  · by_cases hmore : cursor + width < w.state.names.length
    · rw [if_pos hmore] at hnext
      exact ⟨hnext.symm, hmore⟩
    · rw [if_neg hmore] at hnext
      exact absurd hnext.symm hgoes

/-- what is there to the end is found, if it stands in a slot from the cursor on -/
theorem found_of_iteration {cursor : Nat} {found : List String}
    (h : client.Iteration pattern cursor w found final) (hcovers : Glob.covers pattern key = true)
    (hthere : (ledger.lease final.state key).isSome = true) :
    ledger.Thinned w.state final.state ∧ (key ∈ w.state.names.drop cursor → key ∈ found) := by
  -- a key in the slots that a scan looks at is among those seen, if it is there
  have hseen {s : Rack} {cursor : Nat} (hkey : key ∈ (s.names.drop cursor).take width)
      (hnow : (ledger.lease s key).isSome = true) : key ∈ s.seen cursor pattern :=
    List.mem_filter.mpr ⟨hkey, Bool.and_eq_true_iff.mpr ⟨hnow, hcovers⟩⟩
  have hsplit {s : Rack} {cursor : Nat} (hkey : key ∈ s.names.drop cursor) :
      key ∈ (s.names.drop cursor).take width ∨ key ∈ s.names.drop (cursor + width) := by
    rw [← List.take_append_drop width (s.names.drop cursor), List.mem_append, List.drop_drop] at hkey
    exact hkey
  induction h with
  | last h =>
    obtain ⟨rfl, rfl, hend, -⟩ := scan_cases h
    refine ⟨⟨rfl, fun _ => .inl rfl⟩, fun hkey => ?_⟩
    rcases hsplit hkey with hkey | hkey
    · exact hseen hkey hthere
    · rw [List.drop_eq_nil_of_le (hend rfl)] at hkey
      cases hkey
  | next h hnext hbetween hrest ih =>
    obtain ⟨rfl, rfl, -, hgoes⟩ := scan_cases h
    obtain ⟨hnames, hthinned⟩ := deletions_thin hbetween
    obtain ⟨hlater, hfound⟩ := ih hthere
    have hthins := hthinned.trans hlater
    refine ⟨hthins, fun hkey => ?_⟩
    rw [List.mem_append]
    rcases hsplit hkey with hkey | hkey
    · left
      refine hseen hkey ?_
      rcases hthins.lease key with hsame | hnone
      · rwa [← hsame]
      · rw [hnone] at hthere
        cases hthere
    · right
      refine hfound ?_
      rw [hnames, (hgoes hnext).1]
      exact hkey

theorem mem_names {s : Rack} (h : (ledger.lease s key).isSome = true) : key ∈ s.names := by
  have hheld : held key s.slots ≠ none := by
    intro hnone
    rw [show ledger.lease s key = (held key s.slots).filter _ from rfl, hnone] at h
    cases h
  unfold names
  generalize s.slots = slots at hheld ⊢
  induction slots with
  | nil => exact absurd rfl hheld
  | cons e rest ih =>
    obtain ⟨name, l⟩ := e
    rw [held] at hheld
    rw [List.map_cons, List.mem_cons]
    by_cases hname : name = key
    · exact .inl hname.symm
    · rw [if_neg hname] at hheld
      exact .inr (ih hheld)

theorem ends_of_le {scans cursor : Nat} (hscans : 0 < scans)
    (h : w.state.names.length ≤ cursor + scans) : client.Ends pattern scans cursor w := by
  induction scans generalizing cursor w with
  | zero => cases hscans
  | succ scans ih =>
    intro next keys after hscan hnext between hbetween
    obtain ⟨rfl, -, -, hgoes⟩ := scan_cases hscan
    obtain ⟨rfl, hmore⟩ := hgoes hnext
    have hnames := (deletions_thin hbetween).1
    unfold width at hmore ⊢
    exact ih (by omega) (by rw [hnames]; omega)

theorem host_serves : host.Serves where
  keeps := client_keeps
  elapses h s := elapsed_advance h s
  elapsed seconds s := rfl
  get key w := rfl
  set key text w := rfl
  setWithExpiry key text {seconds} h w := by
    show ((client.setWithExpiry key (.int seconds) text).runOn w).1.isOk = true
    rw [runOn_setWithExpiry, if_pos h]
    rfl
  delete h w := rfl
  scan cursor pattern w := rfl
  matching h := by
    obtain ⟨-, rfl, -, -⟩ := scan_cases (Prod.ext h rfl)
    exact fun key hkey => (Bool.and_eq_true_iff.mp (List.mem_filter.mp hkey).2).2
  complete {pattern w final found} h {key} hcovers hthere := by
    obtain ⟨hthinned, hfound⟩ := found_of_iteration h hcovers hthere
    refine hfound (mem_names ?_)
    rcases hthinned.lease key with hsame | hnone
    · rwa [← hsame]
    · rw [show host.ledger.lease final.state key = none from hnone] at hthere
      cases hthere
  ends pattern w := by
    have hslots : w.state.names.length ≤ 0 + (w.state.names.length + 1) := by omega
    exact ends_of_le (Nat.succ_pos _) hslots

end Rack

end ListQuery
