import Mathlib.Data.List.Dedup
import Mathlib.Data.List.DropRight
import ListQuery.Proofs.Cache.Memory

/-!
# A memory as a map ordered by writes

A run of writes, reads and removals on an empty memory keeps, in the order of their last writes, the
entries that were neither removed nor read past their time nor given up for others.

* `Memory.Step`, `Memory.behind`   an operation at a time, and the memory that a run leaves behind;
* `Memory.Standing`                the last write of a key, which no removal followed;
* `Memory.Evicts`, `Evicted`       an entry that is given up for another key;
* `Memory.step_cases`              what a step does to the entry under a key;
* `Memory.WriteOrdered`, `Memory.write_ordered`
                                   what such a memory guarantees after every run.
-/

namespace ListQuery

namespace Memory

/-! ## runs -/

inductive Operation where
  | set (key : String) (content : Stored) (ttl : Option Int)
  | get (key : String)
  | delete (key : String)
  | clear

structure Step where
  time : Binary64
  operation : Operation

namespace Step

def perform (s : Step) : Action Memory Unit :=
  match s.operation with
  | .set key content ttl => Memory.set s.time key content (.ofInt? ttl)
  | .get key => do let _ ← Memory.get s.time key
  | .delete key => Memory.delete key
  | .clear => Memory.clear

def written? (s : Step) : Option String :=
  match s.operation with
  | .set key _ _ => some key
  | _ => none

def Concerns (key : String) (s : Step) : Prop :=
  match s.operation with
  | .set other _ _ => other = key
  | .get _ => False
  | .delete other => other = key
  | .clear => True

end Step

def step (m : Memory) (s : Step) : Memory := (s.perform.runOn ⟨m, []⟩).2.state

/-- what a run leaves behind of an empty memory -/
def behind (limit : Option Nat) (lifetime : Int) (past : List Step) : Memory :=
  past.foldl step (empty limit lifetime)

/-! ## what a run says about a key -/

/-- the keys that were written, each at its last write -/
def written (past : List Step) : List String := (past.filterMap (·.written?)).dedup

/-- the key was written at a time, and since then neither written nor removed -/
def Standing (past : List Step) (time : Binary64) (key : String) (content : Stored)
    (ttl : Option Int) : Prop :=
  ∃ earlier later, past = earlier ++ ⟨time, .set key content ttl⟩ :: later ∧
    ∀ s ∈ later, ¬ s.Concerns key

/-- the entry under the key goes when another key is written -/
def Evicts (m : Memory) (s : Step) (key : String) : Prop :=
  (∃ other ≠ key, s.written? = some other) ∧ key ∈ m.keys ∧ key ∉ (m.step s).keys

/-- the entry under the key was given up for another key, and the key not written since -/
def Evicted (limit : Option Nat) (lifetime : Int) (past : List Step) (key : String) : Prop :=
  ∃ earlier s later, past = earlier ++ s :: later ∧ Evicts (behind limit lifetime earlier) s key ∧
    ∀ s ∈ later, s.written? ≠ some key

variable {limit : Option Nat} {lifetime : Int} {m : Memory} {past : List Step} {s : Step}
  {key : String}

theorem behind_concat (past : List Step) (s : Step) :
    behind limit lifetime (past ++ [s]) = (behind limit lifetime past).step s :=
  List.foldl_concat ..

theorem standing_concat {time : Binary64} {content : Stored} {ttl : Option Int} :
    Standing (past ++ [s]) time key content ttl ↔
      s = ⟨time, .set key content ttl⟩ ∨ (Standing past time key content ttl ∧ ¬ s.Concerns key) :=
  exists_eq_since_concat

theorem evicted_concat :
    Evicted limit lifetime (past ++ [s]) key ↔
      Evicts (behind limit lifetime past) s key ∨
        (Evicted limit lifetime past key ∧ s.written? ≠ some key) :=
  exists_since_concat

theorem dedup_concat (xs : List String) (x : String) :
    (xs ++ [x]).dedup = xs.dedup.filter (· ≠ x) ++ [x] := by
  induction xs with
  | nil => simp
  | cons y ys ih =>
    rw [List.cons_append]
    by_cases hmem : y ∈ ys
    · rw [List.dedup_cons_of_mem hmem, List.dedup_cons_of_mem (List.mem_append_left _ hmem), ih]
    · by_cases hyx : y = x
      · subst hyx
        rw [List.dedup_cons_of_mem (by simp), List.dedup_cons_of_notMem hmem, ih]
        simp
      · rw [List.dedup_cons_of_notMem (by simp [hmem, hyx]), List.dedup_cons_of_notMem hmem, ih]
        simp [hyx]

theorem written_concat (past : List Step) (s : Step) :
    written (past ++ [s]) = match s.written? with
      | none => written past
      | some key => (written past).filter (· ≠ key) ++ [key] := by
  unfold written
  rw [List.filterMap_append]
  cases h : s.written? with
  | none => simp [h]
  | some key => simp only [List.filterMap_cons, h, List.filterMap_nil, dedup_concat]

/-! ## the last keys written -/

theorem mem_rtake {xs : List String} {x : String} {n : Nat} (h : x ∈ xs.rtake n) :
    ∃ front back, xs = front ++ x :: back ∧ back.length < n := by
  unfold List.rtake at h
  obtain ⟨front, back, hback⟩ := List.append_of_mem h
  refine ⟨xs.take (xs.length - n) ++ front, back, ?_, ?_⟩
  · rw [List.append_assoc, ← hback, List.take_append_drop]
  · have hlength := congrArg List.length hback
    rw [List.length_drop, List.length_append, List.length_cons] at hlength
    omega

theorem mem_rtake_of_eq {front back : List String} {x : String} {n : Nat} (h : back.length < n) :
    x ∈ (front ++ x :: back).rtake n := by
  unfold List.rtake
  rw [List.drop_append_of_le_length (by simp; omega)]
  exact List.mem_append_right _ List.mem_cons_self

theorem sublist_behind {x : String} {rest front back : List String}
    (hnodup : (front ++ x :: back).Nodup) (h : (x :: rest).Sublist (front ++ x :: back)) :
    rest.Sublist back := by
  obtain ⟨left, right, heq, hleft, hright⟩ := List.sublist_append_iff.mp h
  cases left with
  | nil =>
    rw [List.nil_append] at heq
    rw [← heq] at hright
    exact List.cons_sublist_cons.mp hright
  | cons y left =>
    obtain ⟨rfl, _⟩ := List.cons.inj heq
    exact absurd rfl ((List.nodup_append.mp hnodup).2.2 x (hleft.mem List.mem_cons_self) x
      List.mem_cons_self)

/-- one of the last `n` keys written was one of them before another key was written -/
theorem recent_of_concat {n : Nat} {past : List Step} (hs : s.written? ≠ some key)
    (h : key ∈ (written (past ++ [s])).rtake n) : key ∈ (written past).rtake n := by
  rw [written_concat] at h
  cases hw : s.written? with
  | none => rwa [hw] at h
  | some other =>
    rw [hw] at h
    have hother : key ≠ other := fun heq => hs (by rw [hw, heq])
    obtain ⟨front, back, hsplit, hlength⟩ := mem_rtake h
    rcases List.eq_nil_or_concat' back with rfl | ⟨back, last, rfl⟩
    · exact absurd (List.cons.inj (List.append_inj' hsplit rfl).2).1.symm hother
    · rw [← List.cons_append, ← List.append_assoc] at hsplit
      obtain ⟨left, right, hwritten, _, hright⟩ :=
        List.filter_eq_append_iff.mp (List.append_inj' hsplit rfl).1
      obtain ⟨skipped, rest, rfl, _, _, hrest⟩ := List.filter_eq_cons_iff.mp hright
      have hnodup : rest.Nodup := by
        have hall : (written past).Nodup := List.nodup_dedup _
        rw [hwritten] at hall
        exact (List.nodup_cons.mp hall.of_append_right.of_append_right).2
      have hle : rest.length - 1 ≤ (rest.erase other).length := List.le_length_erase
      have herase : rest.erase other = back := by
        rw [hnodup.erase_eq_filter, ← hrest]
        exact List.filter_congr fun x _ => by rw [bne, beq_eq_decide, decide_not]
      rw [herase] at hle
      rw [List.length_append, List.length_singleton] at hlength
      rw [hwritten, ← List.append_assoc]
      exact mem_rtake_of_eq (by omega)

/-! ## a step -/

theorem step_eq (h : m.Configured limit lifetime) (hlimit : ∀ n ∈ limit, 1 ≤ n) (s : Step) :
    m.step s = match s.operation with
      | .set key content ttl => m.writing limit key (fresh? s.time content (ttl.getD lifetime))
      | .get key => m.expiring s.time key
      | .delete key => m.dropping key
      | .clear => { m with entries := [] } := by
  obtain ⟨time, operation⟩ := s
  cases operation with
  | set key content ttl =>
    obtain ⟨log', hset⟩ := set_eq h hlimit time key content ttl []
    exact congrArg (·.2.state) hset
  | get key =>
    show ((get time key >>= fun _ => pure ()).runOn ⟨m, []⟩).2.state = _
    rw [Action.runOn_bind, get_eq]
    rfl
  | delete key => exact congrArg (·.2.state) (delete_eq key m [])
  | clear => exact congrArg (·.2.state) (clear_eq m [])

theorem configured_step (h : m.Configured limit lifetime) (hlimit : ∀ n ∈ limit, 1 ≤ n) (s : Step) :
    (m.step s).Configured limit lifetime := by
  rw [step_eq h hlimit]
  split
  · exact h.writing _ _
  · exact h.expiring _ _
  · exact h.dropping _
  · exact ⟨h.limit, h.lifetime⟩

/-- a step keeps the order of the keys, and puts the one that it writes behind the others -/
theorem keys_step (h : m.Configured limit lifetime) (hlimit : ∀ n ∈ limit, 1 ≤ n) (s : Step) :
    (m.step s).keys.Sublist (match s.written? with
      | none => m.keys
      | some key => m.keys.filter (· ≠ key) ++ [key]) := by
  rw [step_eq h hlimit]
  obtain ⟨time, operation⟩ := s
  cases operation with
  | set key content ttl =>
    show (m.writing limit key _).keys.Sublist (m.keys.filter (· ≠ key) ++ [key])
    rw [keys_writing]
    refine ((keys_room limit key m).filter _).append ?_
    cases fresh? time content (ttl.getD lifetime) with
    | none => exact List.nil_sublist _
    | some entry => exact List.Sublist.refl _
  | get key => exact keys_expiring time key m
  | delete key =>
    show (m.dropping key).keys.Sublist m.keys
    rw [keys_dropping]
    exact List.filter_sublist
  | clear => exact List.nil_sublist _

theorem length_step (h : m.Configured limit lifetime) (hlimit : ∀ n ∈ limit, 1 ≤ n) (s : Step)
    {n : Nat} (hn : n ∈ limit) (hm : m.entries.length ≤ n) : (m.step s).entries.length ≤ n := by
  have hpos := hlimit n hn
  have hkept {entries : List (String × MemoryEntry)} (h : entries.Sublist m.entries) :
      entries.length ≤ n := h.length_le.trans hm
  rw [step_eq h hlimit]
  split
  · rename_i key content ttl _
    have hentry : ((fresh? s.time content (ttl.getD lifetime)).map (key, ·)).toList.length ≤ 1 := by
      cases fresh? s.time content (ttl.getD lifetime) <;> simp
    have hroom : (without key (m.room limit key).entries).length ≤ n - 1 := by
      by_cases hfull : Full limit key m
      · have hle : (without key m.entries.tail).length ≤ m.entries.tail.length :=
          List.length_filter_le ..
        rw [List.length_tail] at hle
        rw [room, if_pos hfull]
        exact hle.trans (Nat.sub_le_sub_right hm 1)
      · rw [room, if_neg hfull]
        by_cases hkey : key ∈ m.keys
        · obtain ⟨first, hfirst, rfl⟩ := List.mem_map.mp hkey
          have hlt : (without first.1 m.entries).length < m.entries.length :=
            List.length_filter_lt_length_iff_exists.mpr ⟨first, hfirst, by simp⟩
          omega
        · have hlt : ¬ n ≤ m.entries.length := fun hle => hfull ⟨hkey, n, hn, hle⟩
          have hle : (without key m.entries).length ≤ m.entries.length := List.length_filter_le ..
          omega
    show (without key (m.room limit key).entries ++ _).length ≤ n
    rw [List.length_append]
    omega
  · unfold expiring
    split
    · exact hkept List.filter_sublist
    · exact hm
  · exact hkept List.filter_sublist
  · exact Nat.zero_le n

/-- what a step does to the entry under a key that it neither writes nor removes -/
theorem step_cases (h : m.Configured limit lifetime) (hlimit : ∀ n ∈ limit, 1 ≤ n)
    (hnodup : m.keys.Nodup) (hs : ¬ s.Concerns key) :
    lookup key (m.step s).entries = lookup key m.entries ∨
      (lookup key (m.step s).entries = none ∧ ∃ entry, lookup key m.entries = some entry ∧
        (Evicts m s key ∨ s.time.exceeds entry.expiry = true)) := by
  cases hm : lookup key m.entries with
  | none =>
    -- nothing comes back that was not there
    left
    have hkey : key ∉ (m.step s).keys := by
      intro hmem
      have hmem := (keys_step h hlimit s).mem hmem
      have hnot := lookup_eq_none.mp hm
      cases hw : s.written? with
      | none => rw [hw] at hmem; exact hnot hmem
      | some other =>
        rw [hw, List.mem_append, List.mem_singleton] at hmem
        rcases hmem with hmem | rfl
        · exact hnot (List.mem_of_mem_filter hmem)
        · obtain ⟨time, operation⟩ := s
          cases operation <;> cases hw
          exact hs rfl
    exact lookup_eq_none.mpr hkey
  | some entry =>
    have hmem : key ∈ m.keys := List.mem_map_of_mem (mem_of_lookup hm)
    have hstep := step_eq h hlimit s
    obtain ⟨time, operation⟩ := s
    cases operation with
    | set other content ttl =>
      have hother : key ≠ other := Ne.symm hs
      have hroom : lookup key (m.step ⟨time, .set other content ttl⟩).entries
          = lookup key (m.room limit other).entries := by
        rw [hstep]; exact lookup_writing_of_ne hother limit _ m
      cases hfound : lookup key (m.room limit other).entries with
      | some found =>
        left
        rw [hroom, hfound, ← hm]
        exact (lookup_room hnodup hfound).symm
      | none =>
        right
        rw [hfound] at hroom
        exact ⟨hroom, entry, rfl, .inl ⟨⟨other, Ne.symm hother, rfl⟩, hmem, lookup_eq_none.mp hroom⟩⟩
    | get other =>
      have hread : lookup key (m.step ⟨time, .get other⟩).entries
          = if key = other then m.alive? time other else lookup key m.entries := by
        rw [hstep]; exact lookup_expiring time other key m
      by_cases hother : key = other
      · subst hother
        rw [if_pos rfl, alive?, hm, Option.filter_some] at hread
        cases hexceeds : time.exceeds entry.expiry with
        | false => rw [hexceeds] at hread; exact .inl hread
        | true => rw [hexceeds] at hread; exact .inr ⟨hread, entry, rfl, .inr hexceeds⟩
      · rw [if_neg hother] at hread
        exact .inl (hread.trans hm)
    | delete other =>
      left
      rw [hstep, ← hm]
      exact lookup_without_of_ne (Ne.symm hs) m.entries
    | clear => exact absurd trivial hs

theorem lookup_of_step (h : m.Configured limit lifetime) (hlimit : ∀ n ∈ limit, 1 ≤ n)
    (hnodup : m.keys.Nodup) {entry : MemoryEntry} (hs : s.written? ≠ some key)
    (hfound : lookup key (m.step s).entries = some entry) :
    lookup key m.entries = some entry ∧ ¬ s.Concerns key := by
  have hconcerns : ¬ s.Concerns key := by
    intro hconcerns
    rw [step_eq h hlimit] at hfound
    obtain ⟨time, operation⟩ := s
    cases operation with
    | set other content ttl => exact hs (congrArg some hconcerns)
    | get other => exact hconcerns
    | delete other =>
      have hother : other = key := hconcerns
      subst hother
      exact absurd ((lookup_without_self other m.entries).symm.trans hfound) (by simp)
    | clear => cases hfound
  rcases step_cases h hlimit hnodup hconcerns with heq | ⟨hnone, _⟩
  · exact ⟨heq.symm.trans hfound, hconcerns⟩
  · rw [hnone] at hfound
    cases hfound

/-- only a full memory gives up an entry for a further key: the first one, and no other -/
theorem evicts_cases (h : m.Configured limit lifetime) (hlimit : ∀ n ∈ limit, 1 ≤ n)
    (hs : Evicts m s key) :
    ∃ other, s.written? = some other ∧ Full limit other m ∧
      ∃ entry rest, m.entries = (key, entry) :: rest ∧ rest <+: (m.step s).entries := by
  obtain ⟨⟨other, hother, hwritten⟩, hmem, hgone⟩ := hs
  refine ⟨other, hwritten, ?_⟩
  obtain ⟨time, operation⟩ := s
  cases operation <;> cases hwritten
  rename_i content ttl
  have hstep : m.step ⟨time, .set other content ttl⟩
      = m.writing limit other (fresh? time content (ttl.getD lifetime)) := step_eq h hlimit _
  -- the entry went when room was made, since the key is not the written one
  have hroom : key ∉ (m.room limit other).keys := by
    intro hroom
    rw [hstep, keys_writing] at hgone
    exact hgone (List.mem_append_left _ (List.mem_filter.mpr ⟨hroom, by simpa using Ne.symm hother⟩))
  have hfull : Full limit other m := by
    by_contra hfull
    rw [room, if_neg hfull] at hroom
    exact hroom hmem
  refine ⟨hfull, ?_⟩
  rw [room, if_pos hfull] at hroom
  rw [hstep]
  unfold writing
  rw [room, if_pos hfull]
  cases hentries : m.entries with
  | nil => rw [keys, hentries] at hmem; cases hmem
  | cons first rest =>
    obtain ⟨name, entry⟩ := first
    rw [hentries] at hroom
    have hname : key = name := by
      rw [keys, hentries] at hmem
      exact (List.mem_cons.mp hmem).resolve_right hroom
    have hrest : without other rest = rest := without_of_notMem fun hrest => hfull.1 <| by
      rw [keys, hentries]; exact List.mem_cons_of_mem _ hrest
    subst hname
    refine ⟨entry, rest, rfl, ?_⟩
    show rest <+: without other rest ++ _
    rw [hrest]
    exact List.prefix_append rest _

/-! ## a run -/

section Run

variable (hlimit : ∀ n ∈ limit, 1 ≤ n)
include hlimit

theorem configured_behind (past : List Step) :
    (behind limit lifetime past).Configured limit lifetime := by
  induction past using List.reverseRecOn with
  | nil => exact configured_empty limit lifetime
  | append_singleton past s ih =>
    rw [behind_concat]
    exact configured_step ih hlimit s

theorem length_behind (past : List Step) {n : Nat} (hn : n ∈ limit) :
    (behind limit lifetime past).entries.length ≤ n := by
  induction past using List.reverseRecOn with
  | nil => exact Nat.zero_le n
  | append_singleton past s ih =>
    rw [behind_concat]
    exact length_step (configured_behind hlimit past) hlimit s hn ih

theorem keys_behind (past : List Step) :
    (behind limit lifetime past).keys.Sublist (written past) := by
  induction past using List.reverseRecOn with
  | nil => exact List.nil_sublist _
  | append_singleton past s ih =>
    rw [behind_concat, written_concat]
    refine (keys_step (configured_behind hlimit past) hlimit s).trans ?_
    cases s.written? with
    | none => exact ih
    | some key => exact (ih.filter _).append (List.Sublist.refl _)

theorem nodup_behind (past : List Step) : (behind limit lifetime past).keys.Nodup :=
  (List.nodup_dedup _).sublist (keys_behind hlimit past)

/-- a standing entry that was not given up is found for as long as it may be read -/
theorem lookup_of_standing {past : List Step} {time : Binary64} {content : Stored}
    {ttl : Option Int} {expiry : Binary64} (hstanding : Standing past time key content ttl)
    (hexpiry : after time (.int (ttl.getD lifetime)) = .ok expiry)
    (htimes : ∀ s ∈ past, s.time ≤ expiry) (hkept : ¬ Evicted limit lifetime past key) :
    lookup key (behind limit lifetime past).entries = some ⟨content, expiry⟩ := by
  induction past using List.reverseRecOn with
  | nil => obtain ⟨earlier, later, h, _⟩ := hstanding; simp at h
  | append_singleton past s ih =>
    have hconfigured : (behind limit lifetime past).Configured limit lifetime :=
      configured_behind hlimit past
    rw [behind_concat]
    rw [List.forall_mem_append, List.forall_mem_singleton] at htimes
    rw [evicted_concat, not_or] at hkept
    rcases standing_concat.mp hstanding with rfl | ⟨hstanding, hs⟩
    · rw [step_eq hconfigured hlimit]
      show lookup key (writing limit key (fresh? time content (ttl.getD lifetime)) _).entries = _
      rw [lookup_writing_self, fresh?, hexpiry]
      rfl
    · have hwritten : s.written? ≠ some key := by
        intro hwritten
        obtain ⟨_, operation⟩ := s
        cases operation <;> cases hwritten
        exact hs rfl
      have hfound := ih hstanding htimes.1 fun hevicted => hkept.2 ⟨hevicted, hwritten⟩
      rcases step_cases hconfigured hlimit (nodup_behind hlimit past) hs with heq |
        ⟨_, entry, hentry, hevicts | hexceeds⟩
      · exact heq.trans hfound
      · exact absurd hevicts hkept.1
      · rw [hfound, Option.some_inj] at hentry
        subst hentry
        obtain ⟨htime, hnumber, _⟩ := Binary64.le_iff.mp htimes.2
        rw [(Binary64.exceeds_eq_false_iff htime hnumber).mpr htimes.2] at hexceeds
        cases hexceeds

/-- what is found is a standing entry that was not given up -/
theorem standing_of_lookup {past : List Step} {entry : MemoryEntry}
    (hfound : lookup key (behind limit lifetime past).entries = some entry) :
    (∃ time ttl, Standing past time key entry.content ttl ∧
      after time (.int (ttl.getD lifetime)) = .ok entry.expiry) ∧
      ¬ Evicted limit lifetime past key := by
  induction past using List.reverseRecOn with
  | nil => cases hfound
  | append_singleton past s ih =>
    have hconfigured : (behind limit lifetime past).Configured limit lifetime :=
      configured_behind hlimit past
    rw [behind_concat] at hfound
    have hmem : key ∈ ((behind limit lifetime past).step s).keys :=
      List.mem_map_of_mem (mem_of_lookup hfound)
    rw [evicted_concat, not_or]
    by_cases hwritten : s.written? = some key
    · refine ⟨?_, fun hevicts => hevicts.2.2 hmem, fun hevicted => hevicted.2 hwritten⟩
      obtain ⟨time, operation⟩ := s
      cases operation <;> cases hwritten
      rename_i content ttl
      rw [step_eq hconfigured hlimit] at hfound
      have hfresh : fresh? time content (ttl.getD lifetime) = some entry :=
        (lookup_writing_self limit key _ _).symm.trans hfound
      unfold fresh? at hfresh
      cases hexpiry : after time (.int (ttl.getD lifetime)) with
      | error e => rw [hexpiry] at hfresh; cases hfresh
      | ok expiry =>
        rw [hexpiry] at hfresh
        cases hfresh
        exact ⟨time, ttl, standing_concat.mpr (.inl rfl), hexpiry⟩
    · obtain ⟨hbefore, hs⟩ :=
        lookup_of_step hconfigured hlimit (nodup_behind hlimit past) hwritten hfound
      obtain ⟨⟨time, ttl, hstanding, hexpiry⟩, hkept⟩ := ih hbefore
      exact ⟨⟨time, ttl, standing_concat.mpr (.inr ⟨hstanding, hs⟩), hexpiry⟩,
        fun hevicts => hevicts.2.2 hmem, fun hevicted => hkept hevicted.1⟩

theorem lookup_of_later {earlier later : List Step} (hlater : ∀ s ∈ later, s.written? ≠ some key)
    {entry : MemoryEntry}
    (hfound : lookup key (behind limit lifetime (earlier ++ later)).entries = some entry) :
    lookup key (behind limit lifetime earlier).entries = some entry := by
  induction later using List.reverseRecOn with
  | nil => rwa [List.append_nil] at hfound
  | append_singleton later s ih =>
    rw [List.forall_mem_append, List.forall_mem_singleton] at hlater
    rw [← List.append_assoc, behind_concat] at hfound
    exact ih hlater.1 (lookup_of_step (configured_behind hlimit _) hlimit (nodup_behind hlimit _)
      hlater.2 hfound).1

/-- one of the last `n` keys written is not given up by a memory with place for `n` -/
theorem not_evicted_of_recent {n : Nat} (hn : n ∈ limit) {past : List Step}
    (h : key ∈ (written past).rtake n) : ¬ Evicted limit lifetime past key := by
  induction past using List.reverseRecOn with
  | nil => rintro ⟨earlier, s, later, hpast, _⟩; simp at hpast
  | append_singleton past s ih =>
    rw [evicted_concat]
    rintro (hevicts | ⟨hevicted, hs⟩)
    · obtain ⟨other, hw, ⟨habsent, most, hmost, hfull⟩, entry, rest, hentries, _⟩ :=
        evicts_cases (configured_behind hlimit past) hlimit hevicts
      cases Option.mem_unique hn hmost
      have hkeys : (behind limit lifetime past).keys = key :: rest.map (·.1) := by
        rw [keys, hentries, List.map_cons]
      -- the keys that are there were all written last, and the new one after them
      have hsublist : (key :: rest.map (·.1) ++ [other]).Sublist (written (past ++ [s])) := by
        have hkept : (behind limit lifetime past).keys.Sublist (written past) :=
          keys_behind hlimit past
        have hfilter := hkept.filter (· ≠ other)
        rw [List.filter_eq_self.mpr (by simpa using fun k hk => by rintro rfl; exact habsent hk),
          hkeys] at hfilter
        rw [written_concat, hw]
        exact hfilter.append (List.Sublist.refl _)
      have hnodup : (written (past ++ [s])).Nodup := List.nodup_dedup _
      obtain ⟨front, back, hsplit, hlength⟩ := mem_rtake h
      rw [hsplit] at hsublist hnodup
      have hback : (rest.map (·.1) ++ [other]).length ≤ back.length :=
        (sublist_behind hnodup hsublist).length_le
      rw [List.length_append, List.length_map, List.length_singleton] at hback
      rw [hentries, List.length_cons] at hfull
      omega
    · exact ih (recent_of_concat hs h) hevicted

end Run

/-! ## the whole -/

def Missing (answer : Outcome (Option Stored)) : Prop :=
  answer = .ok none ∨ answer = .ok (some (.value .null))

/-- a map of at most `limit` entries, ordered by their last writes, which drops what may not be read
any more when it is read -/
structure WriteOrdered (limit : Option Nat) (lifetime : Int) : Prop where
  /-- there are no more entries than the limit -/
  bounded (past : List Step) : ∀ n ∈ limit, (behind limit lifetime past).entries.length ≤ n
  /-- the keys stand in the order of their last writes -/
  ordered (past : List Step) : (behind limit lifetime past).keys.Sublist (written past)
  /-- a key is answered with its last write exactly while no removal followed it, its life has not
  ended and it was not given up -/
  answers (past : List Step) (now : Binary64) (key : String) (content : Stored) (log : List LogEntry)
    (clock : ∀ s ∈ past, s.time ≤ now) :
    ((get now key).runOn ⟨behind limit lifetime past, log⟩).1 = .ok (some content) ↔
      (∃ time ttl expiry, Standing past time key content ttl ∧
        after time (.int (ttl.getD lifetime)) = .ok expiry ∧ now ≤ expiry) ∧
      ¬ Evicted limit lifetime past key
  /-- an entry is given up when a key that is not there is written into a full memory; it is the one
  with the oldest last write, and the others stay -/
  evicts (past : List Step) (s : Step) (key : String) (h : Evicts (behind limit lifetime past) s key) :
    limit = some (behind limit lifetime past).entries.length ∧
      (∀ other, s.written? = some other → other ∉ (behind limit lifetime past).keys) ∧
      ∃ entry rest, (behind limit lifetime past).entries = (key, entry) :: rest ∧
        rest <+: (behind limit lifetime (past ++ [s])).entries
  /-- one of the last keys that were written, as many as may be there, is not given up -/
  recent (past : List Step) (key : String) :
    ∀ n ∈ limit, key ∈ (written past).rtake n → ¬ Evicted limit lifetime past key
  /-- what is missing stays so until it is written -/
  missing (past later : List Step) (now next : Binary64) (key : String) (log log' : List LogEntry)
    (h : Missing ((get now key).runOn ⟨behind limit lifetime past, log⟩).1)
    (unwritten : ∀ s ∈ later, s.written? ≠ some key) :
    Missing ((get next key).runOn
      ⟨behind limit lifetime (past ++ ⟨now, .get key⟩ :: later), log'⟩).1

theorem get_eq_some {now : Binary64} {content : Stored} {log : List LogEntry} :
    ((get now key).runOn ⟨m, log⟩).1 = .ok (some content) ↔
      ∃ entry, m.alive? now key = some entry ∧ entry.content = content := by
  rw [get_eq]
  simp

theorem missing_iff {now : Binary64} {log : List LogEntry} :
    Missing ((get now key).runOn ⟨m, log⟩).1 ↔
      ∀ entry, m.alive? now key = some entry → entry.content = .value .null := by
  rw [get_eq, Missing]
  cases m.alive? now key <;> simp

theorem write_ordered (limit : Option Nat) (lifetime : Int) (hlimit : ∀ n ∈ limit, 1 ≤ n) :
    WriteOrdered limit lifetime where
  bounded past _ hn := length_behind hlimit past hn
  ordered past := keys_behind hlimit past
  answers past now key content log clock := by
    rw [get_eq_some]
    constructor
    · rintro ⟨entry, halive, rfl⟩
      obtain ⟨hfound, hexceeds⟩ := alive?_eq_some.mp halive
      obtain ⟨⟨time, ttl, hstanding, hexpiry⟩, hkept⟩ := standing_of_lookup hlimit hfound
      refine ⟨⟨time, ttl, entry.expiry, hstanding, hexpiry, ?_⟩, hkept⟩
      have htime : time ≤ now := by
        obtain ⟨earlier, later, rfl, _⟩ := hstanding
        exact clock ⟨time, _⟩ (List.mem_append_right _ List.mem_cons_self)
      obtain ⟨hnumber, hnow, _⟩ := Binary64.le_iff.mp htime
      exact (Binary64.exceeds_eq_false_iff hnow (isNaN_after hexpiry hnumber)).mp hexceeds
    · rintro ⟨⟨time, ttl, expiry, hstanding, hexpiry, hnow⟩, hkept⟩
      have hfound := lookup_of_standing hlimit hstanding hexpiry
        (fun s hs => Binary64.le_trans (clock s hs) hnow) hkept
      obtain ⟨hnumber, hnumber', _⟩ := Binary64.le_iff.mp hnow
      exact ⟨⟨content, expiry⟩,
        alive?_eq_some.mpr ⟨hfound, (Binary64.exceeds_eq_false_iff hnumber hnumber').mpr hnow⟩, rfl⟩
  evicts past s key h := by
    obtain ⟨other, hwritten, ⟨habsent, n, hn, hfull⟩, entry, rest, hentries, hrest⟩ :=
      evicts_cases (configured_behind hlimit past) hlimit h
    refine ⟨?_, ?_, entry, rest, hentries, ?_⟩
    · rw [Nat.le_antisymm (length_behind hlimit past hn) hfull]
      exact hn
    · rintro _ hother
      rw [hwritten] at hother
      cases hother
      exact habsent
    · rw [behind_concat]
      exact hrest
  recent past key _ hn h := not_evicted_of_recent hlimit hn h
  missing past later now next key log log' h unwritten := by
    rw [missing_iff] at h ⊢
    intro entry halive
    have hfound := (alive?_eq_some.mp halive).1
    rw [List.append_cons] at hfound
    have hread := lookup_of_later hlimit unwritten hfound
    rw [behind_concat, step_eq (configured_behind hlimit past) hlimit] at hread
    have hbefore : (behind limit lifetime past).alive? now key = some entry := by
      rw [← hread]
      exact ((lookup_expiring now key key _).trans (if_pos rfl)).symm
    exact h entry hbefore

/-- with place for two, the second of three keys is given up, since the first was written again -/
theorem write_ordered_three :
    (∀ n ∈ some 2, 1 ≤ n) ∧
    let past : List Step := [
      ⟨.exactly 1, .set "a" (.value (.int 1)) none⟩,
      ⟨.exactly 2, .set "b" (.value (.int 2)) none⟩,
      ⟨.exactly 3, .set "a" (.value (.int 3)) (some 60)⟩,
      ⟨.exactly 4, .set "c" (.value (.int 4)) none⟩]
    (behind (some 2) 300 past).keys = ["a", "c"] ∧
      (behind (some 2) 300 past).keys.Sublist (written past) ∧
      ¬ Evicted (some 2) 300 past "a" ∧
      ((get (.exactly 63) "a").runOn ⟨behind (some 2) 300 past, []⟩).1
        = .ok (some (.value (.int 3))) := by
  have hlimit : ∀ n ∈ some 2, 1 ≤ n := by simp
  have hordered := write_ordered (some 2) 300 hlimit
  refine ⟨hlimit, by decide +kernel, hordered.ordered _, ?_, ?_⟩
  · exact hordered.recent _ "a" 2 rfl (by decide +kernel)
  · refine (hordered.answers _ _ "a" _ [] (by decide +kernel)).mpr ⟨⟨.exactly 3, some 60, _,
      ⟨[_, _], [_], rfl, by simp [Step.Concerns]⟩, rfl, by decide +kernel⟩, ?_⟩
    exact hordered.recent _ "a" 2 rfl (by decide +kernel)

end Memory

end ListQuery
