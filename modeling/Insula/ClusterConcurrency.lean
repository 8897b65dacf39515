import Insula.Lookup
import Insula.Transition
import Mathlib.Data.Int.Notation
import Mathlib.Data.List.Nodup

/-!
# The cluster-wide gate of backup captures

`cluster-concurrency.ts` keeps one row of `tenant_bundle_in_flight` for each capture that holds a
slot. To acquire, a replica opens a transaction, takes an advisory lock, counts the rows that were
refreshed lately and inserts its own if there are fewer than the cap; the commit gives the lock
back. Holders refresh their rows from a timer, releases and the reaping of old rows delete. `NOW()`
is the start of a transaction: what a statement compares with may be older than the moment it runs
at, and what an acquisition stamps its row with is older than its wait for the lock.
-/

namespace Insula.ClusterGate

open Transition Lookup

def staleAfterMs : ℤ := 5 * 60 * 1000

structure SlotKey where
  bundleId : String
  component : String
  deriving DecidableEq

structure InFlight where
  key : SlotKey
  refreshedAt : ℤ
  deriving DecidableEq

/-- How far a capture is with `acquireGlobalSlot` and `release`. -/
inductive Phase
  | waiting
  /-- The transaction of an attempt is open, since `now`. -/
  | trying (now : ℤ)
  /-- It has counted fewer rows than the cap. -/
  | counted (now : ℤ)
  /-- It holds a slot; `NOW()` of the last statement that wrote to its row. -/
  | holding (lastBeat : ℤ)
  /-- Its `release` has deleted the row. -/
  | freed
  /-- It gave up, or came to an end without deleting its row. -/
  | ended
  deriving DecidableEq

structure Capture where
  key : SlotKey
  phase : Phase
  deriving DecidableEq

structure State where
  /-- The clock of the database. -/
  now : ℤ
  rows : List InFlight
  captures : List Capture
  /-- The capture whose transaction has the advisory lock. -/
  lock : Option ℕ
  /-- When a capture acquired its slot, by the clock of the database. No step looks at it. -/
  acquiredAt : ℕ → ℤ

inductive Action
  | spawn (key : SlotKey)
  | start (i : ℕ)
  | count (i : ℕ)
  | insert (i : ℕ)
  /-- The transaction of an attempt fails. -/
  | rollback (i : ℕ)
  /-- The deadline, the signal to abort, or the end of the process. -/
  | giveUp (i : ℕ)
  /-- A heartbeat whose `NOW()` is `sent`. -/
  | beat (i : ℕ) (sent : ℤ)
  /-- The `DELETE` of `release`, which may fail. -/
  | release (i : ℕ) (ok : Bool)
  /-- `reapStaleInFlight`. -/
  | reap (sent : ℤ)

structure Event where
  now : ℤ
  action : Action

namespace State

variable (s : State)

def active (now : ℤ) : List InFlight := s.rows.filter fun r => now - staleAfterMs < r.refreshedAt

def setPhase (i : ℕ) (c : Capture) (phase : Phase) : State :=
  { s with captures := s.captures.set i { c with phase := phase } }

def upsert (key : SlotKey) (now : ℤ) : List InFlight :=
  if s.rows.any fun r => r.key = key then
    s.rows.map fun r => if r.key = key then { r with refreshedAt := now } else r
  else s.rows ++ [{ key := key, refreshedAt := now }]

def refresh (key : SlotKey) (now : ℤ) : List InFlight :=
  s.rows.map fun r => if r.key = key then { r with refreshedAt := now } else r

end State

def Capture.holds (c : Capture) : Bool :=
  match c.phase with
  | .holding _ => true
  | _ => false

def State.held (s : State) : ℕ := s.captures.countP Capture.holds

section Step

variable (cap : ℤ)

def act (now : ℤ) (s : State) : Action → Option State
  | .spawn key =>
    if key ∉ s.captures.map Capture.key then
      some { s with captures := s.captures ++ [{ key := key, phase := .waiting }] }
    else none
  | .start i =>
    match s.captures[i]? with
    -- With the gate disabled there is nothing to acquire.
    | some c => if c.phase = .waiting ∧ 0 < cap then some (s.setPhase i c (.trying now)) else none
    | none => none
  | .count i =>
    match s.captures[i]? with
    | some c =>
      match c.phase, s.lock with
      | .trying started, none =>
        if cap ≤ (s.active started).length then some (s.setPhase i c .waiting)
        else some { s.setPhase i c (.counted started) with lock := some i }
      | _, _ => none
    | none => none
  | .insert i =>
    match s.captures[i]? with
    | some c =>
      match c.phase with
      | .counted started =>
        some
          { s.setPhase i c (.holding started) with
            rows := s.upsert c.key started
            lock := none
            acquiredAt := fun j => if j = i then now else s.acquiredAt j }
      | _ => none
    | none => none
  | .rollback i =>
    match s.captures[i]? with
    | some c =>
      match c.phase with
      | .trying _ => some (s.setPhase i c .ended)
      | .counted _ => some { s.setPhase i c .ended with lock := none }
      | _ => none
    | none => none
  | .giveUp i =>
    match s.captures[i]? with
    | some c =>
      match c.phase with
      | .waiting => some (s.setPhase i c .ended)
      | .holding _ => some (s.setPhase i c .ended)
      | _ => none
    | none => none
  | .beat i sent =>
    match s.captures[i]? with
    | some c =>
      if sent ≤ now then
        match c.phase with
        | .holding _ =>
          some { s.setPhase i c (.holding sent) with rows := s.refresh c.key sent }
        -- A heartbeat that was under way when the capture ended.
        | .freed => some { s with rows := s.refresh c.key sent }
        | .ended => some { s with rows := s.refresh c.key sent }
        | _ => none
      else none
    | none => none
  | .release i ok =>
    match s.captures[i]? with
    | some c =>
      match c.phase with
      | .holding _ =>
        if ok then
          some { s.setPhase i c .freed with rows := s.rows.filter fun r => r.key ≠ c.key }
        else some (s.setPhase i c .ended)
      | _ => none
    | none => none
  | .reap sent =>
    if sent ≤ now then
      some { s with rows := s.rows.filter fun r => ¬ r.refreshedAt < sent - staleAfterMs * 2 }
    else none

def step (s : State) (e : Event) : Option State :=
  if s.now ≤ e.now then act cap e.now { s with now := e.now } e.action else none

end Step

/-! ## The invariant -/

/-- Every holder has a row with its last heartbeat, a slot that was given back has none, and there
is room for the attempt that has the lock. -/
structure Sound (cap : ℤ) (s : State) : Prop where
  keys : (s.captures.map Capture.key).Nodup
  rowOfHolder : ∀ (i : ℕ) c lastBeat, s.captures[i]? = some c → c.phase = .holding lastBeat →
    ∃ r ∈ s.rows, r.key = c.key ∧ r.refreshedAt = lastBeat
  freed : ∀ (i : ℕ) c, s.captures[i]? = some c → c.phase = .freed → ∀ r ∈ s.rows, r.key ≠ c.key
  started : ∀ (i : ℕ) c t, s.captures[i]? = some c → c.phase = .trying t ∨ c.phase = .counted t →
    t ≤ s.now
  locked : ∀ (i : ℕ) c t, s.captures[i]? = some c → c.phase = .counted t → s.lock = some i
  room : s.lock ≠ none → (s.held : ℤ) < cap
  capped : (s.held : ℤ) ≤ cap

def Phase.lastBeat : Phase → Option ℤ
  | .holding lastBeat => some lastBeat
  | _ => none

/-- When anything happens, every holder's row was refreshed within the stale window. -/
def Timely (s : State) (e : Event) : Prop :=
  ∀ c ∈ s.captures, ∀ lastBeat ∈ c.phase.lastBeat, e.now - staleAfterMs < lastBeat

/-- When anything happens, every holder acquired its slot within the stale window, or has sent a
heartbeat within it. -/
def HeartbeatsInTime (s : State) (e : Event) : Prop :=
  ∀ p ∈ s.captures.zipIdx, ∀ lastBeat ∈ p.1.phase.lastBeat,
    e.now - staleAfterMs < s.acquiredAt p.2 ∨ e.now - staleAfterMs < lastBeat

instance (s : State) (e : Event) : Decidable (Timely s e) := by
  unfold Timely
  infer_instance

instance (s : State) (e : Event) : Decidable (HeartbeatsInTime s e) := by
  unfold HeartbeatsInTime
  infer_instance

section Keeps

variable {cap lastBeat started now : ℤ} {s t : State} {i j : ℕ} {c c' : Capture} {phase : Phase}
  {rows : List InFlight}

theorem Timely.lt {e : Event} (h : Timely s e) (hc : s.captures[i]? = some c)
    (hphase : c.phase = .holding lastBeat) : e.now - staleAfterMs < lastBeat := by
  exact h c (List.mem_of_getElem? hc) lastBeat (by simp [hphase, Phase.lastBeat])

theorem Sound.index_eq (hs : Sound cap s) (hc : s.captures[i]? = some c)
    (hc' : s.captures[j]? = some c') (hkey : c.key = c'.key) : i = j := by
  obtain ⟨hi, rfl⟩ := List.getElem?_eq_some_iff.mp hc
  obtain ⟨hj, rfl⟩ := List.getElem?_eq_some_iff.mp hc'
  have hi' : i < (s.captures.map Capture.key).length := by simpa using hi
  have hj' : j < (s.captures.map Capture.key).length := by simpa using hj
  have heq : (s.captures.map Capture.key)[i] = (s.captures.map Capture.key)[j] := by
    simpa using hkey
  exact (hs.keys.getElem_inj_iff).mp heq

theorem held_setPhase (hc : s.captures[i]? = some c) (phase : Phase) :
    ((s.setPhase i c phase).held : ℤ) = s.held - (if c.holds then 1 else 0) +
        (if ({ c with phase := phase } : Capture).holds then 1 else 0) := by
  obtain ⟨hi, rfl⟩ := List.getElem?_eq_some_iff.mp hc
  unfold State.held State.setPhase
  rw [List.countP_set hi]
  have hpos : (if (s.captures[i]).holds then 1 else 0) ≤ s.captures.countP Capture.holds := by
    split
    · rename_i hholds
      exact List.countP_pos_iff.mpr ⟨_, List.getElem_mem hi, hholds⟩
    · omega
  split_ifs at hpos ⊢ <;> omega

theorem Sound.setPhase (hs : Sound cap s) (hc : s.captures[i]? = some c) (rows : List InFlight)
    (lock : Option ℕ) (hrows : ∀ (j : ℕ) c' lastBeat, j ≠ i → s.captures[j]? = some c' →
      c'.phase = .holding lastBeat → ∃ r ∈ rows, r.key = c'.key ∧ r.refreshedAt = lastBeat)
    (hown : ∀ lastBeat, phase = .holding lastBeat →
      ∃ r ∈ rows, r.key = c.key ∧ r.refreshedAt = lastBeat)
    (hfreed : ∀ (j : ℕ) c', j ≠ i → s.captures[j]? = some c' → c'.phase = .freed →
      ∀ r ∈ rows, r.key ≠ c'.key) (hownFreed : phase = .freed → ∀ r ∈ rows, r.key ≠ c.key)
    (hstarted : ∀ t, phase = .trying t ∨ phase = .counted t → t ≤ s.now)
    (hlocked : ∀ (j : ℕ) c' t, j ≠ i → s.captures[j]? = some c' → c'.phase = .counted t →
      lock = some j) (hownLocked : ∀ t, phase = .counted t → lock = some i)
    (hroom : lock ≠ none → ((s.setPhase i c phase).held : ℤ) < cap)
    (hcapped : ((s.setPhase i c phase).held : ℤ) ≤ cap) :
    Sound cap { s.setPhase i c phase with rows := rows, lock := lock } where
  keys := by
    have hkeys : ((s.setPhase i c phase).captures.map Capture.key) = s.captures.map Capture.key := by
      obtain ⟨hi, rfl⟩ := List.getElem?_eq_some_iff.mp hc
      have hi' : i < (s.captures.map Capture.key).length := by simpa using hi
      have hkey : (s.captures[i]).key = (s.captures.map Capture.key)[i] := by simp
      simp only [State.setPhase, List.map_set]
      rw [hkey, List.set_getElem_self]
    change ((s.setPhase i c phase).captures.map Capture.key).Nodup
    rw [hkeys]
    exact hs.keys
  rowOfHolder j c' lastBeat hc' hphase := by
    rcases getElem?_set_eq_some.mp hc' with ⟨rfl, -, rfl⟩ | ⟨hne, hj⟩
    · exact hown lastBeat hphase
    · exact hrows j c' lastBeat (Ne.symm hne) hj hphase
  freed j c' hc' hphase := by
    rcases getElem?_set_eq_some.mp hc' with ⟨rfl, -, rfl⟩ | ⟨hne, hj⟩
    · exact hownFreed hphase
    · exact hfreed j c' (Ne.symm hne) hj hphase
  started j c' t hc' hphase := by
    rcases getElem?_set_eq_some.mp hc' with ⟨rfl, -, rfl⟩ | ⟨-, hj⟩
    · exact hstarted t hphase
    · exact hs.started j c' t hj hphase
  locked j c' t hc' hphase := by
    rcases getElem?_set_eq_some.mp hc' with ⟨rfl, -, rfl⟩ | ⟨hne, hj⟩
    · exact hownLocked t hphase
    · exact hlocked j c' t (Ne.symm hne) hj hphase
  room := hroom
  capped := hcapped

theorem Sound.leave (hs : Sound cap s) (hc : s.captures[i]? = some c)
    (hholds : ∀ lastBeat, phase ≠ .holding lastBeat) (hfreed : phase ≠ .freed)
    (hcounted : ∀ t, phase ≠ .counted t) (hstarted : ∀ t, phase = .trying t → t ≤ s.now) :
    Sound cap (s.setPhase i c phase) := by
  have hnone : ({ c with phase := phase } : Capture).holds = false := by
    unfold Capture.holds
    cases phase with
    | holding lastBeat => exact absurd rfl (hholds lastBeat)
    | _ => rfl
  have hheld : ((s.setPhase i c phase).held : ℤ) ≤ s.held := by
    rw [held_setPhase hc, hnone]
    split
    · simp only [Bool.false_eq_true, if_false]
      omega
    · simp
  apply hs.setPhase hc s.rows s.lock
  · exact fun j c' lastBeat _ => hs.rowOfHolder j c' lastBeat
  · exact fun lastBeat h => absurd h (hholds lastBeat)
  · exact fun j c' _ => hs.freed j c'
  · exact fun h => absurd h hfreed
  · rintro t (h | h)
    · exact hstarted t h
    · exact absurd h (hcounted t)
  · exact fun j c' t _ => hs.locked j c' t
  · exact fun t h => absurd h (hcounted t)
  · intro hlock
    have := hs.room hlock
    omega
  · have := hs.capped
    omega

theorem Sound.rest (hs : Sound cap s) (hc : s.captures[i]? = some c)
    (hphase : phase = .waiting ∨ phase = .ended) : Sound cap (s.setPhase i c phase) := by
  rcases hphase with rfl | rfl
  · exact hs.leave hc (fun _ h => by cases h) (fun h => by cases h) (fun _ h => by cases h)
      (fun _ h => by cases h)
  · exact hs.leave hc (fun _ h => by cases h) (fun h => by cases h) (fun _ h => by cases h)
      (fun _ h => by cases h)

/-- Fewer rows counted than the cap means fewer slots held: every holder's row was counted. -/
theorem Sound.held_le_active (hs : Sound cap s)
    (hfresh : ∀ (i : ℕ) c lastBeat, s.captures[i]? = some c → c.phase = .holding lastBeat →
      started - staleAfterMs < lastBeat) : s.held ≤ (s.active started).length := by
  have hkeys : ((s.captures.filter Capture.holds).map Capture.key).Nodup :=
    hs.keys.sublist (List.filter_sublist.map _)
  have hsub : (s.captures.filter Capture.holds).map Capture.key ⊆
      (s.active started).map InFlight.key := by
    intro key hkey
    obtain ⟨c, hc, rfl⟩ := List.mem_map.mp hkey
    obtain ⟨hmem, hholds⟩ := List.mem_filter.mp hc
    obtain ⟨i, hi⟩ := List.mem_iff_getElem?.mp hmem
    cases hphase : c.phase with
    | holding lastBeat =>
      obtain ⟨r, hr, hrkey, hrefreshed⟩ := hs.rowOfHolder i c lastBeat hi hphase
      have hlt := hfresh i c lastBeat hi hphase
      refine List.mem_map.mpr ⟨r, List.mem_filter.mpr ⟨hr, ?_⟩, hrkey⟩
      simp only [decide_eq_true_eq]
      omega
    | _ => simp [Capture.holds, hphase] at hholds
  have hlen := hkeys.length_le_of_subset hsub
  simp only [List.length_map] at hlen
  unfold State.held
  rw [List.countP_eq_length_filter]
  exact hlen

theorem mem_refresh {key : SlotKey} {r' : InFlight} : r' ∈ s.refresh key now ↔
      (r' ∈ s.rows ∧ r'.key ≠ key) ∨ ∃ r ∈ s.rows, r.key = key ∧
      r' = { r with refreshedAt := now } := by
  unfold State.refresh
  rw [List.mem_map]
  constructor
  · rintro ⟨r, hr, rfl⟩
    by_cases hkey : r.key = key
    · rw [if_pos hkey]
      exact .inr ⟨r, hr, hkey, rfl⟩
    · rw [if_neg hkey]
      exact .inl ⟨hr, hkey⟩
  · rintro (⟨hr, hkey⟩ | ⟨r, hr, hkey, rfl⟩)
    · exact ⟨r', hr, if_neg hkey⟩
    · exact ⟨r, hr, if_pos hkey⟩

/-- What a write to the row of one key leaves of the others, and puts in its place. -/
structure Writes (rows rows' : List InFlight) (key : SlotKey) (now : ℤ) : Prop where
  other : ∀ r, r.key ≠ key → (r ∈ rows' ↔ r ∈ rows)
  own : ∀ r ∈ rows', r.key = key → r.refreshedAt = now

theorem refresh_writes (key : SlotKey) (now : ℤ) : Writes s.rows (s.refresh key now) key now where
  other r hr := by
    rw [mem_refresh]
    constructor
    · rintro (⟨h, -⟩ | ⟨r', -, hkey, rfl⟩)
      · exact h
      · exact absurd hkey hr
    · intro h
      exact .inl ⟨h, hr⟩
  own r hr hkey := by
    rcases mem_refresh.mp hr with ⟨-, hne⟩ | ⟨r', -, -, rfl⟩
    · exact absurd hkey hne
    · rfl

theorem upsert_writes (key : SlotKey) (now : ℤ) : Writes s.rows (s.upsert key now) key now := by
  unfold State.upsert
  split
  · exact refresh_writes key now
  · rename_i hnone
    constructor
    · intro r hr
      simp only [List.mem_append, List.mem_singleton]
      constructor
      · rintro (h | rfl)
        · exact h
        · exact absurd rfl hr
      · intro h
        exact .inl h
    · intro r hr hkey
      rcases List.mem_append.mp hr with h | h
      · exact absurd (List.any_eq_true.mpr ⟨r, h, by simpa using hkey⟩) hnone
      · rw [List.mem_singleton.mp h]

theorem mem_upsert (key : SlotKey) (now : ℤ) :
    ∃ r ∈ s.upsert key now, r.key = key ∧ r.refreshedAt = now := by
  unfold State.upsert
  split
  · rename_i hany
    obtain ⟨r, hr, hkey⟩ := List.any_eq_true.mp hany
    have hkey : r.key = key := by simpa using hkey
    exact ⟨{ r with refreshedAt := now }, List.mem_map.mpr ⟨r, hr, if_pos hkey⟩, hkey, rfl⟩
  · exact ⟨_, List.mem_append_right _ (List.mem_singleton.mpr rfl), rfl, rfl⟩

theorem Sound.rows_of_writes (hs : Sound cap s) (hc : s.captures[i]? = some c)
    (hw : Writes s.rows rows c.key now) (hne : j ≠ i) (hc' : s.captures[j]? = some c')
    (hphase : c'.phase = .holding lastBeat) :
    ∃ r ∈ rows, r.key = c'.key ∧ r.refreshedAt = lastBeat := by
  obtain ⟨r, hr, hkey, hrefreshed⟩ := hs.rowOfHolder j c' lastBeat hc' hphase
  refine ⟨r, (hw.other r ?_).mpr hr, hkey, hrefreshed⟩
  intro hown
  exact hne (hs.index_eq hc hc' (hown.symm.trans hkey)).symm

theorem Sound.freed_of_writes (hs : Sound cap s) (hc : s.captures[i]? = some c)
    (hw : Writes s.rows rows c.key now) (hne : j ≠ i) (hc' : s.captures[j]? = some c')
    (hphase : c'.phase = .freed) : ∀ r ∈ rows, r.key ≠ c'.key := by
  intro r hr hkey
  have hother : r.key ≠ c.key := by
    intro hown
    exact hne (hs.index_eq hc hc' (hown.symm.trans hkey)).symm
  exact hs.freed j c' hc' hphase r ((hw.other r hother).mp hr) hkey

theorem Sound.acquiredAt (hs : Sound cap s) (acquiredAt : ℕ → ℤ) :
    Sound cap { s with acquiredAt := acquiredAt } where
  keys := hs.keys
  rowOfHolder := hs.rowOfHolder
  freed := hs.freed
  started := hs.started
  locked := hs.locked
  room := hs.room
  capped := hs.capped

theorem Sound.tick (hs : Sound cap s) (hnow : s.now ≤ now) :
    Sound cap { s with now := now } where
  keys := hs.keys
  rowOfHolder := hs.rowOfHolder
  freed := hs.freed
  started i c t hc hphase := Int.le_trans (hs.started i c t hc hphase) hnow
  locked := hs.locked
  room := hs.room
  capped := hs.capped

theorem Sound.withRows (hs : Sound cap s)
    (hrows : ∀ (j : ℕ) c' lastBeat, s.captures[j]? = some c' → c'.phase = .holding lastBeat →
      ∃ r ∈ rows, r.key = c'.key ∧ r.refreshedAt = lastBeat)
    (hfreed : ∀ (j : ℕ) c', s.captures[j]? = some c' → c'.phase = .freed →
      ∀ r ∈ rows, r.key ≠ c'.key) : Sound cap { s with rows := rows } where
  keys := hs.keys
  rowOfHolder := hrows
  freed := hfreed
  started := hs.started
  locked := hs.locked
  room := hs.room
  capped := hs.capped

theorem Sound.spawn (hs : Sound cap s) {key : SlotKey} (hkey : key ∉ s.captures.map Capture.key) :
    Sound cap { s with captures := s.captures ++ [{ key := key, phase := .waiting }] } := by
  have hheld : State.held { s with captures := s.captures ++ [{ key := key, phase := .waiting }] } =
      s.held := by
    simp [State.held, Capture.holds]
  have hold : ∀ (j : ℕ) c', (s.captures ++ [{ key := key, phase := .waiting }])[j]? = some c' →
      c'.phase ≠ .waiting → s.captures[j]? = some c' := by
    intro j c' hc' hphase
    rcases getElem?_concat_eq_some.mp hc' with h | ⟨-, rfl⟩
    · exact h
    · exact absurd rfl hphase
  constructor
  · have hnodup := hs.keys
    simp only [List.map_append, List.map_cons, List.map_nil]
    exact List.nodup_append.mpr
      ⟨hnodup, List.nodup_singleton _, fun a ha b hb hab => hkey (by simp_all)⟩
  · intro j c' lastBeat hc' hphase
    exact hs.rowOfHolder j c' lastBeat (hold j c' hc' (by simp [hphase])) hphase
  · intro j c' hc' hphase
    exact hs.freed j c' (hold j c' hc' (by simp [hphase])) hphase
  · intro j c' t hc' hphase
    exact hs.started j c' t (hold j c' hc' (by rcases hphase with h | h <;> simp [h])) hphase
  · intro j c' t hc' hphase
    exact hs.locked j c' t (hold j c' hc' (by simp [hphase])) hphase
  · intro hlock
    rw [hheld]
    exact hs.room hlock
  · rw [hheld]
    exact hs.capped

theorem Sound.counted (hs : Sound cap s) (hc : s.captures[i]? = some c)
    (hphase : c.phase = .trying started) (hlock : s.lock = none)
    (hfresh : ∀ (j : ℕ) c' lastBeat, s.captures[j]? = some c' → c'.phase = .holding lastBeat →
      started - staleAfterMs < lastBeat) (hroom : ¬ cap ≤ (s.active started).length) :
    Sound cap { s.setPhase i c (.counted started) with lock := some i } := by
  have hcount := hs.held_le_active hfresh
  have hheld : ((s.setPhase i c (.counted started)).held : ℤ) = s.held := by
    rw [held_setPhase hc]
    simp [Capture.holds, hphase]
  apply hs.setPhase hc s.rows (some i)
  · exact fun j c' lastBeat _ => hs.rowOfHolder j c' lastBeat
  · exact fun lastBeat h => by cases h
  · exact fun j c' _ => hs.freed j c'
  · exact fun h => by cases h
  · rintro t (h | h)
    · cases h
    · cases h
      exact hs.started i c started hc (.inl hphase)
  · intro j c' t _ hc' hphase'
    rw [hs.locked j c' t hc' hphase'] at hlock
    cases hlock
  · exact fun t _ => rfl
  · intro _
    omega
  · omega

theorem Sound.insert (hs : Sound cap s) (hc : s.captures[i]? = some c)
    (hphase : c.phase = .counted started) : Sound cap
      { s.setPhase i c (.holding started) with rows := s.upsert c.key started, lock := none } := by
  have hlock := hs.locked i c started hc hphase
  have hlt : (s.held : ℤ) < cap := hs.room (by simp [hlock])
  have hheld : ((s.setPhase i c (.holding started)).held : ℤ) = s.held + 1 := by
    rw [held_setPhase hc]
    simp [Capture.holds, hphase]
  have hw := upsert_writes (s := s) c.key started
  apply hs.setPhase hc
  · exact fun j c' lastBeat hne => hs.rows_of_writes hc hw hne
  · intro lastBeat h
    cases h
    exact mem_upsert c.key started
  · exact fun j c' hne => hs.freed_of_writes hc hw hne
  · exact fun h => by cases h
  · rintro t (h | h) <;> cases h
  · intro j c' t hne hc' hphase'
    rw [hs.locked j c' t hc' hphase'] at hlock
    exact absurd (Option.some.inj hlock) hne
  · exact fun t h => by cases h
  · exact fun h => absurd rfl h
  · omega

theorem Sound.unlock (hs : Sound cap s) (hc : s.captures[i]? = some c)
    (hphase : c.phase = .counted started) :
    Sound cap { s.setPhase i c .ended with lock := none } := by
  have hlock := hs.locked i c started hc hphase
  have hheld : ((s.setPhase i c .ended).held : ℤ) = s.held := by
    rw [held_setPhase hc]
    simp [Capture.holds, hphase]
  apply hs.setPhase hc s.rows none
  · exact fun j c' lastBeat _ => hs.rowOfHolder j c' lastBeat
  · exact fun lastBeat h => by cases h
  · exact fun j c' _ => hs.freed j c'
  · exact fun h => by cases h
  · rintro t (h | h) <;> cases h
  · intro j c' t hne hc' hphase'
    rw [hs.locked j c' t hc' hphase'] at hlock
    exact absurd (Option.some.inj hlock) hne
  · exact fun t h => by cases h
  · exact fun h => absurd rfl h
  · have := hs.capped
    omega

theorem Sound.beat (hs : Sound cap s) (hc : s.captures[i]? = some c) {sent : ℤ}
    (hphase : c.phase = .holding lastBeat) :
    Sound cap { s.setPhase i c (.holding sent) with rows := s.refresh c.key sent } := by
  have hheld : ((s.setPhase i c (.holding sent)).held : ℤ) = s.held := by
    rw [held_setPhase hc]
    simp [Capture.holds, hphase]
  have hw := refresh_writes (s := s) c.key sent
  apply hs.setPhase hc (s.refresh c.key sent) s.lock
  · exact fun j c' lastBeat' hne => hs.rows_of_writes hc hw hne
  · intro lastBeat' h
    cases h
    obtain ⟨r, hr, hkey, -⟩ := hs.rowOfHolder i c lastBeat hc hphase
    exact ⟨{ r with refreshedAt := sent }, mem_refresh.mpr (.inr ⟨r, hr, hkey, rfl⟩), hkey, rfl⟩
  · exact fun j c' hne => hs.freed_of_writes hc hw hne
  · exact fun h => by cases h
  · rintro t (h | h) <;> cases h
  · exact fun j c' t _ => hs.locked j c' t
  · exact fun t h => by cases h
  · intro hlock
    rw [hheld]
    exact hs.room hlock
  · rw [hheld]
    exact hs.capped

theorem Sound.lateBeat (hs : Sound cap s) (hc : s.captures[i]? = some c)
    (hphase : c.phase = .freed ∨ c.phase = .ended) (sent : ℤ) :
    Sound cap { s with rows := s.refresh c.key sent } := by
  have hw := refresh_writes (s := s) c.key sent
  apply hs.withRows
  · intro j c' lastBeat hc' hphase'
    by_cases hji : j = i
    · subst hji
      cases hc.symm.trans hc'
      rw [hphase'] at hphase
      rcases hphase with h | h <;> cases h
    · exact hs.rows_of_writes hc hw hji hc' hphase'
  · intro j c' hc' hphase'
    by_cases hji : j = i
    · subst hji
      cases hc.symm.trans hc'
      intro r hr hkey
      rcases mem_refresh.mp hr with ⟨hold, -⟩ | ⟨r', hold, hkey', -⟩
      · exact hs.freed j c hc hphase' r hold hkey
      · exact hs.freed j c hc hphase' r' hold hkey'
    · exact hs.freed_of_writes hc hw hji hc' hphase'

theorem Sound.release (hs : Sound cap s) (hc : s.captures[i]? = some c)
    (hphase : c.phase = .holding lastBeat) : Sound cap
      { s.setPhase i c .freed with rows := s.rows.filter fun r => r.key ≠ c.key } := by
  have hheld : ((s.setPhase i c .freed).held : ℤ) = s.held - 1 := by
    rw [held_setPhase hc]
    simp [Capture.holds, hphase]
  apply hs.setPhase hc (s.rows.filter fun r => r.key ≠ c.key) s.lock
  · intro j c' lastBeat' hne hc' hphase'
    obtain ⟨r, hr, hkey, hrefreshed⟩ := hs.rowOfHolder j c' lastBeat' hc' hphase'
    refine ⟨r, List.mem_filter.mpr ⟨hr, ?_⟩, hkey, hrefreshed⟩
    simp only [ne_eq, decide_not, Bool.not_eq_true', decide_eq_false_iff_not]
    intro hown
    exact hne (hs.index_eq hc hc' (hown.symm.trans hkey)).symm
  · exact fun lastBeat' h => by cases h
  · intro j c' _ hc' hphase' r hr
    exact hs.freed j c' hc' hphase' r (List.mem_filter.mp hr).1
  · intro _ r hr
    simpa using (List.mem_filter.mp hr).2
  · rintro t (h | h) <;> cases h
  · exact fun j c' t _ => hs.locked j c' t
  · exact fun t h => by cases h
  · intro hlock
    have := hs.room hlock
    omega
  · have := hs.capped
    omega

theorem Sound.reap (hs : Sound cap s) {sent : ℤ}
    (hfresh : ∀ (j : ℕ) c' lastBeat, s.captures[j]? = some c' → c'.phase = .holding lastBeat →
      sent - staleAfterMs < lastBeat) : Sound cap
      { s with rows := s.rows.filter fun r => ¬ r.refreshedAt < sent - staleAfterMs * 2 } := by
  apply hs.withRows
  · intro j c' lastBeat hc' hphase'
    obtain ⟨r, hr, hkey, hrefreshed⟩ := hs.rowOfHolder j c' lastBeat hc' hphase'
    have hlt := hfresh j c' lastBeat hc' hphase'
    have hkept : ¬ r.refreshedAt < sent - staleAfterMs * 2 := by
      simp only [staleAfterMs] at hlt ⊢
      omega
    exact ⟨r, List.mem_filter.mpr ⟨hr, decide_eq_true hkept⟩, hkey, hrefreshed⟩
  · intro j c' hc' hphase' r hr
    exact hs.freed j c' hc' hphase' r (List.mem_filter.mp hr).1

end Keeps

/-! ## Runs -/

section Runs

variable {cap now : ℤ} {s t : State} {i : ℕ}

theorem count_sound (hs : Sound cap s) (hnow : s.now = now)
    (hfresh : ∀ (i : ℕ) c lastBeat, s.captures[i]? = some c → c.phase = .holding lastBeat →
      now - staleAfterMs < lastBeat) (h : act cap now s (.count i) = some t) : Sound cap t := by
  simp only [act] at h
  split at h
  · rename_i c hc
    split at h
    · rename_i started hphase hlock
      split_ifs at h with hfull
      · cases h
        exact hs.rest hc (.inl rfl)
      · cases h
        apply hs.counted hc hphase hlock ?_ hfull
        intro j c' lastBeat hc' hphase'
        have hlt := hfresh j c' lastBeat hc' hphase'
        have hle := hs.started i c started hc (.inl hphase)
        omega
    · cases h
  · cases h

theorem insert_sound (hs : Sound cap s) (h : act cap now s (.insert i) = some t) : Sound cap t := by
  simp only [act] at h
  split at h
  · rename_i c hc
    split at h
    · rename_i started hphase
      cases h
      exact (hs.insert hc hphase).acquiredAt _
    · cases h
  · cases h

theorem rollback_sound (hs : Sound cap s) (h : act cap now s (.rollback i) = some t) :
    Sound cap t := by
  simp only [act] at h
  split at h
  · rename_i c hc
    split at h
    · cases h
      exact hs.rest hc (.inr rfl)
    · rename_i started hphase
      cases h
      exact hs.unlock hc hphase
    · cases h
  · cases h

theorem giveUp_sound (hs : Sound cap s) (h : act cap now s (.giveUp i) = some t) : Sound cap t := by
  simp only [act] at h
  split at h
  · rename_i c hc
    have hend : Sound cap (s.setPhase i c .ended) := hs.rest hc (.inr rfl)
    split at h
    · cases h
      exact hend
    · cases h
      exact hend
    · cases h
  · cases h

theorem beat_sound {sent : ℤ} (hs : Sound cap s) (h : act cap now s (.beat i sent) = some t) :
    Sound cap t := by
  simp only [act] at h
  split at h
  · rename_i c hc
    split_ifs at h with hsent
    split at h
    · rename_i lastBeat hphase
      cases h
      exact hs.beat hc hphase
    · rename_i hphase
      cases h
      exact hs.lateBeat hc (.inl hphase) sent
    · rename_i hphase
      cases h
      exact hs.lateBeat hc (.inr hphase) sent
    · cases h
  · cases h

theorem release_sound {ok : Bool} (hs : Sound cap s) (h : act cap now s (.release i ok) = some t) :
    Sound cap t := by
  simp only [act] at h
  split at h
  · rename_i c hc
    split at h
    · rename_i lastBeat hphase
      split_ifs at h with hok
      · cases h
        exact hs.release hc hphase
      · cases h
        exact hs.rest hc (.inr rfl)
    · cases h
  · cases h

theorem act_sound {a : Action} (hs : Sound cap s) (hnow : s.now = now)
    (hfresh : ∀ (i : ℕ) c lastBeat, s.captures[i]? = some c → c.phase = .holding lastBeat →
      now - staleAfterMs < lastBeat) (h : act cap now s a = some t) : Sound cap t := by
  cases a with
  | spawn key =>
    simp only [act] at h
    split_ifs at h with hkey
    cases h
    exact hs.spawn hkey
  | start i =>
    simp only [act] at h
    split at h
    · rename_i c hc
      split_ifs at h with hstart
      cases h
      apply hs.leave hc
      · exact fun lastBeat h => by cases h
      · exact fun h => by cases h
      · exact fun t h => by cases h
      · intro t h
        cases h
        omega
    · cases h
  | count i => exact count_sound hs hnow hfresh h
  | insert i => exact insert_sound hs h
  | rollback i => exact rollback_sound hs h
  | giveUp i => exact giveUp_sound hs h
  | beat i sent => exact beat_sound hs h
  | release i ok => exact release_sound hs h
  | reap sent =>
    simp only [act] at h
    split_ifs at h with hsent
    cases h
    apply hs.reap
    intro j c' lastBeat hc' hphase'
    have hlt := hfresh j c' lastBeat hc' hphase'
    omega

theorem step_sound {e : Event} (hs : Sound cap s) (hbeats : Timely s e)
    (h : step cap s e = some t) : Sound cap t := by
  unfold step at h
  split_ifs at h with hnow
  exact act_sound (hs.tick hnow) rfl (fun i c lastBeat hc hphase => hbeats.lt hc hphase) h

/-- Nothing has begun; rows that earlier processes left behind may be there. -/
structure AtStart (s : State) : Prop where
  captures : s.captures = []
  lock : s.lock = none

theorem AtStart.sound (h : AtStart s) (hcap : 0 < cap) : Sound cap s where
  keys := by simp [h.captures]
  rowOfHolder i c lastBeat hc := by simp [h.captures] at hc
  freed i c hc := by simp [h.captures] at hc
  started i c t hc := by simp [h.captures] at hc
  locked i c t hc := by simp [h.captures] at hc
  room hlock := absurd h.lock hlock
  capped := by
    have : s.held = 0 := by simp [State.held, h.captures]
    omega

/-- When every holder's row is refreshed within the stale window, the writing of the row at the
acquisition included, no more slots are held than the cap, a released slot leaves no row that an
attempt would count, and every holder still has its row, with its last heartbeat. -/
theorem slots_held_within_cap (hcap : 0 < cap) (hstart : AtStart s) {es : List Event}
    (hbeats : Along (step cap) (fun s e _ => Timely s e) s es) (h : exec (step cap) s es = some t) :
    (t.held : ℤ) ≤ cap ∧
      (∀ c ∈ t.captures, c.phase = .freed → ∀ r ∈ t.rows, r.key ≠ c.key) ∧
      ∀ c ∈ t.captures, ∀ lastBeat, c.phase = .holding lastBeat →
        ∃ r ∈ t.rows, r.key = c.key ∧ r.refreshedAt = lastBeat := by
  have hsound : Sound cap t :=
    exec_invariant_along (step cap) (fun _ _ _ hs hstep hbeat => step_sound hs hbeat hstep)
      (hstart.sound hcap) hbeats h
  refine ⟨hsound.capped, ?_, ?_⟩
  · intro c hc hphase
    obtain ⟨i, hi⟩ := List.mem_iff_getElem?.mp hc
    exact hsound.freed i c hi hphase
  · intro c hc lastBeat hphase
    obtain ⟨i, hi⟩ := List.mem_iff_getElem?.mp hc
    exact hsound.rowOfHolder i c lastBeat hi hphase

/-- Two captures and a cap of one: the second waits until the first has given its slot back. -/
def handOver : List Event :=
  [⟨0, .spawn ⟨"bkp-1", "files"⟩⟩, ⟨0, .spawn ⟨"bkp-2", "files"⟩⟩, ⟨10, .start 0⟩, ⟨11, .start 1⟩,
    ⟨12, .count 0⟩, ⟨13, .insert 0⟩, ⟨14, .count 1⟩, ⟨60010, .beat 0 60010⟩, ⟨60020, .reap 60020⟩,
    ⟨70000, .release 0 true⟩, ⟨71000, .start 1⟩, ⟨71001, .count 1⟩, ⟨71002, .insert 1⟩]

def idle : State :=
  { now := 0, rows := [], captures := [], lock := none, acquiredAt := fun _ => 0 }

def handedOver : State :=
  { now := 71002
    rows := [⟨⟨"bkp-2", "files"⟩, 71000⟩]
    captures :=
      [⟨⟨"bkp-1", "files"⟩, .freed⟩, ⟨⟨"bkp-2", "files"⟩, .holding 71000⟩]
    lock := none
    acquiredAt := fun j => if j = 1 then 71002 else if j = 0 then 13 else 0 }

theorem slots_held_within_cap_handed_over : (handedOver.held : ℤ) ≤ 1 ∧
      (∀ c ∈ handedOver.captures, c.phase = .freed → ∀ r ∈ handedOver.rows, r.key ≠ c.key) ∧
      ∀ c ∈ handedOver.captures, ∀ lastBeat, c.phase = .holding lastBeat →
        ∃ r ∈ handedOver.rows, r.key = c.key ∧ r.refreshedAt = lastBeat := by
  have hbeats : Along (step 1) (fun s e _ => Timely s e) idle handOver := by decide
  exact slots_held_within_cap (by decide) ⟨rfl, rfl⟩ hbeats rfl

/-- The first capture has to wait for the lock, which another transaction keeps for five minutes. It
stamps its row with the start of its own transaction, and the next attempt does not count that
row. -/
def longWait : List Event :=
  [⟨0, .spawn ⟨"bkp-0", "files"⟩⟩, ⟨0, .spawn ⟨"bkp-1", "files"⟩⟩, ⟨0, .spawn ⟨"bkp-2", "files"⟩⟩,
    ⟨1, .start 0⟩, ⟨2, .count 0⟩, ⟨3, .start 1⟩, ⟨300100, .rollback 0⟩, ⟨300101, .count 1⟩,
    ⟨300102, .insert 1⟩, ⟨300103, .start 2⟩, ⟨300104, .count 2⟩, ⟨300105, .insert 2⟩]

/-- Two slots are held with a cap of one, before the first heartbeat of either is due. -/
theorem slots_held_beyond_cap : ∃ t, exec (step 1) idle longWait = some t ∧
    Along (step 1) (fun s e _ => HeartbeatsInTime s e) idle longWait ∧ 1 < t.held :=
  ⟨_, rfl, by decide, by decide⟩

end Runs

end Insula.ClusterGate
