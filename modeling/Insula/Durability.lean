import Mathlib.Data.List.Basic

/-!
# Files and power cuts

A directory of names that denote inodes. A change of the directory is pending until the directory is
synced, and the changes reach the disk in order; the data of an inode is pending until the inode is
synced. After a power cut some first part of the pending changes has been made, and what was not
synced of an inode may be anything. A name that only ever receives inodes that were synced before,
by renaming another name over it, shows after any cut what it was given at some time.
-/

namespace Insula.Durability

variable {N β : Type}

structure Inode (β : Type) where
  data : List β
  synced : Bool

inductive Change (N : Type)
  | link (n : N) (id : ℕ)
  | unlink (n : N)
  | rename (m n : N)

abbrev Dir (N : Type) := N → Option ℕ

structure Disk (N β : Type) where
  inodes : ℕ → Inode β
  /-- The next inode that is not in use. -/
  next : ℕ
  durable : Dir N
  pending : List (Change N)

variable [DecidableEq N]

namespace Change

def apply : Change N → Dir N → Dir N
  | .link n id, dir => Function.update dir n (some id)
  | .unlink n, dir => Function.update dir n none
  | .rename m n, dir => Function.update (Function.update dir n (dir m)) m none

def touches (n : N) : Change N → Bool
  | .link m _ => m = n
  | .unlink m => m = n
  | .rename m m' => m = n || m' = n

theorem apply_of_not_touches {c : Change N} {n : N} (h : c.touches n = false) (dir : Dir N) :
    c.apply dir n = dir n := by
  cases c with
  | link m id => exact Function.update_of_ne (Ne.symm (of_decide_eq_false h)) _ _
  | unlink m => exact Function.update_of_ne (Ne.symm (of_decide_eq_false h)) _ _
  | rename m m' =>
    obtain ⟨hm, hm'⟩ := Bool.or_eq_false_iff.mp h
    change Function.update (Function.update dir m' (dir m)) m none n = dir n
    rw [Function.update_of_ne (Ne.symm (of_decide_eq_false hm)),
      Function.update_of_ne (Ne.symm (of_decide_eq_false hm'))]

end Change

namespace Disk

variable (d : Disk N β)

def dirAt (k : ℕ) : Dir N := (d.pending.take k).foldl (fun dir c => c.apply dir) d.durable

def current : Dir N := d.dirAt d.pending.length

def read (n : N) : Option (List β) := (d.current n).map fun id => (d.inodes id).data

def change (c : Change N) : Disk N β := { d with pending := d.pending ++ [c] }

def setInode (id : ℕ) (inode : Inode β) : Disk N β :=
  { d with inodes := Function.update d.inodes id inode }

def openTrunc (n : N) : Disk N β :=
  match d.current n with
  | some id => d.setInode id { data := [], synced := false }
  | none => { (d.setInode d.next { data := [], synced := false }).change (.link n d.next) with
              next := d.next + 1 }

def write (n : N) (data : List β) : Disk N β :=
  match d.current n with
  | some id => d.setInode id { data := data, synced := false }
  | none => d

def fsync (n : N) : Disk N β :=
  match d.current n with
  | some id => d.setInode id { d.inodes id with synced := true }
  | none => d

def syncDir : Disk N β := { d with durable := d.current, pending := [] }

/-- A power cut after the first `k` pending changes; `lost` is what data that was not synced
becomes. -/
def cut (k : ℕ) (lost : ℕ → List β) : Disk N β where
  inodes id := if (d.inodes id).synced then d.inodes id else { data := lost id, synced := true }
  next := d.next
  durable := d.dirAt k
  pending := []

def Untouched (n : N) : Prop := ∀ c ∈ d.pending, c.touches n = false

/-- The name `n` only shows data that satisfies `P`, whatever a cut leaves of it, and never an inode
that the name `t` still denotes. -/
structure Guarded (P : Option (List β) → Prop) (n t : N) : Prop where
  shows : ∀ k id, d.dirAt k n = some id → (d.inodes id).synced = true ∧ P (some (d.inodes id).data)
  missing : ∀ k, d.dirAt k n = none → P none
  apart : ∀ j k id, j ≤ k → d.dirAt j n = some id → d.dirAt k t ≠ some id
  fresh : ∀ k id, d.dirAt k n = some id → id < d.next
  scratch : ∀ k id, d.dirAt k t = some id → id < d.next

/-- `n` shows in `d'` what it shows in `d`, and no change about it is added. -/
def Keeps (n : N) (d d' : Disk N β) : Prop :=
  d'.read n = d.read n ∧ (d.Untouched n → d'.Untouched n)

variable {d} {P : Option (List β) → Prop} {n t : N} {c : Change N} {id : ℕ}

theorem dirAt_of_le {k : ℕ} (h : d.pending.length ≤ k) : d.dirAt k = d.current := by
  unfold current dirAt
  rw [List.take_of_length_le h, List.take_of_length_le (Nat.le_refl _)]

theorem dirAt_change_of_le {k : ℕ} (h : k ≤ d.pending.length) :
    (d.change c).dirAt k = d.dirAt k := by
  unfold dirAt change
  rw [List.take_append_of_le_length h]

theorem dirAt_change_of_lt {k : ℕ} (h : d.pending.length < k) :
    (d.change c).dirAt k = c.apply d.current := by
  have hall : (d.pending ++ [c]).length ≤ k := by
    rw [List.length_append]
    exact h
  unfold dirAt change
  rw [List.take_of_length_le hall, List.foldl_append]
  unfold current dirAt
  rw [List.take_length]
  rfl

theorem current_change (c : Change N) : (d.change c).current = c.apply d.current := by
  have hlength : (d.change c).pending.length = d.pending.length + 1 := List.length_append
  unfold current
  rw [hlength]
  exact dirAt_change_of_lt (Nat.lt_succ_self _)

theorem foldl_apply_of_not_touches {cs : List (Change N)} (h : ∀ c ∈ cs, c.touches n = false)
    (dir : Dir N) : cs.foldl (fun dir c => c.apply dir) dir n = dir n := by
  induction cs generalizing dir with
  | nil => rfl
  | cons c rest ih =>
    rw [List.foldl_cons, ih (fun c' hc' => h c' (List.mem_cons_of_mem c hc'))]
    exact Change.apply_of_not_touches (h c List.mem_cons_self) dir

theorem dirAt_of_untouched (h : d.Untouched n) (k : ℕ) : d.dirAt k n = d.durable n :=
  foldl_apply_of_not_touches (fun c hc => h c (List.mem_of_mem_take hc)) d.durable

theorem untouched_change (h : d.Untouched n) (hc : c.touches n = false) :
    (d.change c).Untouched n := by
  intro c' hc'
  rcases List.mem_append.mp hc' with hold | hnew
  · exact h c' hold
  · rw [List.mem_singleton.mp hnew]
    exact hc

/-! ### Guarded names -/

/-- The inode that `t` denotes now is no inode that `n` may show. -/
theorem Guarded.ne_current (h : d.Guarded P n t) {k id' : ℕ} (hn : d.dirAt k n = some id)
    (ht : d.current t = some id') : id ≠ id' := by
  rintro rfl
  have hlater : d.dirAt (max k d.pending.length) t = some id := by
    rw [dirAt_of_le (Nat.le_max_right _ _)]
    exact ht
  exact h.apart k _ id (Nat.le_max_left _ _) hn hlater

/-- What happens to an inode that `n` does not show. -/
theorem Guarded.setInode (h : d.Guarded P n t) (hid : ∀ k, d.dirAt k n ≠ some id)
    (inode : Inode β) : (d.setInode id inode).Guarded P n t where
  shows := by
    intro k id' hn
    have hne : id' ≠ id := by
      rintro rfl
      exact hid k hn
    change (Function.update d.inodes id inode id').synced = true ∧
      P (some (Function.update d.inodes id inode id').data)
    rw [Function.update_of_ne hne]
    exact h.shows k id' hn
  missing := h.missing
  apart := h.apart
  fresh := h.fresh
  scratch := h.scratch

theorem Guarded.openTrunc (h : d.Guarded P n t) (hnt : n ≠ t) : (d.openTrunc t).Guarded P n t := by
  unfold Disk.openTrunc
  cases ht : d.current t with
  | some id => exact h.setInode (fun k hn => h.ne_current hn ht rfl) _
  | none =>
    have hunused : ∀ k, d.dirAt k n ≠ some d.next := fun k hn => Nat.lt_irrefl _ (h.fresh k _ hn)
    have hset := h.setInode hunused { data := [], synced := false }
    have hdir : ∀ k, ((d.setInode d.next { data := [], synced := false }).change
        (.link t d.next)).dirAt k n = d.dirAt k n := by
      intro k
      rcases Nat.lt_or_ge d.pending.length k with hlt | hle
      · rw [@dirAt_change_of_lt _ _ _ (d.setInode d.next { data := [], synced := false }) _ _ hlt,
          Change.apply, Function.update_of_ne hnt, dirAt_of_le (Nat.le_of_lt hlt)]
        rfl
      · exact congrFun (dirAt_change_of_le hle) n
    exact
      { shows := fun k id hn => hset.shows k id ((hdir k).symm.trans hn)
        missing := fun k hn => h.missing k ((hdir k).symm.trans hn)
        apart := by
          intro j k id hjk hn hk
          have hn' := (hdir j).symm.trans hn
          rcases Nat.lt_or_ge d.pending.length k with hlt | hle
          · have hnew : some d.next = some id := by
              have := congrFun (@dirAt_change_of_lt _ _ _
                (d.setInode d.next { data := [], synced := false }) (.link t d.next) _ hlt) t
              rw [Change.apply, Function.update_self] at this
              exact this.symm.trans hk
            exact hunused j (hn'.trans hnew.symm)
          · exact h.apart j k id hjk hn' ((congrFun (dirAt_change_of_le hle) t).symm.trans hk)
        fresh := fun k id hn => Nat.lt_succ_of_lt (h.fresh k id ((hdir k).symm.trans hn))
        scratch := by
          intro k id hk
          rcases Nat.lt_or_ge d.pending.length k with hlt | hle
          · have := congrFun (@dirAt_change_of_lt _ _ _
              (d.setInode d.next { data := [], synced := false }) (.link t d.next) _ hlt) t
            rw [Change.apply, Function.update_self] at this
            rw [← Option.some.inj (this.symm.trans hk)]
            exact Nat.lt_succ_self _
          · have hold := (congrFun (dirAt_change_of_le hle) t).symm.trans hk
            exact Nat.lt_succ_of_lt (h.scratch k id hold) }

theorem Guarded.write (h : d.Guarded P n t) (data : List β) : (d.write t data).Guarded P n t := by
  unfold Disk.write
  cases ht : d.current t with
  | some id => exact h.setInode (fun k hn => h.ne_current hn ht rfl) _
  | none => exact h

/-- A sync of any name keeps what is shown. -/
theorem Guarded.fsync (h : d.Guarded P n t) (m : N) : (d.fsync m).Guarded P n t := by
  unfold Disk.fsync
  cases hm : d.current m with
  | none => exact h
  | some id =>
    refine { shows := ?_, missing := h.missing, apart := h.apart, fresh := h.fresh
             scratch := h.scratch }
    intro k id' hn
    have hshows := h.shows k id' hn
    by_cases hid : id' = id
    · subst hid
      change (Function.update d.inodes id' { d.inodes id' with synced := true } id').synced = true ∧
        P (some (Function.update d.inodes id' { d.inodes id' with synced := true } id').data)
      rw [Function.update_self]
      exact ⟨rfl, hshows.2⟩
    · change (Function.update d.inodes id { d.inodes id with synced := true } id').synced = true ∧
        P (some (Function.update d.inodes id { d.inodes id with synced := true } id').data)
      rw [Function.update_of_ne hid]
      exact hshows

theorem dirAt_syncDir (k : ℕ) : d.syncDir.dirAt k = d.current := by simp [dirAt, syncDir]

theorem Guarded.syncDir (h : d.Guarded P n t) : d.syncDir.Guarded P n t where
  shows := fun k id hn => h.shows _ id (by rwa [dirAt_syncDir k] at hn)
  missing := fun k hn => h.missing _ (by rwa [dirAt_syncDir k] at hn)
  apart := by
    intro j k id _ hn
    rw [dirAt_syncDir] at hn ⊢
    exact h.apart _ _ id (Nat.le_refl _) hn
  fresh := fun k id hn => h.fresh _ id (by rwa [dirAt_syncDir k] at hn)
  scratch := fun k id ht => h.scratch _ id (by rwa [dirAt_syncDir k] at ht)

/-- A change after which `n` is as before and `t` denotes nothing. -/
theorem Guarded.unlink (h : d.Guarded P n t) (hnt : n ≠ t) :
    (d.change (.unlink t)).Guarded P n t := by
  have hdir : ∀ k, (d.change (.unlink t)).dirAt k n = d.dirAt k n := by
    intro k
    rcases Nat.lt_or_ge d.pending.length k with hlt | hle
    · rw [dirAt_change_of_lt hlt, Change.apply, Function.update_of_ne hnt,
        dirAt_of_le (Nat.le_of_lt hlt)]
    · rw [dirAt_change_of_le hle]
  exact
    { shows := fun k id hn => h.shows k id ((hdir k).symm.trans hn)
      missing := fun k hn => h.missing k ((hdir k).symm.trans hn)
      apart := by
        intro j k id hjk hn hk
        rw [hdir j] at hn
        rcases Nat.lt_or_ge d.pending.length k with hlt | hle
        · rw [dirAt_change_of_lt hlt, Change.apply, Function.update_self] at hk
          cases hk
        · rw [dirAt_change_of_le hle] at hk
          exact h.apart j k id hjk hn hk
      fresh := fun k id hn => h.fresh k id ((hdir k).symm.trans hn)
      scratch := by
        intro k id hk
        rcases Nat.lt_or_ge d.pending.length k with hlt | hle
        · rw [dirAt_change_of_lt hlt, Change.apply, Function.update_self] at hk
          cases hk
        · rw [dirAt_change_of_le hle] at hk
          exact h.scratch k id hk }

/-- A synced inode is renamed over the name. -/
theorem Guarded.rename (h : d.Guarded P n t) (hnt : n ≠ t) (ht : d.current t = some id)
    (hsynced : (d.inodes id).synced = true) (hP : P (some (d.inodes id).data)) :
    (d.change (.rename t n)).Guarded P n t := by
  have hnew : ∀ k, d.pending.length < k → (d.change (.rename t n)).dirAt k n = some id := by
    intro k hk
    rw [dirAt_change_of_lt hk, Change.apply, Function.update_of_ne hnt, Function.update_self, ht]
  have hgone : ∀ k, d.pending.length < k → (d.change (.rename t n)).dirAt k t = none := by
    intro k hk
    rw [dirAt_change_of_lt hk, Change.apply, Function.update_self]
  exact
    { shows := by
        intro k id' hn
        rcases Nat.lt_or_ge d.pending.length k with hlt | hle
        · rw [hnew k hlt] at hn
          cases hn
          exact ⟨hsynced, hP⟩
        · rw [dirAt_change_of_le hle] at hn
          exact h.shows k id' hn
      missing := by
        intro k hn
        rcases Nat.lt_or_ge d.pending.length k with hlt | hle
        · rw [hnew k hlt] at hn
          cases hn
        · rw [dirAt_change_of_le hle] at hn
          exact h.missing k hn
      apart := by
        intro j k id' hjk hn hk
        rcases Nat.lt_or_ge d.pending.length k with hlt | hle
        · rw [hgone k hlt] at hk
          cases hk
        · rw [dirAt_change_of_le hle] at hk
          rw [dirAt_change_of_le (Nat.le_trans hjk hle)] at hn
          exact h.apart j k id' hjk hn hk
      fresh := by
        intro k id' hn
        rcases Nat.lt_or_ge d.pending.length k with hlt | hle
        · rw [hnew k hlt] at hn
          cases hn
          exact h.scratch _ id ht
        · rw [dirAt_change_of_le hle] at hn
          exact h.fresh k id' hn
      scratch := by
        intro k id' hk
        rcases Nat.lt_or_ge d.pending.length k with hlt | hle
        · rw [hgone k hlt] at hk
          cases hk
        · rw [dirAt_change_of_le hle] at hk
          exact h.scratch k id' hk }

theorem dirAt_cut (k j : ℕ) (lost : ℕ → List β) : (d.cut k lost).dirAt j = d.dirAt k := by
  simp [dirAt, cut]

theorem Guarded.cut (h : d.Guarded P n t) (k : ℕ) (lost : ℕ → List β) :
    (d.cut k lost).Guarded P n t where
  shows := by
    intro j id hn
    rw [dirAt_cut] at hn
    obtain ⟨hsynced, hP⟩ := h.shows k id hn
    change (if (d.inodes id).synced = true then _ else _ : Inode β).synced = true ∧
      P (some (if (d.inodes id).synced = true then _ else _ : Inode β).data)
    rw [if_pos hsynced]
    exact ⟨hsynced, hP⟩
  missing := fun j hn => h.missing k (by rwa [dirAt_cut] at hn)
  apart := by
    intro i j id _ hn
    rw [dirAt_cut] at hn ⊢
    exact h.apart k k id (Nat.le_refl k) hn
  fresh := fun j id hn => h.fresh k id (by rwa [dirAt_cut] at hn)
  scratch := fun j id ht => h.scratch k id (by rwa [dirAt_cut] at ht)

theorem Guarded.read (h : d.Guarded P n t) : P (d.read n) := by
  unfold Disk.read
  cases hn : d.current n with
  | none => exact h.missing _ hn
  | some id => exact (h.shows _ id hn).2

theorem Guarded.read_cut (h : d.Guarded P n t) (huntouched : d.Untouched n) (k : ℕ)
    (lost : ℕ → List β) : (d.cut k lost).read n = d.read n := by
  have hcut : (d.cut k lost).current n = d.current n := by
    unfold current
    rw [dirAt_cut, dirAt_of_untouched huntouched, dirAt_of_untouched huntouched]
  unfold Disk.read
  rw [hcut]
  cases hn : d.current n with
  | none => rfl
  | some id =>
    have hsynced := (h.shows _ id hn).1
    simp [Disk.cut, hsynced]

/-! ### What an operation leaves -/

theorem keeps_change (h : c.touches n = false) : Keeps n d (d.change c) := by
  refine ⟨?_, fun huntouched => untouched_change huntouched h⟩
  unfold read
  rw [current_change, Change.apply_of_not_touches h]
  rfl

/-- An inode that `n` does not show now can change. -/
theorem keeps_setInode (hid : d.current n ≠ some id) (inode : Inode β) :
    Keeps n d (d.setInode id inode) := by
  refine ⟨?_, fun h => h⟩
  unfold read
  change (d.current n).map _ = (d.current n).map _
  cases hn : d.current n with
  | none => rfl
  | some id' =>
    have hne : id' ≠ id := by
      rintro rfl
      exact hid hn
    simp [setInode, Function.update_of_ne hne]

theorem Guarded.keeps_openTrunc (h : d.Guarded P n t) (hnt : n ≠ t) :
    Keeps n d (d.openTrunc t) := by
  unfold Disk.openTrunc
  cases ht : d.current t with
  | some id => exact keeps_setInode (fun hn => h.ne_current hn ht rfl) _
  | none =>
    have hset := @keeps_setInode _ _ _ d n d.next (fun hn => Nat.lt_irrefl _ (h.fresh _ _ hn))
      { data := [], synced := false }
    have hlink := @keeps_change _ _ _ (d.setInode d.next { data := [], synced := false }) n
      (.link t d.next) (decide_eq_false (Ne.symm hnt))
    exact ⟨hlink.1.trans hset.1, fun huntouched => hlink.2 (hset.2 huntouched)⟩

theorem Guarded.keeps_write (h : d.Guarded P n t) (data : List β) : Keeps n d (d.write t data) := by
  unfold Disk.write
  cases ht : d.current t with
  | some id => exact keeps_setInode (fun hn => h.ne_current hn ht rfl) _
  | none => exact ⟨rfl, fun h => h⟩

theorem keeps_fsync (n m : N) : Keeps n d (d.fsync m) := by
  unfold fsync
  cases d.current m with
  | none => exact ⟨rfl, fun h => h⟩
  | some id =>
    refine ⟨?_, fun h => h⟩
    unfold read
    change (d.current n).map _ = (d.current n).map _
    apply congrArg (fun f => (d.current n).map f)
    funext id'
    by_cases hid : id' = id
    · subst hid
      simp [setInode]
    · simp [setInode, Function.update_of_ne hid]

theorem keeps_syncDir (n : N) : Keeps n d d.syncDir := by
  refine ⟨?_, fun _ c hc => nomatch hc⟩
  unfold read current
  rw [dirAt_syncDir]
  rfl

theorem untouched_syncDir (n : N) : d.syncDir.Untouched n := fun _ hc => nomatch hc

theorem untouched_cut (k : ℕ) (lost : ℕ → List β) (n : N) : (d.cut k lost).Untouched n :=
  fun _ hc => nomatch hc

/-! ### The scratch name -/

theorem exists_current_openTrunc (t : N) : ∃ id, (d.openTrunc t).current t = some id := by
  unfold openTrunc
  cases ht : d.current t with
  | some id => exact ⟨id, ht⟩
  | none =>
    refine ⟨d.next, ?_⟩
    have := current_change (d := d.setInode d.next { data := [], synced := false })
      (.link t d.next)
    exact (congrFun this t).trans (Function.update_self _ _ _)

theorem write_of_current (ht : d.current t = some id) (data : List β) :
    (d.write t data).current t = some id ∧ ((d.write t data).inodes id).data = data := by
  have hinode : (d.setInode id { data := data, synced := false }).inodes id =
      { data := data, synced := false } := Function.update_self _ _ _
  have hdata := congrArg Inode.data hinode
  unfold write
  rw [ht]
  exact ⟨ht, hdata⟩

theorem fsync_of_current (ht : d.current t = some id) :
    (d.fsync t).current t = some id ∧ ((d.fsync t).inodes id).synced = true ∧
      ((d.fsync t).inodes id).data = (d.inodes id).data := by
  have hinode : (d.setInode id { d.inodes id with synced := true }).inodes id =
      { d.inodes id with synced := true } := Function.update_self _ _ _
  have hdata := congrArg Inode.data hinode
  unfold fsync
  rw [ht]
  exact ⟨ht, congrArg Inode.synced hinode, hdata⟩

theorem read_rename (hnt : n ≠ t) (ht : d.current t = some id) :
    (d.change (.rename t n)).read n = some (d.inodes id).data := by
  unfold read
  rw [current_change, Change.apply, Function.update_of_ne hnt, Function.update_self, ht]
  rfl

end Disk

end Insula.Durability
