import Mathlib.Data.List.Perm.Basic
import Insula.DigestQueue

/-!
# Passes over the digest queue, interleaved

Passes run beside notifications that are queued, settings that change and sent items that are
purged. A pass knows of the queue only the oldest items, so what waits for a longer window may keep
an item that is due out of it; and a dispatch that fails does not tell.
-/

namespace Insula.Digests

open Program Concurrent Transition

/-! ## Calls -/

inductive Kind
  | pass (now : ℤ)
  | queue (row : Row)
  | purge (now : ℤ)
  | preference (userId : String) (mode : Option DigestMode)
  deriving DecidableEq

def queueForDigest (row : Row) : Task Unit := ask (.insertItem row)

def saveSettings (userId : String) (mode : Option DigestMode) : Task Unit :=
  ask (.upsertSettings userId mode)

abbrev Ans (o : Op) : Type := Except String (Val o)

abbrev Result : Type := Except String ℕ

def program : Kind → Program Op Ans Result
  | .pass now => (runOnce now).run
  | .queue row => (do queueForDigest row; return 0 : Task ℕ).run
  | .purge now => (purgeSentDigestItems now).run
  | .preference userId mode => (do saveSettings userId mode; return 0 : Task ℕ).run

/-! ## The tables -/

structure Item where
  row : Row
  sentAt : Option ℤ
  deriving DecidableEq

/-- An answer to a query for the oldest rows: of rows of one age, any may come first. -/
def Oldest (limit : ℕ) (all rows : List Row) : Prop :=
  rows.Pairwise (fun r s => r.createdAt ≤ s.createdAt) ∧ (rows ++ all.diff rows).Perm all ∧
    rows.length = min limit all.length ∧ ∀ r ∈ rows, ∀ s ∈ all.diff rows, r.createdAt ≤ s.createdAt

instance (limit : ℕ) (all rows : List Row) : Decidable (Oldest limit all rows) := by
  unfold Oldest
  infer_instance

structure Pass where
  settings : Settings
  rows : Option (List Row)
  dispatched : List PendingDigest
  failed : List PendingDigest
  marked : List String

namespace Pass

def fresh : Pass := { settings := [], rows := none, dispatched := [], failed := [], marked := [] }

def next (b : Pass) : (o : Op) → Ans o → Pass
  | .selectSettings, .ok settings => { b with settings := settings }
  | .selectUnsent, .ok rows => { b with rows := some rows }
  | .emitEvent d, .ok _ => { b with dispatched := b.dispatched ++ [d] }
  | .emitEvent d, .error _ => { b with failed := b.failed ++ [d] }
  | .updateSent ids _, .ok _ => { b with marked := b.marked ++ ids }
  | _, _ => b

def Tried (b : Pass) (d : PendingDigest) : Prop := d ∈ b.dispatched ∨ d ∈ b.failed

def Allowed (b : Pass) : Op → Prop
  | .updateSent ids _ => ∃ d, b.Tried d ∧ ids = d.ids
  | _ => True

def discipline (_ : Kind) : Discipline Op Ans Pass where
  allowed := Allowed
  next b o r := some (b.next o r)

end Pass

structure World where
  items : List Item
  settings : Settings
  /-- The unsent items when a pass read them, by call. -/
  queueAt : ℕ → List Row
  /-- By call. -/
  stage : ℕ → Pass

namespace World

variable (w : World)

def unsent : List Row := (w.items.filter fun it => it.sentAt = none).map Item.row

def readSettings (settings : Settings) : Option World :=
  if settings.Perm w.settings then some w else none

def readUnsent (i : ℕ) (rows : List Row) : Option World :=
  if Oldest maxItemsPerPass w.unsent rows then
    some { w with queueAt := Function.update w.queueAt i w.unsent }
  else none

def respond (i : ℕ) : (o : Op) → Ans o → Option World
  | .selectSettings, .ok settings => w.readSettings settings
  | .selectUnsent, .ok rows => w.readUnsent i rows
  | .updateSent ids sentAt, .ok _ =>
    some { w with items := w.items.map fun it =>
      if it.row.id ∈ ids then { it with sentAt := some sentAt } else it }
  | .insertItem row, .ok _ =>
    if row.id ∈ w.items.map (fun it => it.row.id) then none
    else some { w with items := w.items ++ [{ row := row, sentAt := none }] }
  | .deleteSent cutoff, .ok _ =>
    some { w with items := w.items.filter fun it => ! it.sentAt.any fun t => t < cutoff }
  | .upsertSettings userId mode, .ok _ =>
    some { w with settings := w.settings.filter (fun s => s.1 ≠ userId) ++ [(userId, mode)] }
  | _, _ => some w

end World

def handle (w : World) (i : ℕ) (o : Op) (r : Ans o) : Option World :=
  (w.respond i o r).map fun w' =>
    { w' with stage := Function.update w.stage i ((w.stage i).next o r) }

abbrev Calls := Config World Kind Op Ans Result

abbrev Happening := Event Kind Op Ans

abbrev step : Calls → Happening → Option Calls := Concurrent.step program handle

/-! ## What a pass owes -/

def dueRows (mode : String → DigestMode) (now : ℤ) (queue : List Row) : List Row :=
  queue.filter fun r => queue.any fun s => s.userId = r.userId ∧ (mode s.userId).Waited now s.createdAt

/-- Each user to whom something is due gets a digest with all of it, unless too much is due. -/
def Complete (mode : String → DigestMode) (now : ℤ) (queue : List Row)
    (digests : List PendingDigest) : Prop :=
  (dueRows mode now queue).length ≤ maxItemsPerPass →
    ∀ r ∈ dueRows mode now queue, ∃ d ∈ digests, d.userId = r.userId ∧
      ∀ s ∈ dueRows mode now queue, s.userId = r.userId → s ∈ d.items

/-- No item that is due stands behind the cap, with all that is as old, due or not. -/
def WithinCap (mode : String → DigestMode) (now : ℤ) (queue : List Row) : Prop :=
  (dueRows mode now queue).length ≤ maxItemsPerPass → ∀ r ∈ dueRows mode now queue,
    queue.countP (fun s => s.createdAt ≤ r.createdAt) ≤ maxItemsPerPass

/-- Every item that the pass marked sent was in a digest that it dispatched. -/
def MarksDispatched (w : World) (i : ℕ) : Prop :=
  ∀ id ∈ (w.stage i).marked, ∃ d ∈ (w.stage i).dispatched, id ∈ d.ids

def Ended (s : Calls) (i : ℕ) (now : ℤ) : Prop :=
  ∃ result, s.procs[i]? = some ⟨.pass now, some (.pure result)⟩

def ServesDue (w : World) (i : ℕ) (now : ℤ) : Prop :=
  (w.stage i).rows.isSome →
    Complete (modeOf (w.stage i).settings) now (w.queueAt i) (w.stage i).dispatched

structure Start (s : Calls) : Prop where
  procs : s.procs = []
  stage : ∀ i, s.world.stage i = Pass.fresh
  unsent : ∀ it ∈ s.world.items, it.sentAt = none

/-! ## The oldest rows -/

/-- A row with few others as old is among the oldest. -/
theorem Oldest.mem {limit : ℕ} {all rows : List Row} (h : Oldest limit all rows) {r : Row}
    (hr : r ∈ all) (hcap : all.countP (fun s => s.createdAt ≤ r.createdAt) ≤ limit) : r ∈ rows := by
  obtain ⟨-, hperm, hlength, hbefore⟩ := h
  by_contra hnot
  have hrest : r ∈ all.diff rows := by
    have hmem := hperm.mem_iff.mpr hr
    rw [List.mem_append] at hmem
    exact hmem.resolve_left hnot
  have hall : rows.countP (fun s => s.createdAt ≤ r.createdAt) = rows.length :=
    List.countP_eq_length.mpr fun s hs => decide_eq_true (hbefore s hs r hrest)
  have hself : 0 < (all.diff rows).countP (fun s => s.createdAt ≤ r.createdAt) :=
    List.countP_pos_iff.mpr ⟨r, hrest, decide_eq_true (Int.le_refl _)⟩
  have hsum := hperm.countP_eq fun s => decide (s.createdAt ≤ r.createdAt)
  rw [List.countP_append, hall] at hsum
  have htotal := hperm.length_eq
  rw [List.length_append] at htotal
  have hpos := List.length_pos_of_mem hrest
  omega

/-- The first row of a user that was read is the user's oldest. -/
theorem Oldest.head_le {limit : ℕ} {all rows : List Row} (h : Oldest limit all rows)
    {p : Row → Bool} {oldest s : Row} (holdest : oldest ∈ (rows.filter p).head?)
    (hs : s ∈ rows.filter p) : oldest.createdAt ≤ s.createdAt := by
  have hsorted := h.1.filter p
  cases hrows : rows.filter p with
  | nil =>
    rw [hrows] at hs
    cases hs
  | cons first rest =>
    rw [hrows] at holdest hs hsorted
    cases holdest
    rcases List.mem_cons.mp hs with rfl | hs
    · exact Int.le_refl _
    · exact (List.pairwise_cons.mp hsorted).1 s hs

variable {now : ℤ} {queue : List Row} {i : ℕ} {o : Op} {s : Calls}

theorem mem_dueRows {mode : String → DigestMode} {r : Row} :
    r ∈ dueRows mode now queue ↔ r ∈ queue ∧ ∃ s ∈ queue, s.userId = r.userId ∧
      (mode s.userId).Waited now s.createdAt := by
  unfold dueRows
  rw [List.mem_filter, List.any_eq_true]
  simp only [decide_eq_true_eq]

theorem complete_of_withinCap {mode : String → DigestMode} {rows : List Row}
    (holdest : Oldest maxItemsPerPass queue rows) (hcap : WithinCap mode now queue) :
    Complete mode now queue (dueDigests rows mode now) := by
  intro hle r hr
  have hread : ∀ s ∈ dueRows mode now queue, s ∈ rows :=
    fun s hs => holdest.mem (mem_dueRows.mp hs).1 (hcap hle s hs)
  obtain ⟨-, waited, hqueue, huser, hwaited⟩ := mem_dueRows.mp hr
  have hdue : waited ∈ rows.filter fun s => s.userId = r.userId :=
    List.mem_filter.mpr
      ⟨hread waited (mem_dueRows.mpr ⟨hqueue, waited, hqueue, rfl, hwaited⟩), decide_eq_true huser⟩
  refine ⟨⟨r.userId, rows.filter fun s => s.userId = r.userId⟩, ?_, rfl, ?_⟩
  · refine mem_dueDigests_iff.mpr ⟨List.ne_nil_of_mem hdue, rfl, ?_⟩
    intro oldest hfirst
    rw [← huser]
    exact hwaited.mono (holdest.head_le hfirst hdue)
  · intro s hs hsame
    exact List.mem_filter.mpr ⟨hread s hs, decide_eq_true hsame⟩

/-! ## A pass tries every digest that is due -/

namespace Pass

/-- What has been read stays, and what was tried. -/
def Extends (b b' : Pass) : Prop :=
  b'.settings = b.settings ∧ b'.rows = b.rows ∧ ∀ d, b.Tried d → b'.Tried d

theorem extends_refl (b : Pass) : b.Extends b := ⟨rfl, rfl, fun _ h => h⟩

theorem Extends.trans {a b c : Pass} (hab : a.Extends b) (hbc : b.Extends c) : a.Extends c :=
  ⟨hbc.1.trans hab.1, hbc.2.1.trans hab.2.1, fun d h => hbc.2.2 d (hab.2.2 d h)⟩

def Finished (now : ℤ) (b : Pass) : Prop :=
  ∀ rows ∈ b.rows, ∀ d ∈ dueDigests rows (modeOf b.settings) now, b.Tried d

end Pass

section Follows

open Pass

variable {kind : Kind}

theorem notifyUserDigest_follows (digest : PendingDigest) (b : Pass) :
    Follows (discipline kind) (fun b' r => r = .ok () ∧ b.Extends b' ∧ b'.Tried digest)
      (notifyUserDigest digest).run b := by
  unfold notifyUserDigest dispatchSafe emitEvent
  refine follows_run_tryCatch.mpr (follows_run_request.mpr ⟨trivial, ?_, ?_⟩)
  · intro a b' hb'
    cases hb'
    refine ⟨rfl, ⟨rfl, rfl, ?_⟩, .inl (List.mem_append_right _ (List.mem_singleton_self _))⟩
    exact fun d h => h.imp_left (List.mem_append_left _)
  · intro e b' hb'
    cases hb'
    refine ⟨rfl, ⟨rfl, rfl, ?_⟩, .inr (List.mem_append_right _ (List.mem_singleton_self _))⟩
    exact fun d h => h.imp_right (List.mem_append_left _)

theorem markSent_follows {digest : PendingDigest} {b : Pass} (now : ℤ) (h : b.Tried digest) :
    Follows (discipline kind) (fun b' _ => b.Extends b') (markSent digest.ids now).run b := by
  by_cases hempty : digest.ids.length = 0
  · rw [show markSent digest.ids now = Pure.pure () from if_pos hempty]
    exact extends_refl b
  · rw [show markSent digest.ids now = ask (.updateSent digest.ids now) from if_neg hempty]
    refine follows_run_request.mpr ⟨⟨digest, h, rfl⟩, ?_, ?_⟩
    · intro a b' hb'
      cases hb'
      exact ⟨rfl, rfl, fun _ h => h⟩
    · intro e b' hb'
      cases hb'
      exact extends_refl b

theorem flushDigest_follows (now : ℤ) (digest : PendingDigest) (b : Pass) :
    Follows (discipline kind) (fun b' r => (∃ flushed, r = .ok flushed) ∧ b.Extends b' ∧
      b'.Tried digest) (flushDigest now digest).run b := by
  unfold flushDigest
  refine follows_run_tryCatch.mpr (follows_run_bind.mpr
    (follows_mono ?_ (notifyUserDigest_follows digest b)))
  rintro b' r ⟨rfl, hextends, htried⟩
  refine follows_run_bind.mpr (follows_mono ?_ (markSent_follows now htried))
  intro b'' r hmarked
  cases r with
  | ok a => exact ⟨⟨true, rfl⟩, hextends.trans hmarked, hmarked.2.2 _ htried⟩
  | error e => exact ⟨⟨false, rfl⟩, hextends.trans hmarked, hmarked.2.2 _ htried⟩

theorem flush_follows (now : ℤ) (due : List PendingDigest) (sent : ℕ) (b : Pass) :
    Follows (discipline kind) (fun b' _ => b.Extends b' ∧ ∀ d ∈ due, b'.Tried d)
      (flush now sent due).run b := by
  induction due generalizing sent b with
  | nil => exact ⟨extends_refl b, fun d hd => nomatch hd⟩
  | cons digest rest ih =>
    refine follows_run_bind.mpr (follows_mono ?_ (flushDigest_follows now digest b))
    rintro b' r ⟨⟨flushed, rfl⟩, hextends, htried⟩
    refine follows_mono ?_ (ih _ b')
    rintro b'' r ⟨hrest, hall⟩
    refine ⟨hextends.trans hrest, ?_⟩
    intro d hd
    rcases List.mem_cons.mp hd with rfl | hd
    · exact hrest.2.2 _ htried
    · exact hall d hd

theorem runOnce_follows (now : ℤ) :
    Follows (discipline kind) (fun b' _ => b'.Finished now) (runOnce now).run fresh := by
  unfold runOnce
  refine follows_run_bind.mpr (follows_run_request.mpr ⟨trivial, ?_, ?_⟩)
  · intro settings b hb
    cases hb
    refine follows_run_bind.mpr (follows_run_request.mpr ⟨trivial, ?_, ?_⟩)
    · intro rows b hb
      cases hb
      change Follows _ _ (ExceptT.run (if _ then _ else _)) _
      by_cases hnone : (dueDigests rows (modeOf settings) now).length = 0
      · rw [if_pos hnone]
        intro read hread d hd
        cases hread
        have hmem : d ∈ dueDigests rows (modeOf settings) now := hd
        rw [List.length_eq_zero_iff.mp hnone] at hmem
        cases hmem
      · rw [if_neg hnone]
        refine follows_mono ?_ (flush_follows now _ 0 _)
        rintro b r ⟨⟨hsettings, hrows, -⟩, hall⟩ read hread d hd
        rw [hrows] at hread
        cases hread
        rw [hsettings] at hd
        exact hall d hd
    · intro e b hb rows hrows
      cases hb
      cases hrows
  · intro e b hb rows hrows
    cases hb
    cases hrows

theorem program_follows (kind : Kind) : Follows (discipline kind)
      (fun b _ => ∀ now, kind = .pass now → b.Finished now) (program kind) fresh := by
  cases kind with
  | pass now =>
    refine follows_mono ?_ (runOnce_follows now)
    rintro b r hfinished now' heq
    cases heq
    exact hfinished
  | queue row =>
    refine follows_run_bind.mpr (follows_run_request.mpr ⟨trivial, ?_, ?_⟩)
    · exact fun _ _ _ _ heq => nomatch heq
    · exact fun _ _ _ _ heq => nomatch heq
  | purge now =>
    refine follows_run_request.mpr ⟨trivial, ?_, ?_⟩
    · exact fun _ _ _ _ heq => nomatch heq
    · exact fun _ _ _ _ heq => nomatch heq
  | preference userId mode =>
    refine follows_run_bind.mpr (follows_run_request.mpr ⟨trivial, ?_, ?_⟩)
    · exact fun _ _ _ _ heq => nomatch heq
    · exact fun _ _ _ _ heq => nomatch heq

end Follows

/-! ## Runs -/

/-- What is kept of the tables and the passes: sent items were marked by a pass, after the dispatch
of their digest was tried, and what a pass read was the oldest of the queue. -/
structure Kept (w : World) : Prop where
  sent : ∀ it ∈ w.items, it.sentAt ≠ none → ∃ i, it.row.id ∈ (w.stage i).marked
  tried : ∀ i, ∀ id ∈ (w.stage i).marked, ∃ d, (w.stage i).Tried d ∧ id ∈ d.ids
  oldest : ∀ i, ∀ rows ∈ (w.stage i).rows, Oldest maxItemsPerPass (w.queueAt i) rows

theorem handle_eq_some {w w' : World} {r : Ans o} :
    handle w i o r = some w' ↔ ∃ m, w.respond i o r = some m ∧
      w' = { m with stage := Function.update w.stage i ((w.stage i).next o r) } := by
  unfold handle
  rw [Option.map_eq_some_iff]
  simp only [eq_comm]

theorem movesStages : MovesStages Pass.discipline World.stage handle := by
  intro kind w i o r w' h
  obtain ⟨m, -, rfl⟩ := handle_eq_some.mp h
  exact ⟨_, rfl, rfl⟩

theorem Pass.next_marked (b : Pass) (o : Op) (r : Ans o) : (b.next o r).marked = b.marked ∨
      ∃ ids sentAt, o = .updateSent ids sentAt ∧ (b.next o r).marked = b.marked ++ ids := by
  unfold Pass.next
  split
  · exact .inl rfl
  · exact .inl rfl
  · exact .inl rfl
  · exact .inl rfl
  · rename_i ids sentAt a
    exact .inr ⟨ids, sentAt, rfl, rfl⟩
  · exact .inl rfl

theorem Pass.marked_subset (b : Pass) (o : Op) (r : Ans o) : b.marked ⊆ (b.next o r).marked := by
  rcases b.next_marked o r with hsame | ⟨ids, sentAt, -, hnew⟩
  · rw [hsame]
    exact List.Subset.refl _
  · rw [hnew]
    exact List.subset_append_left _ _

theorem Pass.Tried.next {b : Pass} {d : PendingDigest} (h : b.Tried d) (o : Op) (r : Ans o) :
    (b.next o r).Tried d := by
  unfold Pass.next
  split
  · exact h
  · exact h
  · exact h.imp_left (List.mem_append_left _)
  · exact h.imp_right (List.mem_append_left _)
  · exact h
  · exact h

theorem respond_sent {w m : World} {r : Ans o} (h : w.respond i o r = some m) {it : Item}
    (hit : it ∈ m.items) (hsent : it.sentAt ≠ none) :
    (∃ before ∈ w.items, before.row.id = it.row.id ∧ before.sentAt ≠ none) ∨
      it.row.id ∈ ((w.stage i).next o r).marked := by
  unfold World.respond at h
  split at h
  · obtain ⟨-, h⟩ := Option.ite_none_right_eq_some.mp h
    cases h
    exact .inl ⟨it, hit, rfl, hsent⟩
  · obtain ⟨-, h⟩ := Option.ite_none_right_eq_some.mp h
    cases h
    exact .inl ⟨it, hit, rfl, hsent⟩
  · cases h
    obtain ⟨before, hbefore, rfl⟩ := List.mem_map.mp hit
    split_ifs at hsent ⊢ with hid
    · exact .inr (List.mem_append_right _ hid)
    · exact .inl ⟨before, hbefore, rfl, hsent⟩
  · obtain ⟨-, h⟩ := Option.ite_none_left_eq_some.mp h
    cases h
    rcases List.mem_append.mp hit with hold | hnew
    · exact .inl ⟨it, hold, rfl, hsent⟩
    · rw [List.mem_singleton.mp hnew] at hsent
      exact absurd rfl hsent
  · cases h
    exact .inl ⟨it, (List.mem_filter.mp hit).1, rfl, hsent⟩
  · cases h
    exact .inl ⟨it, hit, rfl, hsent⟩
  · cases h
    exact .inl ⟨it, hit, rfl, hsent⟩

theorem respond_oldest {w m : World} {r : Ans o} (h : w.respond i o r = some m) :
    (∀ j ≠ i, m.queueAt j = w.queueAt j) ∧
      ((m.queueAt i = w.queueAt i ∧ ((w.stage i).next o r).rows = (w.stage i).rows) ∨
        ∀ rows ∈ ((w.stage i).next o r).rows, Oldest maxItemsPerPass (m.queueAt i) rows) := by
  unfold World.respond at h
  split at h
  · obtain ⟨-, h⟩ := Option.ite_none_right_eq_some.mp h
    cases h
    exact ⟨fun _ _ => rfl, .inl ⟨rfl, rfl⟩⟩
  · obtain ⟨holdest, h⟩ := Option.ite_none_right_eq_some.mp h
    cases h
    refine ⟨fun j hj => Function.update_of_ne hj _ _, .inr ?_⟩
    intro rows hrows
    cases hrows
    dsimp only
    rw [Function.update_self]
    exact holdest
  · cases h
    exact ⟨fun _ _ => rfl, .inl ⟨rfl, rfl⟩⟩
  · obtain ⟨-, h⟩ := Option.ite_none_left_eq_some.mp h
    cases h
    exact ⟨fun _ _ => rfl, .inl ⟨rfl, rfl⟩⟩
  · cases h
    exact ⟨fun _ _ => rfl, .inl ⟨rfl, rfl⟩⟩
  · cases h
    exact ⟨fun _ _ => rfl, .inl ⟨rfl, rfl⟩⟩
  · rename_i hsettings hunsent _ _ _ _
    cases h
    refine ⟨fun _ _ => rfl, .inl ⟨rfl, ?_⟩⟩
    unfold Pass.next
    split
    · exact (hsettings _ rfl HEq.rfl).elim
    · exact (hunsent _ rfl HEq.rfl).elim
    · rfl
    · rfl
    · rfl
    · rfl

theorem kept_handle {w w' : World} {r : Ans o} (h : Kept w) (hallowed : (w.stage i).Allowed o)
    (hw : handle w i o r = some w') : Kept w' := by
  obtain ⟨m, hm, rfl⟩ := handle_eq_some.mp hw
  constructor
  · intro it hit hsent
    dsimp only at hit ⊢
    rcases respond_sent hm hit hsent with ⟨before, hbefore, hid, hsent⟩ | hmarked
    · obtain ⟨j, hj⟩ := h.sent before hbefore hsent
      rw [hid] at hj
      refine ⟨j, ?_⟩
      by_cases hij : j = i
      · subst hij
        rw [Function.update_self]
        exact (w.stage j).marked_subset o r hj
      · rw [Function.update_of_ne hij]
        exact hj
    · refine ⟨i, ?_⟩
      rw [Function.update_self]
      exact hmarked
  · intro j id hid
    dsimp only at hid ⊢
    by_cases hij : j = i
    · subst hij
      rw [Function.update_self] at hid ⊢
      rcases (w.stage j).next_marked o r with hsame | ⟨ids, sentAt, rfl, hnew⟩
      · rw [hsame] at hid
        obtain ⟨d, htried, hd⟩ := h.tried j id hid
        exact ⟨d, htried.next o r, hd⟩
      · rw [hnew, List.mem_append] at hid
        rcases hid with hid | hid
        · obtain ⟨d, htried, hd⟩ := h.tried j id hid
          exact ⟨d, htried.next _ r, hd⟩
        · obtain ⟨d, htried, rfl⟩ := hallowed
          exact ⟨d, htried.next _ r, hid⟩
    · rw [Function.update_of_ne hij] at hid ⊢
      exact h.tried j id hid
  · intro j rows hrows
    obtain ⟨hother, hown⟩ := respond_oldest hm
    dsimp only at hrows ⊢
    by_cases hij : j = i
    · subst hij
      rw [Function.update_self] at hrows
      rcases hown with ⟨hqueue, hsame⟩ | hoption
      · rw [hsame] at hrows
        rw [hqueue]
        exact h.oldest j rows hrows
      · exact hoption rows hrows
    · rw [Function.update_of_ne hij] at hrows
      rw [hother j hij]
      exact h.oldest j rows hrows

/-- At its end a pass has tried every digest that is due. -/
def AtEnd (kind : Kind) (b : Pass) (_ : Result) : Prop := ∀ now, kind = .pass now → b.Finished now

/-- Every call is on its course, and the tables are kept. -/
def Good (s : Calls) : Prop :=
  Holds (Fresh World.stage Pass.fresh) (OnCourseTo Pass.discipline World.stage AtEnd) s ∧
    Kept s.world

theorem Start.good (h : Start s) : Good s := by
  refine ⟨onCourseTo_of_start h.procs h.stage, ?_, ?_, ?_⟩
  · intro it hit hsent
    exact absurd (h.unsent it hit) hsent
  · intro i id hid
    rw [h.stage] at hid
    cases hid
  · intro i rows hrows
    rw [h.stage] at hrows
    cases hrows

theorem good_step {t : Calls} {e : Happening} (h : Good s) (hs : step s e = some t) : Good t := by
  refine ⟨onCourseTo_step movesStages program_follows h.1 hs, ?_⟩
  rcases allowed_stepTo h.1 hs with hsame | ⟨i, o, r, kind, next, -, -, hallowed, hw⟩
  · rw [hsame]
    exact h.2
  · exact kept_handle h.2 hallowed hw

theorem good_exec {t : Calls} {es : List Happening} (hstart : Start s)
    (hexec : exec step s es = some t) : Good t :=
  exec_invariant step (fun _ _ _ h hs => good_step h hs) hstart.good hexec

def waiting (settings : Settings) (rows : List Row) : Calls where
  world :=
    { items := rows.map fun r => { row := r, sentAt := none }
      settings := settings
      queueAt := fun _ => []
      stage := fun _ => Pass.fresh }
  procs := []

theorem start_waiting (settings : Settings) (rows : List Row) : Start (waiting settings rows) := by
  refine ⟨rfl, fun _ => rfl, ?_⟩
  intro it hit
  obtain ⟨r, -, rfl⟩ := List.mem_map.mp hit
  rfl

def oneRow : Row := ⟨"n1", "ann", 0⟩

def failedDispatch : List Happening :=
  [.spawn (.pass 5), .act 0 .selectSettings (.ok ([] : Settings)),
    .act 0 .selectUnsent (.ok [oneRow]), .act 0 (.emitEvent ⟨"ann", [oneRow]⟩) (.error "no hash salt"),
    .act 0 (.updateSent ["n1"] 5) (.ok ())]

def twoUsers : List Row := [oneRow, ⟨"n2", "bob", 1⟩, ⟨"n3", "ann", 2⟩]

/-- Another pass reads the queue while the first is at its dispatches. -/
def twoDigests : List Happening :=
  [.spawn (.pass 5), .act 0 .selectSettings (.ok ([] : Settings)),
    .act 0 .selectUnsent (.ok twoUsers),
    .act 0 (.emitEvent ⟨"ann", [oneRow, ⟨"n3", "ann", 2⟩]⟩) (.ok ()),
    .spawn (.pass 6), .act 1 .selectSettings (.ok ([] : Settings)),
    .act 1 .selectUnsent (.ok twoUsers), .act 0 (.updateSent ["n1", "n3"] 5) (.ok ()),
    .act 0 (.emitEvent ⟨"bob", [⟨"n2", "bob", 1⟩]⟩) (.ok ()), .act 0 (.updateSent ["n2"] 5) (.ok ())]

theorem unsent_waiting (settings : Settings) (rows : List Row) :
    (waiting settings rows).world.unsent = rows := by
  unfold World.unsent waiting
  dsimp only
  induction rows with
  | nil => rfl
  | cons r rest ih => simp [ih]

def idlePass (settings : Settings) (rows : List Row) (now : ℤ) : List Happening :=
  [.spawn (.pass now), .act 0 .selectSettings (.ok settings), .act 0 .selectUnsent (.ok rows)]

theorem idle_run {settings : Settings} {rows : List Row}
    (holdest : Oldest maxItemsPerPass queue rows)
    (hnone : dueDigests rows (modeOf settings) now = []) :
    ∃ t, exec step (waiting settings queue) (idlePass settings rows now) = some t ∧ Ended t 0 now ∧
      (t.world.stage 0).settings = settings ∧ (t.world.stage 0).rows.isSome ∧
      (t.world.stage 0).dispatched = [] ∧ (t.world.stage 0).failed = [] ∧
      t.world.queueAt 0 = queue := by
  let w := (waiting settings queue).world
  let b := Pass.fresh.next .selectSettings (.ok settings)
  let w₁ : World := { w with stage := Function.update w.stage 0 b }
  have hsettings : handle w 0 .selectSettings (.ok settings) = some w₁ := by
    have hread : w.readSettings settings = some w := if_pos (List.Perm.refl _)
    exact handle_eq_some.mpr ⟨w, hread, rfl⟩
  let w₂ : World :=
    { w₁ with
      queueAt := Function.update w₁.queueAt 0 w₁.unsent
      stage := Function.update w₁.stage 0 (b.next .selectUnsent (.ok rows)) }
  have hunsent : w₁.unsent = queue := unsent_waiting settings queue
  have hrows : handle w₁ 0 .selectUnsent (.ok rows) = some w₂ := by
    have hread : w₁.readUnsent 0 rows =
        some { w₁ with queueAt := Function.update w₁.queueAt 0 w₁.unsent } :=
      if_pos (hunsent.symm ▸ holdest)
    exact handle_eq_some.mpr ⟨_, hread, rfl⟩
  obtain ⟨next₁, hnext₁, next₂, hnext₂, hpure⟩ :
      ∃ next₁, program (.pass now) = .call .selectSettings next₁ ∧
        ∃ next₂, next₁ (.ok settings) = .call .selectUnsent next₂ ∧
          next₂ (.ok rows) = .pure (.ok 0) := by
    refine ⟨_, rfl, _, rfl, ?_⟩
    change ExceptT.run (if (dueDigests rows (modeOf settings) now).length = 0 then _ else _) = _
    rw [hnone]
    rfl
  have hproc : ∀ (v : World) (p p' : Program Op Ans Result), p = p' →
      (⟨v, [⟨.pass now, some p⟩]⟩ : Calls).procs[0]? = some ⟨.pass now, some p'⟩ := by
    rintro v p p' rfl
    rfl
  let s₁ : Calls := ⟨w, [⟨.pass now, some (program (.pass now))⟩]⟩
  let s₂ : Calls := ⟨w₁, [⟨.pass now, some (next₁ (.ok settings))⟩]⟩
  let s₃ : Calls := ⟨w₂, [⟨.pass now, some (next₂ (.ok rows))⟩]⟩
  have h₁ : step s₁ (.act 0 .selectSettings (.ok settings)) = some s₂ :=
    step_act program handle (hproc w _ _ hnext₁) hsettings
  have h₂ : step s₂ (.act 0 .selectUnsent (.ok rows)) = some s₃ :=
    step_act program handle (hproc w₁ _ _ hnext₂) hrows
  refine ⟨s₃, ?_, ⟨.ok 0, hproc w₂ _ _ hpure⟩, rfl, rfl, rfl, rfl, ?_⟩
  · exact (exec_cons_eq_some step).mpr ⟨s₁, rfl, (exec_cons_eq_some step).mpr ⟨s₂, h₁,
      (exec_cons_eq_some step).mpr ⟨s₃, h₂, rfl⟩⟩⟩
  · exact hunsent

/-- As many rows of a daily digest as one pass reads, and a younger one of an hourly digest. -/
def crowd : List Row := (List.range maxItemsPerPass).map fun n => ⟨toString n, "ann", 0⟩

def late : Row := ⟨"late", "bob", 1⟩

def crowdSettings : Settings := [("ann", some .daily), ("bob", some .hourly)]

theorem crowd_oldest : Oldest maxItemsPerPass (crowd ++ [late]) crowd := by
  have hlength : crowd.length = maxItemsPerPass := by simp [crowd]
  have hzero : ∀ r ∈ crowd, r.createdAt = 0 := by
    intro r hr
    obtain ⟨n, -, rfl⟩ := List.mem_map.mp hr
    rfl
  refine ⟨?_, ?_, ?_, ?_⟩
  · refine List.pairwise_of_forall_mem_list fun r hr s hs => ?_
    exact Int.le_of_eq ((hzero r hr).trans (hzero s hs).symm)
  · apply List.subperm_append_diff_self_of_count_le
    intro r _
    exact (List.sublist_append_left crowd [late]).count_le r
  · rw [List.length_append, hlength]
    exact (Nat.min_eq_left (Nat.le_add_right _ _)).symm
  · intro r hr s hs
    rw [hzero r hr]
    rcases List.mem_append.mp (List.diff_subset _ _ hs) with hs | hs
    · exact Int.le_of_eq (hzero s hs).symm
    · rw [List.mem_singleton.mp hs]
      decide

theorem crowd_not_due : dueDigests crowd (modeOf crowdSettings) 3600001 = [] := by
  refine List.eq_nil_iff_forall_not_mem.mpr fun d hd => ?_
  obtain ⟨hne, hitems, hwaited⟩ := mem_dueDigests_iff.mp hd
  obtain ⟨r, rest, hrows⟩ := List.exists_cons_of_ne_nil hne
  have hr : r ∈ crowd.filter fun s => s.userId = d.userId := by
    rw [← hitems, hrows]
    exact List.mem_cons_self
  obtain ⟨hcrowd, huser⟩ := List.mem_filter.mp hr
  obtain ⟨n, -, rfl⟩ := List.mem_map.mp hcrowd
  have hnot : ¬ (modeOf crowdSettings "ann").Waited 3600001 0 := by decide
  rw [← of_decide_eq_true huser, hrows] at hwaited
  exact hnot (hwaited _ rfl)

theorem mem_crowd_due : late ∈ dueRows (modeOf crowdSettings) 3600001 (crowd ++ [late]) := by
  have hlate : late ∈ crowd ++ [late] := List.mem_append_right _ (List.mem_singleton_self _)
  exact mem_dueRows.mpr ⟨hlate, late, hlate, rfl, by decide⟩

theorem not_mem_crowd_due {r : Row} (hr : r ∈ crowd) :
    r ∉ dueRows (modeOf crowdSettings) 3600001 (crowd ++ [late]) := by
  intro hdue
  obtain ⟨-, s, hs, huser, hwaited⟩ := mem_dueRows.mp hdue
  have hnot : ¬ (modeOf crowdSettings "ann").Waited 3600001 0 := by decide
  obtain ⟨n, -, rfl⟩ := List.mem_map.mp hr
  rcases List.mem_append.mp hs with hs | hs
  · obtain ⟨m, -, rfl⟩ := List.mem_map.mp hs
    exact hnot hwaited
  · rw [List.mem_singleton.mp hs] at huser
    have hne : late.userId ≠ "ann" := by decide
    exact hne huser

theorem crowd_due_le :
    (dueRows (modeOf crowdSettings) 3600001 (crowd ++ [late])).length ≤ maxItemsPerPass := by
  have hnone := fun r hr => not_mem_crowd_due (r := r) hr
  unfold dueRows at hnone ⊢
  rw [List.filter_append, List.length_append]
  have hcrowd : crowd.filter (fun r => (crowd ++ [late]).any fun s => s.userId = r.userId ∧
      (modeOf crowdSettings s.userId).Waited 3600001 s.createdAt) = [] := by
    apply List.filter_eq_nil_iff.mpr
    intro r hr hwaits
    exact hnone r hr (List.mem_filter.mpr ⟨List.mem_append_left _ hr, hwaits⟩)
  rw [hcrowd, List.length_nil, Nat.zero_add]
  exact Nat.le_trans (List.length_filter_le _ _) (by decide)

end Insula.Digests
