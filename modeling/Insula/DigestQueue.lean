import Mathlib.Data.Int.Basic
import Mathlib.Data.List.Induction
import Insula.Stages

/-!
# Digests of notifications

`notifications/digest`: notifications that wait in `notification_digest_items` for the digest of
their user, and the pass that sends the digests that are due and marks their items sent. The texts
of the notifications are left out.
-/

namespace Insula.Digests

open Program (request Attempt)

inductive DigestMode
  | immediate
  | hourly
  | daily
  deriving DecidableEq

def DigestMode.windowMs : DigestMode → Option ℤ
  | immediate => none
  | hourly => some (60 * 60 * 1000)
  | daily => some (24 * 60 * 60 * 1000)

def digestItemRetentionDays : ℤ := 7

def maxItemsPerPass : ℕ := 2000

structure Row where
  id : String
  userId : String
  createdAt : ℤ
  deriving DecidableEq

structure PendingDigest where
  userId : String
  items : List Row
  deriving DecidableEq

def PendingDigest.ids (d : PendingDigest) : List String := d.items.map Row.id

abbrev Settings := List (String × Option DigestMode)

inductive Op
  | selectSettings
  /-- The unsent items, the oldest first, at most `maxItemsPerPass`. -/
  | selectUnsent
  | emitEvent (digest : PendingDigest)
  | updateSent (ids : List String) (sentAt : ℤ)
  | insertItem (row : Row)
  | deleteSent (cutoff : ℤ)
  | upsertSettings (userId : String) (mode : Option DigestMode)
  deriving DecidableEq

def Val : Op → Type
  | .selectSettings => Settings
  | .selectUnsent => List Row
  | .emitEvent _ => Unit
  | .updateSent _ _ => Unit
  | .insertItem _ => Unit
  | .deleteSent _ => ℕ
  | .upsertSettings _ _ => Unit

abbrev Task (α : Type) := Attempt String Op Val α

abbrev ask (o : Op) : Task (Val o) := request o

def selectSettings : Task Settings := ask .selectSettings

def selectUnsent : Task (List Row) := ask .selectUnsent

def emitEvent (digest : PendingDigest) : Task Unit := ask (.emitEvent digest)

def deleteSent (cutoff : ℤ) : Task ℕ := ask (.deleteSent cutoff)

/-! ## Which digests are due -/

def addRow (r : Row) : List (String × List Row) → List (String × List Row)
  | [] => [(r.userId, [r])]
  | (userId, items) :: rest =>
    if userId = r.userId then (userId, items ++ [r]) :: rest else (userId, items) :: addRow r rest

def byUser (rows : List Row) : List (String × List Row) :=
  rows.foldl (fun groups r => addRow r groups) []

def dueDigest (mode : DigestMode) (now : ℤ) (userId : String) (items : List Row) :
    Option PendingDigest :=
  match mode.windowMs with
  | none => some { userId := userId, items := items }
  | some window =>
    match items.head? with
    | none => none
    | some oldest =>
      if window ≤ now - oldest.createdAt then some { userId := userId, items := items } else none

def dueDigests (rows : List Row) (modeForUser : String → DigestMode) (now : ℤ) :
    List PendingDigest :=
  (byUser rows).filterMap fun group => dueDigest (modeForUser group.1) now group.1 group.2

/-- `modes.get(uid) ?? 'immediate'`: of several settings the last one counts. -/
def modeOf (settings : Settings) (userId : String) : DigestMode :=
  match settings.reverse.find? fun s => s.1 = userId with
  | none => .immediate
  | some s => s.2.getD .immediate

/-! ## The pass -/

def dispatchSafe (digest : PendingDigest) : Task Unit :=
  tryCatch (emitEvent digest) fun _ => pure ()

def notifyUserDigest (digest : PendingDigest) : Task Unit := dispatchSafe digest

def markSent (ids : List String) (now : ℤ) : Task Unit :=
  if ids.length = 0 then pure () else ask (.updateSent ids now)

def flushDigest (now : ℤ) (digest : PendingDigest) : Task Bool :=
  tryCatch
    (do
      notifyUserDigest digest
      markSent digest.ids now
      return true)
    fun _ => return false

def flush (now : ℤ) (sent : ℕ) : List PendingDigest → Task ℕ
  | [] => return sent
  | digest :: rest => do
      let flushed ← flushDigest now digest
      flush now (if flushed then sent + 1 else sent) rest

def runOnce (now : ℤ) : Task ℕ := do
  let settings ← selectSettings
  let rows ← selectUnsent
  let due := dueDigests rows (modeOf settings) now
  if due.length = 0 then return 0 else flush now 0 due

def purgeSentDigestItems (now : ℤ) : Task ℕ := deleteSent (now - digestItemRetentionDays * 86400000)

/-! ## Groups by user -/

def Grouped (rows : List Row) (groups : List (String × List Row)) : Prop :=
  (groups.map Prod.fst).Nodup ∧ ∀ userId items, (userId, items) ∈ groups ↔
    items ≠ [] ∧ items = rows.filter fun r => r.userId = userId

theorem fst_addRow (r : Row) (groups : List (String × List Row)) (userId : String) :
    userId ∈ (addRow r groups).map Prod.fst ↔ userId = r.userId ∨ userId ∈ groups.map Prod.fst := by
  induction groups with
  | nil => simp [addRow]
  | cons group rest ih =>
    unfold addRow
    split_ifs with hsame
    · simp [hsame]
    · rw [List.map_cons, List.mem_cons, ih, List.map_cons, List.mem_cons]
      exact or_left_comm

variable {groups : List (String × List Row)} {now : ℤ}

theorem nodup_addRow (r : Row) (h : (groups.map Prod.fst).Nodup) :
    ((addRow r groups).map Prod.fst).Nodup := by
  induction groups with
  | nil => simp [addRow]
  | cons group rest ih =>
    obtain ⟨hnotin, hrest⟩ := List.nodup_cons.mp h
    unfold addRow
    split_ifs with hsame
    · exact List.nodup_cons.mpr ⟨hnotin, hrest⟩
    · refine List.nodup_cons.mpr ⟨?_, ih hrest⟩
      rw [fst_addRow, not_or]
      exact ⟨hsame, hnotin⟩

theorem mem_addRow (r : Row) (h : (groups.map Prod.fst).Nodup) (userId : String)
    (items : List Row) :
    (userId, items) ∈ addRow r groups ↔ if userId = r.userId then
        (∃ before, (userId, before) ∈ groups ∧ items = before ++ [r]) ∨
          (userId ∉ groups.map Prod.fst ∧ items = [r]) else (userId, items) ∈ groups := by
  induction groups with
  | nil =>
    unfold addRow
    split_ifs with hsame
    · simp [hsame]
    · simp [hsame]
  | cons group rest ih =>
    obtain ⟨first, before⟩ := group
    obtain ⟨hnotin, hrest⟩ := List.nodup_cons.mp h
    have hfirst : ∀ items, (first, items) ∉ rest :=
      fun items hmem => hnotin (List.mem_map.mpr ⟨_, hmem, rfl⟩)
    unfold addRow
    by_cases hsame : first = r.userId
    · rw [if_pos hsame]
      split_ifs with huser
      · subst hsame
        subst huser
        simp [hfirst]
      · have hother : userId ≠ first := fun heq => huser (heq.trans hsame)
        simp [hother]
    · rw [if_neg hsame, List.mem_cons, ih hrest]
      split_ifs with huser
      · have hother : userId ≠ first := fun heq => hsame (heq.symm.trans huser)
        simp [hother]
      · rw [List.mem_cons]

theorem Grouped.addRow {rows : List Row} (h : Grouped rows groups) (r : Row) :
    Grouped (rows ++ [r]) (addRow r groups) := by
  refine ⟨nodup_addRow r h.1, ?_⟩
  intro userId items
  rw [mem_addRow r h.1, List.filter_append]
  split_ifs with huser
  · subst huser
    have hkey : r.userId ∈ groups.map Prod.fst ↔ rows.filter (fun s => s.userId = r.userId) ≠ [] := by
      constructor
      · intro hmem
        obtain ⟨group, hgroup, heq⟩ := List.mem_map.mp hmem
        obtain ⟨hne, hitems⟩ := (h.2 r.userId group.2).mp (heq ▸ hgroup)
        exact hitems ▸ hne
      · intro hne
        exact List.mem_map.mpr ⟨_, (h.2 r.userId _).mpr ⟨hne, rfl⟩, rfl⟩
    constructor
    · rintro (⟨before, hbefore, rfl⟩ | ⟨hnotin, rfl⟩)
      · simp [((h.2 _ _).mp hbefore).2]
      · rw [hkey, not_not] at hnotin
        simp [hnotin]
    · rintro ⟨-, rfl⟩
      by_cases hempty : rows.filter (fun s => s.userId = r.userId) = []
      · right
        rw [hkey, not_not]
        exact ⟨hempty, by simp [hempty]⟩
      · exact .inl ⟨_, (h.2 _ _).mpr ⟨hempty, rfl⟩, by simp⟩
  · have hnone : [r].filter (fun s => s.userId = userId) = [] := by simp [Ne.symm huser]
    rw [hnone, List.append_nil]
    exact h.2 userId items

theorem grouped_byUser (rows : List Row) : Grouped rows (byUser rows) := by
  induction rows using List.reverseRecOn with
  | nil =>
    refine ⟨List.nodup_nil, ?_⟩
    intro userId items
    simp [byUser]
  | append_singleton rows r ih =>
    have happend : byUser (rows ++ [r]) = addRow r (byUser rows) := by simp [byUser]
    rw [happend]
    exact ih.addRow r

/-! ## What is due -/

def DigestMode.Waited (mode : DigestMode) (now createdAt : ℤ) : Prop :=
  ∀ window ∈ mode.windowMs, window ≤ now - createdAt

instance (mode : DigestMode) (now createdAt : ℤ) : Decidable (mode.Waited now createdAt) := by
  unfold DigestMode.Waited
  infer_instance

theorem DigestMode.Waited.mono {mode : DigestMode} {createdAt older : ℤ}
    (h : mode.Waited now createdAt) (hle : older ≤ createdAt) : mode.Waited now older := by
  intro window hwindow
  have := h window hwindow
  omega

theorem dueDigest_eq_some_iff {mode : DigestMode} {userId : String} {items : List Row}
    (hne : items ≠ []) {d : PendingDigest} : dueDigest mode now userId items = some d ↔
      (∀ oldest ∈ items.head?, mode.Waited now oldest.createdAt) ∧ d = ⟨userId, items⟩ := by
  unfold dueDigest DigestMode.Waited
  cases mode.windowMs with
  | none => simp [eq_comm]
  | some window =>
    cases items with
    | nil => exact absurd rfl hne
    | cons oldest rest => simp [eq_comm]

theorem mem_dueDigests_iff {rows : List Row} {modeForUser : String → DigestMode}
    {d : PendingDigest} : d ∈ dueDigests rows modeForUser now ↔
      d.items ≠ [] ∧ d.items = rows.filter (fun r => r.userId = d.userId) ∧
        ∀ oldest ∈ d.items.head?, (modeForUser d.userId).Waited now oldest.createdAt := by
  unfold dueDigests
  rw [List.mem_filterMap]
  constructor
  · rintro ⟨⟨userId, items⟩, hgroup, hdue⟩
    obtain ⟨hne, hitems⟩ := ((grouped_byUser rows).2 userId items).mp hgroup
    obtain ⟨hwaited, rfl⟩ := (dueDigest_eq_some_iff hne).mp hdue
    exact ⟨hne, hitems, hwaited⟩
  · rintro ⟨hne, hitems, hwaited⟩
    exact ⟨(d.userId, d.items), ((grouped_byUser rows).2 _ _).mpr ⟨hne, hitems⟩,
      (dueDigest_eq_some_iff hne).mpr ⟨hwaited, rfl⟩⟩

end Insula.Digests
