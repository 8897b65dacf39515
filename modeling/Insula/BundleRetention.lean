import Insula.BackupBundles
import Insula.Transition
import Mathlib.Data.List.Sort

/-!
# The retention sweep of tenant bundles

`retention.ts`: a sweep moves the expiry of the nightly bundles to the schedule's current days,
brings the expiry of the bundles beyond keep-last-N forward to now, expires what is past its expiry
and not held, and fails captures that are stuck. A lease lets one sweep run at a time.
-/

namespace Insula.TenantBundles

open Javascript

/-- The stored limits of a schedule; NULL and 0 limit nothing. -/
structure StoredRetention where
  retentionDays : Option ℤ
  retentionCount : Option ℤ
  deriving DecidableEq

structure RetentionPolicy where
  days : Option ℤ
  count : Option ℤ
  deriving DecidableEq

def limit (n : Option ℤ) : Option ℤ := n.filter fun k => 0 < k

/-- What a schedule of tenant bundles that limits nothing stands for. -/
def unsetFallback : RetentionPolicy := { days := some 30, count := none }

def keepEverything : RetentionPolicy := { days := none, count := none }

/-- The policy that the schedule of the tenant bundles stands for. Days of 0 mean that nothing
expires. -/
def effectiveRetention : Option StoredRetention → RetentionPolicy
  | none => unsetFallback
  | some row =>
    if limit row.retentionDays ≠ none ∨ limit row.retentionCount ≠ none then
      { days := limit row.retentionDays, count := limit row.retentionCount }
    else if row.retentionDays = some 0 then keepEverything
    else unsetFallback

inductive RestoreJobStatus
  | draft
  | executing
  | paused
  | done
  | failed
  deriving DecidableEq

structure RestoreJob where
  id : String
  status : RestoreJobStatus
  deriving DecidableEq

structure RestoreItem where
  restoreJobId : String
  bundleId : String
  deriving DecidableEq

structure RetentionDatabase extends Catalogue where
  restoreJobs : List RestoreJob
  restoreItems : List RestoreItem
  /-- The row of `backup_schedules` for the tenant bundles. -/
  schedule : Option StoredRetention

namespace RetentionDatabase

variable (db : RetentionDatabase)

def Suspended (tenantId : String) : Prop := ∃ t ∈ db.tenants, t.id = tenantId ∧ t.status = .suspended

instance (tenantId : String) : Decidable (db.Suspended tenantId) := by
  unfold Suspended
  infer_instance

def InOpenRestore (bundleId : String) : Prop :=
  ∃ ri ∈ db.restoreItems, ri.bundleId = bundleId ∧
    ∃ rj ∈ db.restoreJobs, rj.id = ri.restoreJobId ∧ rj.status ≠ .done ∧ rj.status ≠ .failed

instance (bundleId : String) : Decidable (db.InOpenRestore bundleId) := by
  unfold InOpenRestore
  infer_instance

def Unexpired (now : ℤ) (job : BackupJob) : Prop :=
  job.expiresAt = none ∨ ∃ e, job.expiresAt = some e ∧ now < e

instance (now : ℤ) (job : BackupJob) : Decidable (Unexpired now job) := by
  unfold Unexpired
  infer_instance

/-- Nightly bundles that have not expired, of tenants that are not suspended. -/
def ScheduledAndUnexpired (now : ℤ) (job : BackupJob) : Prop :=
  job.initiator = .system ∧ job.systemTrigger = some .scheduled ∧ job.status.restorable = true ∧
    Unexpired now job ∧ ¬ db.Suspended job.tenantId

instance (now : ℤ) (job : BackupJob) : Decidable (db.ScheduledAndUnexpired now job) := by
  unfold ScheduledAndUnexpired
  infer_instance

def daysInterval (days : ℤ) : ℤ := days * 24 * 60 * 60 * 1000000

/-- The rows that move to `days`. Bringing an expiry in waits for an open restore; pushing it out
does not. -/
def Restamps (days now : ℤ) (job : BackupJob) : Prop :=
  db.ScheduledAndUnexpired now job ∧ job.expiresAt ≠ some (job.createdAt + daysInterval days) ∧
    ((∃ e, job.expiresAt = some e ∧ e < job.createdAt + daysInterval days) ∨
      ¬ db.InOpenRestore job.id)

instance (days now : ℤ) (job : BackupJob) : Decidable (db.Restamps days now job) := by
  unfold Restamps
  infer_instance

def restamped (days : Option ℤ) (now : ℤ) (job : BackupJob) : BackupJob :=
  match days with
  | none =>
    if db.ScheduledAndUnexpired now job ∧ job.expiresAt ≠ none then
      { job with expiresAt := none, retentionDays := 0 }
    else job
  | some days =>
    if db.Restamps days now job then
      { job with expiresAt := some (job.createdAt + daysInterval days), retentionDays := days }
    else job

def restampScheduledBundles (days : Option ℤ) (now : ℤ) : RetentionDatabase :=
  { db with
    toCatalogue := db.toCatalogue.updateJobs (db.restamped days now) (by
      intro job
      unfold restamped
      split <;> split <;> rfl) }

/-- `row_number()` among the restorable bundles of the tenant, newest first. -/
def rank (job : BackupJob) : ℕ :=
  (db.backupJobs.filter fun n =>
    n.tenantId = job.tenantId ∧ n.status.restorable = true ∧ db.Newer n job).length + 1

def OverCount (keepLast now : ℤ) (job : BackupJob) : Prop :=
  job.status.restorable = true ∧ keepLast < db.rank job ∧ Unexpired now job ∧
    ¬ db.Suspended job.tenantId ∧ ¬ db.InOpenRestore job.id

instance (keepLast now : ℤ) (job : BackupJob) : Decidable (db.OverCount keepLast now job) := by
  unfold OverCount
  infer_instance

def broughtForward (keepLast now : ℤ) (job : BackupJob) : BackupJob :=
  if db.OverCount keepLast now job then { job with expiresAt := some now } else job

def markOverCount (keepLast : Option ℤ) (now : ℤ) : RetentionDatabase :=
  match keepLast with
  | none => db
  | some keepLast =>
    { db with
      toCatalogue := db.toCatalogue.updateJobs (db.broughtForward keepLast now) (by
        intro job
        unfold broughtForward
        split <;> rfl) }

def expired (id : String) (job : BackupJob) : BackupJob :=
  if job.id = id then { job with status := .expired } else job

def markExpired (id : String) : RetentionDatabase :=
  { db with
    toCatalogue := db.toCatalogue.updateJobs (expired id) (by
      intro job
      unfold expired
      split <;> rfl) }

def onBoundTarget (bound : BoundTenantTarget) (job : BackupJob) : Bool :=
  match bound with
  | .known boundId => onBound boundId job
  | _ => job.targetConfigId = none

def ExpiryCandidate (now : ℤ) (bound : BoundTenantTarget) (tried : List String) (job : BackupJob) :
    Prop :=
  (∃ e, job.expiresAt = some e ∧ e ≤ now) ∧
    (job.status = .completed ∨ job.status = .partially ∨ job.status = .failed) ∧
    ¬ db.HeldPastExpiry job ∧ onBoundTarget bound job = true ∧ job.id ∉ tried

instance (now : ℤ) (bound : BoundTenantTarget) (tried : List String) (job : BackupJob) :
    Decidable (db.ExpiryCandidate now bound tried job) := by
  unfold ExpiryCandidate
  infer_instance

def expiryBatch : ℕ := 50

def expiryMaxBatches : ℕ := 20

/-- A batch of the expiry pass. The query asks for no order: `scan` is the one the rows come in. -/
def selectExpired (now : ℤ) (bound : BoundTenantTarget) (tried : List String) (scan : String → ℕ) :
    List BackupJob :=
  ((db.backupJobs.filter fun job => db.ExpiryCandidate now bound tried job).insertionSort
    fun a b => scan a.id ≤ scan b.id).take expiryBatch

def frozen (targetConfigId : Option String) : Bool :=
  db.backupConfigurations.any fun c => c.readOnly && decide (some c.id = targetConfigId)

def failedIfStuck (cutoff : ℤ) (job : BackupJob) : BackupJob :=
  if job.status = .running ∧ ∃ t, job.startedAt = some t ∧ t < cutoff then
    { job with status := .failed }
  else job

def failStuck (cutoff : ℤ) : RetentionDatabase :=
  { db with
    toCatalogue := db.toCatalogue.updateJobs (failedIfStuck cutoff) (by
      intro job
      unfold failedIfStuck
      split <;> rfl) }

end RetentionDatabase

structure SweepAnswers where
  now : ℤ
  bound : BoundTenantTarget
  /-- The order in which the rows of each batch come. -/
  scan : ℕ → String → ℕ
  /-- Is the time budget spent before the bundle of this place in the batch? -/
  outOfTime : ℕ → ℕ → Bool
  /-- Is it spent at the end of the batch? -/
  outOfTimeAfter : ℕ → Bool
  /-- Does the bundle's delete on its target succeed? -/
  deletes : String → Bool
  /-- The instant before which a capture that still runs must have begun to count as stuck. -/
  stuckCutoff : ℤ

def expireCandidate (answers : SweepAnswers) (db : RetentionDatabase) (job : BackupJob) :
    RetentionDatabase :=
  if truthy job.targetConfigId = false then db.markExpired job.id
  else if db.frozen job.targetConfigId then db
  else if answers.deletes job.id then db.markExpired job.id
  else db

/-- The bundles of a batch from the place `i` on, and whether the time ran out. -/
def expireCandidates (answers : SweepAnswers) (batch : ℕ) :
    ℕ → RetentionDatabase → List BackupJob → RetentionDatabase × Bool
  | _, db, [] => (db, false)
  | i, db, job :: jobs =>
    if answers.outOfTime batch i then (db, true)
    else expireCandidates answers batch (i + 1) (expireCandidate answers db job) jobs

def expiryBatches (answers : SweepAnswers) (now : ℤ) :
    ℕ → RetentionDatabase → List String →
      RetentionDatabase × List (RetentionDatabase × List BackupJob)
  | 0, db, _ => (db, [])
  | left + 1, db, tried =>
    let batch := RetentionDatabase.expiryMaxBatches - (left + 1)
    let candidates := db.selectExpired now answers.bound tried (answers.scan batch)
    if candidates.isEmpty then (db, [])
    else
      let swept := expireCandidates answers batch 0 db candidates
      if swept.2 || decide (candidates.length < RetentionDatabase.expiryBatch) ||
          answers.outOfTimeAfter batch then
        (swept.1, [(db, candidates)])
      else
        let rest := expiryBatches answers now left swept.1 (tried ++ candidates.map BackupJob.id)
        (rest.1, (db, candidates) :: rest.2)

def runRetentionSweep (db : RetentionDatabase) (answers : SweepAnswers) :
    RetentionDatabase × List (RetentionDatabase × List BackupJob) :=
  let now := timestamp answers.now
  let policy := effectiveRetention db.schedule
  let stamped := (db.restampScheduledBundles policy.days now).markOverCount policy.count now
  let expired := expiryBatches answers now RetentionDatabase.expiryMaxBatches stamped []
  (expired.1.failStuck (timestamp answers.stuckCutoff), expired.2)

inductive BundleOutcome
  | completed
  | partially
  | failed
  deriving DecidableEq

def BundleOutcome.status : BundleOutcome → BackupJobStatus
  | .completed => .completed
  | .partially => .partially
  | .failed => .failed

inductive RetentionEvent
  | sweep (answers : SweepAnswers)
  | setRetention (row : Option StoredRetention)
  | insertBundle (job : BackupJob)
  | startBundle (id : String)
  | recordComponent (row : BackupComponent)
  | finishBundle (id : String) (outcome : BundleOutcome)
  | setTenantStatus (id : String) (status : TenantStatus)
  | setRestores (jobs : List RestoreJob) (items : List RestoreItem)
  | setConfigurations (targets : List BackupConfiguration)

/-- The bundle is in the making: it has not been completed, fully or in part. -/
def RetentionDatabase.Capturing (db : RetentionDatabase) (id : String) : Prop :=
  ∃ job ∈ db.backupJobs, job.id = id ∧ job.status.restorable = false

instance (db : RetentionDatabase) (id : String) : Decidable (db.Capturing id) := by
  unfold RetentionDatabase.Capturing
  infer_instance

def withStatus (id : String) (status : BackupJobStatus) (job : BackupJob) : BackupJob :=
  if job.id = id then { job with status := status } else job

theorem withStatus_id (id : String) (status : BackupJobStatus) (job : BackupJob) :
    (withStatus id status job).id = job.id := by
  unfold withStatus
  split <;> rfl

def recordComponent (rows : List BackupComponent) (row : BackupComponent) : List BackupComponent :=
  if row.id ∈ rows.map BackupComponent.id then rows.map fun c => if c.id = row.id then row else c
  else rows ++ [row]

theorem recordComponent_keys {rows : List BackupComponent} (h : (rows.map BackupComponent.id).Nodup)
    (row : BackupComponent) : ((recordComponent rows row).map BackupComponent.id).Nodup := by
  unfold recordComponent
  split
  · have hkeys : (rows.map fun c => if c.id = row.id then row else c).map BackupComponent.id =
        rows.map BackupComponent.id := by
      rw [List.map_map]
      apply List.map_congr_left
      intro c _
      by_cases hc : c.id = row.id
      · simp [hc]
      · simp [hc]
    rw [hkeys]
    exact h
  · rename_i hnot
    rw [List.map_append, List.map_singleton]
    exact h.append (List.nodup_singleton _) (by simpa using hnot)

/-- A history of the tables. A capture begins with a new row and writes its components and its end
while the bundle is in the making; the sweep may have failed it in the meantime. -/
def retentionStep (db : RetentionDatabase) : RetentionEvent → Option RetentionDatabase
  | .sweep answers => some (runRetentionSweep db answers).1
  | .setRetention row => some { db with schedule := row }
  | .insertBundle job =>
    if h : job.id ∉ db.backupJobs.map BackupJob.id then
      if job.status = .pending then
        some { db with
          backupJobs := db.backupJobs ++ [job]
          jobKeys := by
            rw [List.map_append, List.map_singleton]
            exact db.jobKeys.append (List.nodup_singleton _) (by simpa using h) }
      else none
    else none
  | .startBundle id =>
    if db.Capturing id then
      some { db with
        toCatalogue := db.toCatalogue.updateJobs (withStatus id .running)
          (withStatus_id id .running) }
    else none
  | .recordComponent row =>
    if db.Capturing row.backupJobId ∧
        ∀ c ∈ db.backupComponents, c.id = row.id → c.backupJobId = row.backupJobId then
      some { db with
        backupComponents := recordComponent db.backupComponents row
        componentKeys := recordComponent_keys db.componentKeys row }
    else none
  | .finishBundle id outcome =>
    if db.Capturing id then
      some { db with
        toCatalogue := db.toCatalogue.updateJobs (withStatus id outcome.status)
          (withStatus_id id outcome.status) }
    else none
  | .setTenantStatus id status =>
    some { db with
      tenants := db.tenants.map fun t => if t.id = id then { t with status := status } else t }
  | .setRestores jobs items => some { db with restoreJobs := jobs, restoreItems := items }
  | .setConfigurations targets => some { db with backupConfigurations := targets }

end Insula.TenantBundles
