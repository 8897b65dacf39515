import Insula.Javascript
import Mathlib.Data.List.Nodup
import Mathlib.Data.String.Basic

/-!
# Backup bundles and when one outlives its expiry

The tables that the retention of tenant bundles works on, and the one definition of a restore point
(`bundle-hold.ts`) that the expiry sweep and the restic reconciler share. A subquery under `EXISTS`
is an existential over the rows of a table. Instants of the database are microseconds.
-/

namespace Insula.TenantBundles

open Javascript

inductive TenantStatus
  | active
  | suspended
  | archived
  | pending
  deriving DecidableEq

inductive BackupInitiator
  | tenant
  | admin
  | system
  | cluster
  deriving DecidableEq

inductive BackupSystemTrigger
  | preResize
  | preArchive
  | scheduled
  | manual
  deriving DecidableEq

/-- `backup_job_status`; `partially` is the value `partial`. -/
inductive BackupJobStatus
  | pending
  | running
  | completed
  | partially
  | failed
  | expired
  deriving DecidableEq

inductive BackupComponentName
  | files
  | mailboxes
  | config
  | secrets
  deriving DecidableEq

inductive BackupComponentStatus
  | pending
  | running
  | completed
  | skipped
  | failed
  deriving DecidableEq

def BackupJobStatus.restorable : BackupJobStatus → Bool
  | .completed => true
  | .partially => true
  | _ => false

def BackupComponentName.text : BackupComponentName → String
  | .files => "files"
  | .mailboxes => "mailboxes"
  | .config => "config"
  | .secrets => "secrets"

structure Tenant where
  id : String
  status : TenantStatus
  deriving DecidableEq

structure BackupJob where
  id : String
  tenantId : String
  initiator : BackupInitiator
  systemTrigger : Option BackupSystemTrigger
  status : BackupJobStatus
  targetConfigId : Option String
  repoLayout : Option String
  retentionDays : ℤ
  expiresAt : Option ℤ
  startedAt : Option ℤ
  createdAt : ℤ
  deriving DecidableEq

structure BackupComponent where
  id : String
  backupJobId : String
  component : BackupComponentName
  status : BackupComponentStatus
  /-- For a component kept in restic, the id of its snapshot. -/
  sha256 : Option String
  snapshotReclaimedAt : Option ℤ
  deriving DecidableEq

structure BackupConfiguration where
  id : String
  readOnly : Bool
  deriving DecidableEq

def timestamp (date : ℤ) : ℤ := date * 1000

inductive BoundTenantTarget
  | known (id : Option String)
  | unresolved
  | switching
  deriving DecidableEq

def onBound (boundId : Option String) (job : BackupJob) : Bool :=
  job.targetConfigId = none || (truthy boundId && job.targetConfigId = boundId)

structure DatabaseCollation where
  lt : String → String → Bool
  irrefl : ∀ s, lt s s = false
  trans : ∀ s t u, lt s t = true → lt t u = true → lt s u = true
  total : ∀ s t, lt s t = true ∨ s = t ∨ lt t s = true

/-- The order of the code points, as under the collation `C`. -/
def DatabaseCollation.codePoint : DatabaseCollation where
  lt s t := decide (s < t)
  irrefl s := by simp
  trans s t u hst htu := by
    simp only [decide_eq_true_eq] at *
    exact lt_trans hst htu
  total s t := by
    simp only [decide_eq_true_eq]
    exact lt_trichotomy s t

/-- The rows that several modules read, with the primary keys that the schema declares. -/
structure Catalogue where
  collation : DatabaseCollation
  tenants : List Tenant
  backupJobs : List BackupJob
  backupComponents : List BackupComponent
  backupConfigurations : List BackupConfiguration
  jobKeys : (backupJobs.map BackupJob.id).Nodup
  componentKeys : (backupComponents.map BackupComponent.id).Nodup

namespace Catalogue

variable (db : Catalogue)

def updateJobs (f : BackupJob → BackupJob) (hf : ∀ job, (f job).id = job.id) : Catalogue :=
  { db with
    backupJobs := db.backupJobs.map f
    jobKeys := by
      have hkeys : (db.backupJobs.map f).map BackupJob.id = db.backupJobs.map BackupJob.id := by
        rw [List.map_map]
        exact List.map_congr_left fun job _ => hf job
      rw [hkeys]
      exact db.jobKeys }

def updateComponents (f : BackupComponent → BackupComponent) (hf : ∀ row, (f row).id = row.id) :
    Catalogue :=
  { db with
    backupComponents := db.backupComponents.map f
    componentKeys := by
      have hkeys : (db.backupComponents.map f).map BackupComponent.id =
          db.backupComponents.map BackupComponent.id := by
        rw [List.map_map]
        exact List.map_congr_left fun row _ => hf row
      rw [hkeys]
      exact db.componentKeys }

def Newer (n a : BackupJob) : Prop :=
  a.createdAt < n.createdAt ∨ (a.createdAt = n.createdAt ∧ db.collation.lt a.id n.id = true)

instance (n a : BackupJob) : Decidable (db.Newer n a) := by
  unfold Newer
  infer_instance

/-- When a bundle stays a restore point past its `expires_at`. -/
def HeldPastExpiry (a : BackupJob) : Prop :=
  (∃ t ∈ db.tenants, t.id = a.tenantId ∧ t.status = .suspended) ∨
  (a.status.restorable = true ∧
    (∃ t ∈ db.tenants, t.id = a.tenantId ∧ (t.status = .active ∨ t.status = .pending)) ∧
    ((¬ ∃ n ∈ db.backupJobs,
        n.tenantId = a.tenantId ∧ n.status.restorable = true ∧ db.Newer n a) ∨
      -- The bundle with the newest completed copy of a component is held for that component alone;
      -- a newer copy that was skipped does not replace it.
      ∃ c ∈ db.backupComponents, c.backupJobId = a.id ∧ c.status = .completed ∧
        ¬ ∃ m ∈ db.backupJobs, ∃ mc ∈ db.backupComponents, mc.backupJobId = m.id ∧
          m.tenantId = a.tenantId ∧ m.status.restorable = true ∧ db.Newer m a ∧
          mc.component = c.component ∧ mc.status = .completed))

instance (a : BackupJob) : Decidable (db.HeldPastExpiry a) := by
  unfold HeldPastExpiry
  infer_instance

/-- A restore point: completed or partial, and either unexpired or held. -/
def BundleIsLive (now : ℤ) (a : BackupJob) : Prop :=
  a.status.restorable = true ∧
    (a.expiresAt = none ∨ (∃ e, a.expiresAt = some e ∧ now < e) ∨ db.HeldPastExpiry a)

instance (now : ℤ) (a : BackupJob) : Decidable (db.BundleIsLive now a) := by
  unfold BundleIsLive
  infer_instance

end Catalogue

end Insula.TenantBundles
