import Insula.ResticForgets
import Insula.Lookup
import Insula.Transition

/-!
# The reconciling sweep beside captures

A capture inserts a row of `backup_components`, writes a snapshot into a repository, and records the
id of the snapshot on its row. The sweep asks the database what it vouches for, lists the
repository, forgets, reads the rows that name a snapshot, and stamps those whose snapshot its
listing does not keep. Every statement and every call of restic is one event below, so that captures
come in between at any place. Restic names a snapshot by the hash of its contents: no id is given
twice.
-/

namespace Insula.TenantBundles

/-- `restic/<tenant>` or `restic-<component>/<tenant>` on the bound target. -/
inductive RepositoryName
  | ofTenant (tenantId : String)
  | ofComponent (component tenantId : String)
  deriving DecidableEq

def repositoryName (tenantId component : String) : ResticRepoLayout → RepositoryName
  | .perTenant => .ofTenant tenantId
  | .perComponent => .ofComponent component tenantId

def repositoryOf (bj : BackupJob) (bc : BackupComponent) : RepositoryName :=
  repositoryName bj.tenantId bc.component.text (normaliseRepoLayout bj.repoLayout)

def Catalogue.insertComponent (db : Catalogue) (row : BackupComponent)
    (fresh : row.id ∉ db.backupComponents.map BackupComponent.id) : Catalogue :=
  { db with
    backupComponents := db.backupComponents ++ [row]
    componentKeys := by
      rw [List.map_append]
      apply List.Nodup.append db.componentKeys (by simp)
      intro id hid hrow
      rw [List.map_singleton, List.mem_singleton] at hrow
      exact fresh (hrow ▸ hid) }

/-- `DELETE FROM backup_jobs`, which takes the rows of `backup_components` along. -/
def Catalogue.deleteJobs (db : Catalogue) (ids : List String) : Catalogue :=
  { db with
    backupJobs := db.backupJobs.filter fun bj => bj.id ∉ ids
    backupComponents := db.backupComponents.filter fun bc => bc.backupJobId ∉ ids
    jobKeys := db.jobKeys.sublist (List.filter_sublist.map _)
    componentKeys := db.componentKeys.sublist (List.filter_sublist.map _) }

/-- The bundles that `purgeFullyReclaimedBundles` selects, its limit apart: expired, and no restic
component awaits reclamation. -/
def ResticDatabase.purgeable (db : ResticDatabase) : List BackupJob :=
  db.backupJobs.filter fun bj => bj.status = .expired ∧
    ∀ bc ∈ db.backupComponents, bc.backupJobId = bj.id →
      (bc.component = .files ∨ bc.component = .mailboxes) →
      bc.sha256 ≠ none → bc.snapshotReclaimedAt ≠ none

namespace Reclaiming

inductive CapturePhase
  | capturing
  | recording
  | ended
  deriving DecidableEq

/-- One branch of `runBundle` that captures into restic. -/
structure Capture where
  rowId : String
  bundleId : String
  tenantId : String
  component : BackupComponentName
  layout : ResticRepoLayout
  phase : CapturePhase
  /-- The snapshots it wrote. -/
  written : List String
  deriving DecidableEq

def Capture.repository (c : Capture) : RepositoryName :=
  repositoryName c.tenantId c.component.text c.layout

structure Visit where
  row : RepoRow
  layout : ResticRepoLayout
  deriving DecidableEq

def Visit.repository (v : Visit) : RepositoryName :=
  repositoryName v.row.tenantId v.row.component v.layout

section Visit

variable (v : Visit) (db : ResticDatabase)

def Visit.keepSnapshotIds (now : ℤ) : List String :=
  db.keepSnapshotIds v.row.tenantId v.row.component v.layout now

def Visit.keepBundleIds (now : ℤ) : List String :=
  db.keepBundleIds v.row.tenantId v.row.component v.layout now

def Visit.hasHistory : Bool := db.hasHistory v.row.tenantId v.row.component

end Visit

inductive SweepPhase
  | between
  | asked (visit : Visit) (keepSnapshotIds keepBundleIds : List String)
  | remembered (visit : Visit) (keepSnapshotIds keepBundleIds : List String) (hasHistory : Bool)
  | planned (visit : Visit) (snapshots : List Snapshot) (plan : RepoReclamationPlan)
  | reconciling (visit : Visit) (snapshots : List Snapshot) (stillPresent : List String)
  | judged (gone : List String)
  | purging (ids : List String)

def SweepPhase.listing : SweepPhase → Option (Visit × List Snapshot)
  | .planned visit snapshots _ => some (visit, snapshots)
  | .reconciling visit snapshots _ => some (visit, snapshots)
  | _ => none

structure State where
  db : ResticDatabase
  held : List (RepositoryName × Snapshot)
  /-- Every id that restic has ever given. -/
  issued : List String
  sweep : SweepPhase
  captures : List Capture

namespace State

variable (s : State)

def snapshotsIn (name : RepositoryName) : List Snapshot :=
  (s.held.filter fun p => p.1 = name).map Prod.snd

def Holds (name : RepositoryName) (id : String) : Prop := ∃ p ∈ s.held, p.1 = name ∧ p.2.id = id

instance (name : RepositoryName) (id : String) : Decidable (s.Holds name id) := by
  unfold Holds
  infer_instance

def drop (name : RepositoryName) (ids : List String) : State :=
  { s with held := s.held.filter fun p => ¬ (p.1 = name ∧ p.2.id ∈ ids) }

def updateRow (rowId : String) (f : BackupComponent → BackupComponent)
    (hf : ∀ bc, (f bc).id = bc.id) : State :=
  { s with
    db :=
      { s.db with
        toCatalogue := s.db.toCatalogue.updateComponents
          (fun bc => if bc.id = rowId then f bc else bc)
          (by
            intro bc
            split
            · exact hf bc
            · rfl) } }

/-- The row is inserted unless its bundle is gone. Its key is a new `randomUUID`. -/
def insertRow (row : BackupComponent) : Option State :=
  if fresh : row.id ∉ s.db.backupComponents.map BackupComponent.id then
    if row.id ∉ s.captures.map Capture.rowId ∧
        ∃ bj ∈ s.db.backupJobs, bj.id = row.backupJobId then
      some
        { s with
          db := { s.db with toCatalogue := s.db.toCatalogue.insertComponent row fresh } }
    else none
  else none

end State

inductive Event
  -- The sweep.
  | ask (visit : Visit) (now : ℤ)
  | remember
  | list
  | forget
  | forgetFails (removed : List String)
  | judge
  | stamp (now : ℤ)
  | abandon
  -- The two statements of `purgeFullyReclaimedBundles`.
  | selectPurgeable (ids : List String)
  | deleteSelected
  -- The captures, by number.
  | begin (bundleId rowId : String) (component : BackupComponentName)
  | write (i : ℕ) (snapshot : Snapshot)
  | record (i : ℕ) (snapshotId : Option String)
  | recordMore (i : ℕ) (rowId snapshotId : String)
  | fail (i : ℕ)
  -- What becomes of a bundle.
  | settle (bundleId : String) (status : BackupJobStatus)

structure Setting where
  dateParse : String → Option ℤ
  bound : BoundTenantTarget
  minAgeCutoff : ℤ
  force : Bool

def runningRow (rowId bundleId : String) (component : BackupComponentName) : BackupComponent :=
  { id := rowId
    backupJobId := bundleId
    component := component
    status := .running
    sha256 := none
    snapshotReclaimedAt := none }

def mailboxRow (c : Capture) (rowId snapshotId : String) : BackupComponent :=
  { id := rowId
    backupJobId := c.bundleId
    component := c.component
    status := .completed
    sha256 := some snapshotId
    snapshotReclaimedAt := none }

section Step

variable (setting : Setting)

def planFor (s : State) (visit : Visit) (keepSnapshotIds keepBundleIds : List String)
    (hasHistory : Bool) : RepoReclamationPlan :=
  planRepoReclamation setting.dateParse
    { snapshots := s.snapshotsIn visit.repository
      keepSnapshotIds := keepSnapshotIds
      keepBundleIds := keepBundleIds
      hasHistory := hasHistory
      minAgeCutoff := setting.minAgeCutoff
      force := setting.force }

def phaseOfPlan (visit : Visit) (snapshots : List Snapshot) (plan : RepoReclamationPlan) :
    SweepPhase :=
  if plan.skip = some .noDbHistory then .between
  else if plan.forget.isEmpty then .reconciling visit snapshots plan.keep
  else .planned visit snapshots plan

def sweepStep (s : State) : Event → Option State
  | .ask visit now =>
    match s.sweep with
    | .between =>
      some
        { s with
          sweep := .asked visit (visit.keepSnapshotIds s.db now) (visit.keepBundleIds s.db now) }
    | _ => none
  | .remember =>
    match s.sweep with
    | .asked visit keepSnapshotIds keepBundleIds =>
      some
        { s with
          sweep := .remembered visit keepSnapshotIds keepBundleIds (visit.hasHistory s.db) }
    | _ => none
  | .list =>
    match s.sweep with
    | .remembered visit keepSnapshotIds keepBundleIds hasHistory =>
      some
        { s with
          sweep := phaseOfPlan visit (s.snapshotsIn visit.repository)
            (planFor setting s visit keepSnapshotIds keepBundleIds hasHistory) }
    | _ => none
  | .forget =>
    match s.sweep with
    | .planned visit snapshots plan =>
      some
        { s.drop visit.repository plan.forget with
          db := s.db.recordForget visit.row.tenantId visit.row.component
          sweep := .reconciling visit snapshots plan.keep }
    | _ => none
  | .forgetFails removed =>
    match s.sweep with
    | .planned visit _ plan =>
      some
        { s.drop visit.repository (plan.forget.filter (· ∈ removed)) with sweep := .between }
    | _ => none
  | .judge =>
    match s.sweep with
    | .reconciling visit _ stillPresent =>
      match setting.bound with
      | .known boundId =>
        some
          { s with
            sweep := .judged (s.db.goneComponents visit.row.tenantId visit.row.component
              visit.layout boundId stillPresent) }
      | _ => some { s with sweep := .between }
    | _ => none
  | .stamp now =>
    match s.sweep with
    | .judged gone =>
      some
        { s with
          db := stampComponents s.db gone now
          sweep := .between }
    | _ => none
  -- An error that the sweep catches, or the end of its process.
  | .abandon => some { s with sweep := .between }
  | .selectPurgeable ids =>
    match s.sweep with
    | .between =>
      if ∀ id ∈ ids, ∃ bj ∈ s.db.purgeable, bj.id = id then some { s with sweep := .purging ids }
      else none
    | _ => none
  | .deleteSelected =>
    match s.sweep with
    | .purging ids =>
      some
        { s with
          db := { s.db with toCatalogue := s.db.toCatalogue.deleteJobs ids }
          sweep := .between }
    | _ => none
  | _ => none

def captureStep (s : State) : Event → Option State
  | .begin bundleId rowId component =>
    (s.db.backupJobs.find? fun bj => bj.id = bundleId).bind fun bj =>
      (s.insertRow (runningRow rowId bundleId component)).map fun s' =>
        { s' with
          captures := s.captures ++
            [{ rowId := rowId
               bundleId := bundleId
               tenantId := bj.tenantId
               component := component
               layout := normaliseRepoLayout bj.repoLayout
               phase := .capturing
               written := [] }] }
  | .write i snapshot =>
    match s.captures[i]? with
    | some c =>
      if c.phase = .capturing ∧ snapshot.id ∉ s.issued then
        some
          { s with
            held := s.held ++ [(c.repository, snapshot)]
            issued := s.issued ++ [snapshot.id]
            captures := s.captures.set i { c with written := c.written ++ [snapshot.id] } }
      else none
    | none => none
  -- `markComponentDone`, and the first row of `recordPerMailboxComponentRows`.
  | .record i snapshotId =>
    match s.captures[i]? with
    | some c =>
      if c.phase = .capturing ∧ ∀ id ∈ snapshotId, id ∈ c.written then
        some
          { s.updateRow c.rowId
              (fun bc => { bc with status := .completed, sha256 := snapshotId })
              (fun _ => rfl) with
            captures := s.captures.set i { c with phase := .recording } }
      else none
    | none => none
  | .recordMore i rowId snapshotId =>
    match s.captures[i]? with
    | some c =>
      if c.phase = .recording ∧ snapshotId ∈ c.written then
        s.insertRow (mailboxRow c rowId snapshotId)
      else none
    | none => none
  -- `markComponentRowFailed`.
  | .fail i =>
    match s.captures[i]? with
    | some c =>
      some
        { s.updateRow c.rowId (fun bc => { bc with status := .failed }) (fun _ => rfl) with
          captures := s.captures.set i { c with phase := .ended } }
    | none => none
  | .settle bundleId status =>
    some
      { s with
        db :=
          { s.db with
            toCatalogue := s.db.toCatalogue.updateJobs
              (fun bj => if bj.id = bundleId then { bj with status := status } else bj)
              (by intro bj; split <;> rfl) } }
  | _ => none

def step (s : State) (e : Event) : Option State :=
  (sweepStep setting s e).or (captureStep s e)

end Step

end Reclaiming

end Insula.TenantBundles
