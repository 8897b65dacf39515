import Insula.BackupBundles
import Mathlib.Data.List.Dedup

/-!
# The restic reconciler: which snapshots a sweep forgets

`restic-retention.ts` asks which snapshots a repository holds and which of them the database still
vouches for, and forgets the difference. Below are the decision for one repository, the layouts a
tenant has repositories in (`repo-layout.ts`), and the forget pass of `runResticRetentionSweep` with
the calls of `runResticForget` it makes. What the pass finds outside of the database is a parameter:
the clock, the shim, and what every repository answers when it is looked into.
-/

namespace Insula.TenantBundles

open Javascript

inductive ResticRepoLayout
  | perComponent
  | perTenant
  deriving DecidableEq

def defaultRepoLayout : ResticRepoLayout := .perComponent

def normaliseRepoLayout (value : Option String) : ResticRepoLayout :=
  if value = some "per-tenant" then .perTenant else defaultRepoLayout

def allRepoLayouts : List ResticRepoLayout := [.perComponent, .perTenant]

structure Snapshot where
  id : String
  shortId : String
  time : String
  tags : List String
  deriving DecidableEq

structure Repository where
  snapshots : List Snapshot
  distinct : (snapshots.map Snapshot.id).Nodup
  named : ∀ s ∈ snapshots, s.id ≠ ""

def bundleIdFromTags (tags : List String) : Option String :=
  (tags.find? fun t => startsWith t "bundle-id=").map fun t => slice t (length "bundle-id=")

def isKept (snap : Snapshot) (keepSnapshotIds keepBundleIds : List String) : Bool :=
  decide (snap.id ∈ keepSnapshotIds) ||
  (snap.shortId != "" && decide (snap.shortId ∈ keepSnapshotIds)) ||
  keepSnapshotIds.any (fun k =>
    decide (8 ≤ length k) && (startsWith snap.id k || startsWith k snap.id)) ||
  (bundleIdFromTags snap.tags).any fun bid => bid != "" && decide (bid ∈ keepBundleIds)

inductive RepoSkipReason
  | noDbHistory
  | nothingToForget
  deriving DecidableEq

structure RepoReclamationPlan where
  keep : List String
  forget : List String
  skip : Option RepoSkipReason

structure PlanRepoReclamationArgs where
  snapshots : List Snapshot
  keepSnapshotIds : List String
  keepBundleIds : List String
  /-- Does the database hold any bundle row for this tenant and component? -/
  hasHistory : Bool
  minAgeCutoff : ℤ
  /-- Operator override for a repository without history. -/
  force : Bool

/-- Too young to judge, or of an age that cannot be read. `dateParse` is `Date.parse`, with `none`
for a text that is no date. -/
def tooYoung (dateParse : String → Option ℤ) (minAgeCutoff : ℤ) (s : Snapshot) : Bool :=
  match dateParse s.time with
  | none => true
  | some t => decide (minAgeCutoff < t)

def planRepoReclamation (dateParse : String → Option ℤ) (args : PlanRepoReclamationArgs) :
    RepoReclamationPlan :=
  if !args.hasHistory && !args.snapshots.isEmpty && !args.force then
    { keep := args.snapshots.map Snapshot.id, forget := [], skip := some .noDbHistory }
  else
    let kept := fun s => isKept s args.keepSnapshotIds args.keepBundleIds ||
      tooYoung dateParse args.minAgeCutoff s
    let forget := (args.snapshots.filter fun s => !kept s).map Snapshot.id
    { keep := (args.snapshots.filter kept).map Snapshot.id
      forget := forget
      skip := if forget.isEmpty then some .nothingToForget else none }

structure TenantResticRepoState where
  tenantId : String
  component : String
  repoUri : String
  deriving DecidableEq

structure ResticRepoReclaimState where
  tenantId : String
  component : String
  lastSweepAt : Option ℤ
  prunePending : Bool
  deriving DecidableEq

structure TenantBackupV2Settings where
  forgetEnabled : Bool
  forgetMinAgeHours : ℤ
  deriving DecidableEq

structure ResticDatabase extends Catalogue where
  tenantResticRepoState : List TenantResticRepoState
  resticRepoReclaimState : List ResticRepoReclaimState
  tenantBackupV2Settings : Option TenantBackupV2Settings

def layoutFromRepoUri (repoUri tenantId : String) : ResticRepoLayout :=
  if repoUri = "" then defaultRepoLayout
  else if includes repoUri ("/restic/" ++ tenantId) then .perTenant else defaultRepoLayout

namespace ResticDatabase

variable (db : ResticDatabase)

def joined : List (BackupJob × BackupComponent) :=
  db.backupJobs.flatMap fun bj =>
    (db.backupComponents.filter fun bc => bc.backupJobId = bj.id).map fun bc => (bj, bc)

def bundleLayouts (tenantId component : String) : List ResticRepoLayout :=
  ((db.joined.filter fun (bj, bc) =>
    bj.tenantId = tenantId ∧ bc.component.text = component ∧ bc.sha256 ≠ none ∧
      (bj.status.restorable = true ∨ bc.snapshotReclaimedAt = none)).map fun (bj, _) =>
    normaliseRepoLayout (some (bj.repoLayout.getD "per-component"))).dedup

def layoutsHoldingSnapshots (tenantId component : String) : List ResticRepoLayout :=
  let layouts := db.bundleLayouts tenantId component
  if layouts ≠ [] then layouts
  else
    match db.tenantResticRepoState.find? fun s => s.tenantId = tenantId ∧ s.component = component with
    | some state => [layoutFromRepoUri state.repoUri tenantId]
    | none => allRepoLayouts

def keepRows (tenantId component : String) (layout : ResticRepoLayout) (now : ℤ) :
    List (Option String × String) :=
  (db.joined.filter fun (bj, bc) =>
    bj.tenantId = tenantId ∧ (layout = .perTenant ∨ bc.component.text = component) ∧
      db.BundleIsLive (timestamp now) bj).map fun (bj, bc) => (bc.sha256, bj.id)

def keepSnapshotIds (tenantId component : String) (layout : ResticRepoLayout) (now : ℤ) :
    List String :=
  (db.keepRows tenantId component layout now).filterMap fun r => r.1.filter (· ≠ "")

def keepBundleIds (tenantId component : String) (layout : ResticRepoLayout) (now : ℤ) :
    List String :=
  (db.keepRows tenantId component layout now).map Prod.snd

def hasHistory (tenantId component : String) : Bool :=
  db.joined.any fun (bj, bc) => bj.tenantId = tenantId ∧ bc.component.text = component

def frozenTargets : List String :=
  (db.backupConfigurations.filter fun t => t.readOnly).map BackupConfiguration.id

def onFrozenTargets (tenantId : String) : Bool :=
  let targets := (db.backupJobs.filter fun bj => bj.tenantId = tenantId).filterMap
    BackupJob.targetConfigId
  !db.frozenTargets.isEmpty && !targets.isEmpty &&
    targets.all fun t => decide (t ∈ db.frozenTargets)

def upsertReclaimState (tenantId component : String)
    (set : ResticRepoReclaimState → ResticRepoReclaimState) : ResticDatabase :=
  if db.resticRepoReclaimState.any fun r => r.tenantId = tenantId ∧ r.component = component then
    { db with
      resticRepoReclaimState := db.resticRepoReclaimState.map fun r =>
        if r.tenantId = tenantId ∧ r.component = component then set r else r }
  else
    { db with
      resticRepoReclaimState := db.resticRepoReclaimState ++
        [set { tenantId, component, lastSweepAt := none, prunePending := false }] }

def recordSweepExamination (tenantId component : String) (sweptAt : ℤ) : ResticDatabase :=
  db.upsertReclaimState tenantId component fun r => { r with lastSweepAt := some (timestamp sweptAt) }

def recordForget (tenantId component : String) : ResticDatabase :=
  db.upsertReclaimState tenantId component fun r => { r with prunePending := true }

def goneComponents (tenantId component : String) (layout : ResticRepoLayout)
    (boundId : Option String) (stillPresent : List String) : List String :=
  (db.joined.filter fun (bj, bc) =>
    bj.tenantId = tenantId ∧ bc.component.text = component ∧
      normaliseRepoLayout bj.repoLayout = layout ∧ onBound boundId bj = true ∧
      bc.snapshotReclaimedAt = none ∧
      ∃ sha, bc.sha256 = some sha ∧ sha ∉ stillPresent).map fun (_, bc) => bc.id

def stampReclaimedComponents (tenantId component : String) (layout : ResticRepoLayout)
    (bound : BoundTenantTarget) (stillPresent : List String) (stampedAt : ℤ) : ResticDatabase :=
  match bound with
  | .known boundId =>
    let gone := db.goneComponents tenantId component layout boundId stillPresent
    { db with
      toCatalogue := db.toCatalogue.updateComponents
        (fun bc => if bc.id ∈ gone then
          { bc with snapshotReclaimedAt := some (timestamp stampedAt) } else bc)
        (by intro bc; split <;> rfl) }
  | _ => db

def dropSpentReclaimState (tenantId component : String) : ResticDatabase :=
  { db with
    resticRepoReclaimState := db.resticRepoReclaimState.filter fun r =>
      ¬ (r.tenantId = tenantId ∧ r.component = component ∧ r.prunePending = false ∧
        (∀ t ∈ db.tenants, t.id ≠ r.tenantId) ∧
        ∀ p ∈ db.joined, ¬ (p.1.tenantId = r.tenantId ∧ p.2.component.text = r.component ∧
          p.2.sha256 ≠ none)) }

end ResticDatabase

structure ResticRetentionArgs where
  dryRun : Bool
  tenantId : Option String
  force : Bool
  maxRepos : Option ℕ
  deriving DecidableEq

structure RepoRow where
  tenantId : String
  component : String
  deriving DecidableEq

def defaultMaxRepos : ℕ := 25

def resticComponents : List String := ["files", "mailboxes"]

namespace ResticDatabase

variable (db : ResticDatabase)

def snapshotPairs : List RepoRow :=
  (db.joined.filter fun (_, bc) =>
    (bc.component = .files ∨ bc.component = .mailboxes) ∧ bc.sha256 ≠ none).map fun (bj, bc) =>
    { tenantId := bj.tenantId, component := bc.component.text }

def repoPairs : List RepoRow :=
  (db.snapshotPairs ++ db.resticRepoReclaimState.map fun r =>
    RepoRow.mk r.tenantId r.component).dedup

def lastSweepAt (row : RepoRow) : Option ℤ :=
  (db.resticRepoReclaimState.find? fun r =>
    r.tenantId = row.tenantId ∧ r.component = row.component).bind ResticRepoReclaimState.lastSweepAt

/-- Not after, in ascending order with NULL first. -/
def SweptFirst (a b : RepoRow) : Prop :=
  match db.lastSweepAt a, db.lastSweepAt b with
  | none, _ => True
  | some _, none => False
  | some x, some y => x ≤ y

/-- An answer to the query for the repositories to visit. Rows that were examined at the same
instant, or never, come in any order. -/
structure StateRows (args : ResticRetentionArgs) where
  arrangement : List RepoRow
  perm : arrangement.Perm (db.repoPairs.filter fun p =>
    truthy args.tenantId = false ∨ args.tenantId = some p.tenantId)
  ordered : arrangement.Pairwise db.SweptFirst

def StateRows.rows {db : ResticDatabase} {args : ResticRetentionArgs} (q : db.StateRows args) :
    List RepoRow :=
  q.arrangement.take (args.maxRepos.getD defaultMaxRepos)

end ResticDatabase

structure ShimTarget where
  endpoint : String
  bucket : String
  deriving DecidableEq

def isClientIdChar (c : Char) : Bool := c.isAlphanum || c == '_' || c == '-'

def clientIdOk (tenantId : String) : Bool :=
  match tenantId.toList with
  | [] => false
  | c :: cs => c.isAlphanum && cs.all isClientIdChar && decide (cs.length ≤ 63)

def repoPathSegments (tenantId component : String) (layout : ResticRepoLayout) : String :=
  match layout with
  | .perTenant => "restic/" ++ tenantId
  | .perComponent => "restic-" ++ component ++ "/" ++ tenantId

def buildResticRepoUri (target : ShimTarget) (tenantId component : String)
    (layout : ResticRepoLayout) : Option String :=
  if component ∈ resticComponents ∧ clientIdOk tenantId = true then
    some ("s3:" ++ stripTrailingSlash target.endpoint ++ "/" ++ target.bucket ++ "/" ++
      repoPathSegments tenantId component layout)
  else none

/-- What `restic snapshots` answers. -/
inductive Listing
  | missing
  | failed
  | holds (repository : Repository)

structure Look where
  /-- The clock when the live bundles are asked for. -/
  now : ℤ
  listing : Listing
  /-- Does `runResticForget` return? -/
  forgets : Bool
  /-- The clock when the outcome is written down. -/
  recordedAt : ℤ

structure Surroundings where
  dateParse : String → Option ℤ
  envDisabled : Bool
  target : Option ShimTarget
  bound : BoundTenantTarget
  /-- The clock when the minimum age is reckoned. -/
  now : ℤ
  look : RepoRow → ResticRepoLayout → Look
  /-- The clock when a repository is passed over. -/
  notedAt : RepoRow → ℤ

/-- A call of `runResticForget`, with the row and the layout it was made for. -/
structure ForgetCall where
  row : RepoRow
  layout : ResticRepoLayout
  repoUri : String
  snapshotIds : List String
  deriving DecidableEq

inductive RepoSeen
  | missing
  | empty
  | holdsSnapshots
  | notLookedAt
  deriving DecidableEq

def nothingLeftToReclaim (seen : List RepoSeen) : Bool :=
  !seen.isEmpty && seen.all fun s => s = .missing || s = .empty

section Sweep

variable (out : Surroundings) (args : ResticRetentionArgs)

def note (db : ResticDatabase) (row : RepoRow) (sweptAt : ℤ) : ResticDatabase :=
  if args.dryRun then db else db.recordSweepExamination row.tenantId row.component sweptAt

def repoPlan (minAgeCutoff : ℤ) (db : ResticDatabase) (row : RepoRow) (layout : ResticRepoLayout)
    (repository : Repository) : RepoReclamationPlan :=
  planRepoReclamation out.dateParse
    { snapshots := repository.snapshots
      keepSnapshotIds := db.keepSnapshotIds row.tenantId row.component layout (out.look row layout).now
      keepBundleIds := db.keepBundleIds row.tenantId row.component layout (out.look row layout).now
      hasHistory := db.hasHistory row.tenantId row.component
      minAgeCutoff := minAgeCutoff
      force := args.force }

def sweepLayout (minAgeCutoff : ℤ) (db : ResticDatabase) (row : RepoRow)
    (layout : ResticRepoLayout) (repoUri : String) :
    ResticDatabase × List ForgetCall × RepoSeen :=
  let look := out.look row layout
  match look.listing with
  | .failed => (note args db row look.recordedAt, [], .notLookedAt)
  | .missing => (note args db row look.recordedAt, [], .missing)
  | .holds repository =>
    let saw := if repository.snapshots.isEmpty then RepoSeen.empty else .holdsSnapshots
    let plan := repoPlan out args minAgeCutoff db row layout repository
    let stamp := fun db : ResticDatabase =>
      if args.dryRun then db
      else db.stampReclaimedComponents row.tenantId row.component layout out.bound plan.keep
        look.recordedAt
    if plan.skip = some .noDbHistory then (note args db row look.recordedAt, [], saw)
    else if plan.forget.isEmpty then (note args (stamp db) row look.recordedAt, [], saw)
    else if args.dryRun then (db, [], saw)
    else
      let call := { row, layout, repoUri, snapshotIds := plan.forget }
      -- A forget that throws is noted as an error; nothing is known of what it did.
      if look.forgets then
        (note args (stamp (db.recordForget row.tenantId row.component)) row look.recordedAt,
          [call], saw)
      else (note args db row look.recordedAt, [call], saw)

def sweepLayouts (minAgeCutoff : ℤ) (target : ShimTarget) (row : RepoRow) :
    ResticDatabase → List ResticRepoLayout → Option (ResticDatabase × List ForgetCall × List RepoSeen)
  | db, [] => some (db, [], [])
  | db, layout :: layouts =>
    (buildResticRepoUri target row.tenantId row.component layout).bind fun repoUri =>
      let here := sweepLayout out args minAgeCutoff db row layout repoUri
      (sweepLayouts minAgeCutoff target row here.1 layouts).map fun there =>
        (there.1, here.2.1 ++ there.2.1, here.2.2 :: there.2.2)

/-- One tenant and component; `none` where `buildResticRepoUri` throws, which nothing catches. -/
def sweepRow (minAgeCutoff : ℤ) (target : ShimTarget) (db : ResticDatabase) (row : RepoRow) :
    Option (ResticDatabase × List ForgetCall) :=
  if row.component ∉ resticComponents then some (note args db row (out.notedAt row), [])
  else if db.onFrozenTargets row.tenantId then some (note args db row (out.notedAt row), [])
  else
    (sweepLayouts out args minAgeCutoff target row db
      (db.layoutsHoldingSnapshots row.tenantId row.component)).map fun swept =>
      if args.dryRun = false ∧ nothingLeftToReclaim swept.2.2 = true then
        (swept.1.dropSpentReclaimState row.tenantId row.component, swept.2.1)
      else (swept.1, swept.2.1)

def sweepRows (minAgeCutoff : ℤ) (target : ShimTarget) :
    ResticDatabase → List RepoRow → ResticDatabase × List ForgetCall
  | db, [] => (db, [])
  | db, row :: rows =>
    match sweepRow out args minAgeCutoff target db row with
    | none => (db, [])
    | some (db', calls) =>
      let rest := sweepRows minAgeCutoff target db' rows
      (rest.1, calls ++ rest.2)

def forgetDisabled (db : ResticDatabase) : Bool :=
  out.envDisabled ||
    (!(db.tenantBackupV2Settings.elim true TenantBackupV2Settings.forgetEnabled) && !args.force)

def minAgeHours (db : ResticDatabase) : ℤ :=
  db.tenantBackupV2Settings.elim 48 TenantBackupV2Settings.forgetMinAgeHours

def minAgeCutoff (db : ResticDatabase) : ℤ := out.now - minAgeHours db * 60 * 60 * 1000

/-- The calls of `runResticForget` that a sweep makes, and the tables after its forget pass. -/
def runResticRetentionSweep (db : ResticDatabase) (stateRows : db.StateRows args) :
    ResticDatabase × List ForgetCall :=
  if forgetDisabled out args db || stateRows.rows.isEmpty then (db, [])
  else
    match out.target with
    | none => (db, [])
    | some target =>
      if out.bound = .switching then (db, [])
      else sweepRows out args (minAgeCutoff out db) target db stateRows.rows

end Sweep

end Insula.TenantBundles
