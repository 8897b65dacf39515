import Insula.ResticForgets

/-!
# No live backup is forgotten

What a sweep should never do is pass the snapshot of a live bundle to `runResticForget`, or one that
is not older than the minimum age. Two things let it: a snapshot exactly as old as the minimum age
counts as old enough, and the bundle tag of a snapshot is looked up among the bundles with a
component row of the repository, so that a live bundle without such a row is not found by its tag.
The sweep is right exactly when no snapshot of a repository it visits is in either position without
being vouched for otherwise.
-/

namespace Insula.TenantBundles

section Statement

variable (out : Surroundings) (args : ResticRetentionArgs) (db : ResticDatabase)

/-- The snapshot of a component is in the repository of its bundle's layout: that of the tenant, or
that of the tenant and the component. -/
def StoredIn (row : RepoRow) (layout : ResticRepoLayout) (bj : BackupJob) (bc : BackupComponent) :
    Prop :=
  normaliseRepoLayout bj.repoLayout = layout ∧
    (layout = .perComponent → bc.component.text = row.component)

def bundleTag (bundleId : String) : String := "bundle-id=" ++ bundleId

def OfNoLiveBundle (row : RepoRow) (layout : ResticRepoLayout) (now : ℤ) (s : Snapshot) : Prop :=
  ∀ bj ∈ db.backupJobs, bj.tenantId = row.tenantId → db.BundleIsLive (timestamp now) bj →
    (∀ bc ∈ db.backupComponents, bc.backupJobId = bj.id → StoredIn row layout bj bc →
      bc.sha256 ≠ some s.id) ∧
    bundleTag bj.id ∉ s.tags

def OlderThanMinAge (s : Snapshot) : Prop :=
  ∃ t, out.dateParse s.time = some t ∧ t < minAgeCutoff out db

/-- A call that forgets nothing it should not: every id in it is of a snapshot of the repository
that is older than the minimum age and of no live bundle, and the repository has a history or the
operator forced the sweep. -/
def ForgetsOnlyDead (call : ForgetCall) : Prop :=
  (args.force = true ∨ db.hasHistory call.row.tenantId call.row.component = true) ∧
    ∀ id ∈ call.snapshotIds, ∃ repository,
      (out.look call.row call.layout).listing = .holds repository ∧
      ∃ s ∈ repository.snapshots, s.id = id ∧ OlderThanMinAge out db s ∧
        OfNoLiveBundle db call.row call.layout (out.look call.row call.layout).now s

/-- The sweep gets to its forget pass and may write. -/
def SweepRuns : Prop :=
  forgetDisabled out args db = false ∧ out.target ≠ none ∧ out.bound ≠ .switching ∧
    args.dryRun = false

/-- The rows whose repositories the sweep looks into. -/
def Visited (rows : List RepoRow) (row : RepoRow) : Prop :=
  row ∈ rows.takeWhile (Passable db) ∧ row.component ∈ resticComponents ∧
    db.onFrozenTargets row.tenantId = false

/-- The snapshot is exactly as old as the minimum age, or at least as old and tagged for a live
bundle of the tenant. -/
def Contested (row : RepoRow) (now : ℤ) (s : Snapshot) : Prop :=
  ∃ t, out.dateParse s.time = some t ∧
    (t = minAgeCutoff out db ∨
      (t < minAgeCutoff out db ∧ ∃ bj ∈ db.backupJobs, bj.tenantId = row.tenantId ∧
        db.BundleIsLive (timestamp now) bj ∧ bundleTag bj.id ∈ s.tags))

/-- Every contested snapshot that the sweep comes upon is vouched for by the keep-set. -/
def ContestedVouched (rows : List RepoRow) : Prop :=
  ∀ row, Visited db rows row →
    ∀ layout ∈ db.layoutsHoldingSnapshots row.tenantId row.component, ∀ repository,
    (out.look row layout).listing = .holds repository →
    (args.force = true ∨ db.hasHistory row.tenantId row.component = true) →
    ∀ s ∈ repository.snapshots, Contested out db row (out.look row layout).now s →
      Vouched db row layout (out.look row layout).now s

end Statement

variable {out : Surroundings} {args : ResticRetentionArgs} {db : ResticDatabase} {row : RepoRow}
  {layout : ResticRepoLayout}

theorem stateRows_nodup (stateRows : db.StateRows args) : stateRows.rows.Nodup := by
  have hpairs : (db.repoPairs.filter fun p =>
      decide (Javascript.truthy args.tenantId = false ∨ args.tenantId = some p.tenantId)).Nodup :=
    (List.nodup_dedup _).filter _
  exact (stateRows.perm.nodup_iff.mpr hpairs).sublist (List.take_sublist _ _)

theorem mem_layoutCalls {cutoff : ℤ} {repoUri : String} {call : ForgetCall} :
    call ∈ layoutCalls out args cutoff db row layout repoUri ↔
      args.dryRun = false ∧ ∃ repository, (out.look row layout).listing = .holds repository ∧
        (repoPlan out args cutoff db row layout repository).forget ≠ [] ∧
        call = { row, layout, repoUri,
                 snapshotIds := (repoPlan out args cutoff db row layout repository).forget } := by
  unfold layoutCalls
  cases (out.look row layout).listing with
  | missing => simp
  | failed => simp
  | holds repository =>
    by_cases hempty : (repoPlan out args cutoff db row layout repository).forget = []
    · simp [hempty]
    · cases hdry : args.dryRun with
      | true => simp
      | false => simp [hempty]

theorem mem_runResticRetentionSweep {stateRows : db.StateRows args} {call : ForgetCall} :
    call ∈ (runResticRetentionSweep out args db stateRows).2 ↔
      SweepRuns out args db ∧ ∃ target, out.target = some target ∧
      ∃ row, Visited db stateRows.rows row ∧
      ∃ layout ∈ db.layoutsHoldingSnapshots row.tenantId row.component,
        call ∈ layoutCalls out args (minAgeCutoff out db) db row layout
          (repoUriOf target row layout) := by
  have hrow : ∀ (target : ShimTarget) (row : RepoRow),
      call ∈ rowCalls out args (minAgeCutoff out db) target db row ↔
        row.component ∈ resticComponents ∧ db.onFrozenTargets row.tenantId = false ∧
        ∃ layout ∈ db.layoutsHoldingSnapshots row.tenantId row.component,
          call ∈ layoutCalls out args (minAgeCutoff out db) db row layout
            (repoUriOf target row layout) := by
    intro target row
    unfold rowCalls
    by_cases hskip : row.component ∉ resticComponents ∨ db.onFrozenTargets row.tenantId = true
    · rw [if_pos hskip]
      rcases hskip with hskip | hskip <;> simp [hskip]
    · rw [if_neg hskip]
      simp only [not_or, not_not, Bool.not_eq_true] at hskip
      simp [hskip]
  have hdry : ∀ {row layout repoUri},
      call ∈ layoutCalls out args (minAgeCutoff out db) db row layout repoUri →
        args.dryRun = false := fun h => (mem_layoutCalls.mp h).1
  unfold runResticRetentionSweep SweepRuns
  by_cases hoff : (forgetDisabled out args db || stateRows.rows.isEmpty) = true
  · rw [if_pos hoff]
    simp only [Bool.or_eq_true, List.isEmpty_iff] at hoff
    rcases hoff with hoff | hoff
    · simp [hoff]
    · simp [hoff, Visited]
  · rw [if_neg hoff]
    simp only [Bool.or_eq_true, not_or, Bool.not_eq_true] at hoff
    cases htarget : out.target with
    | none => simp
    | some target =>
      by_cases hbound : out.bound = .switching
      · simp [hbound]
      · simp only [if_neg hbound, sweepRows_calls out args _ target (stateRows_nodup stateRows),
          List.mem_flatMap, hrow, Visited]
        constructor
        · rintro ⟨row, hmem, hcomponent, hfrozen, layout, hlayout, hcall⟩
          exact ⟨⟨hoff.1, by simp, hbound, hdry hcall⟩, target, rfl, row,
            ⟨hmem, hcomponent, hfrozen⟩, layout, hlayout, hcall⟩
        · rintro ⟨-, target', htarget', row, ⟨hmem, hcomponent, hfrozen⟩, layout, hlayout, hcall⟩
          cases htarget'
          exact ⟨row, hmem, hcomponent, hfrozen, layout, hlayout, hcall⟩

/-- The plan for a repository, in terms of the tables: old enough, and not vouched for. -/
theorem mem_repoPlan_forget {cutoff : ℤ} {repository : Repository} {id : String} :
    id ∈ (repoPlan out args cutoff db row layout repository).forget ↔
      (args.force = true ∨ db.hasHistory row.tenantId row.component = true) ∧
        ∃ s ∈ repository.snapshots, s.id = id ∧
          ¬ Vouched db row layout (out.look row layout).now s ∧
          ∃ t, out.dateParse s.time = some t ∧ t ≤ cutoff := by
  unfold repoPlan
  rw [mem_planRepoReclamation_forget, or_comm]
  simp only [isKept_iff_vouched]

theorem vouched_of_recorded {now : ℤ} {s : Snapshot} {bj : BackupJob} {bc : BackupComponent}
    (hbj : bj ∈ db.backupJobs) (htenant : bj.tenantId = row.tenantId)
    (hlive : db.BundleIsLive (timestamp now) bj) (hbc : bc ∈ db.backupComponents)
    (hjob : bc.backupJobId = bj.id) (hstored : StoredIn row layout bj bc)
    (hsha : bc.sha256 = some s.id) (hne : s.id ≠ "") : Vouched db row layout now s := by
  have hscope : layout = .perTenant ∨ bc.component.text = row.component := by
    cases layout with
    | perTenant => exact .inl rfl
    | perComponent => exact .inr (hstored.2 rfl)
  exact ⟨bj, bc, ⟨hbj, hbc, hjob, htenant, hscope, hlive⟩, .inl ⟨s.id, hsha, hne, .inl rfl⟩⟩

/-- A sweep passes only dead snapshots to `runResticForget` exactly when it does not run, or every
contested snapshot that it comes upon is vouched for by the keep-set. -/
theorem sweep_forgets_only_dead_iff (out : Surroundings) (args : ResticRetentionArgs)
    (db : ResticDatabase) (stateRows : db.StateRows args) :
    (∀ call ∈ (runResticRetentionSweep out args db stateRows).2, ForgetsOnlyDead out args db call) ↔
      (SweepRuns out args db → ContestedVouched out args db stateRows.rows) := by
  constructor
  · intro hdead hruns row hvisited layout hlayout repository hlisting hhistory s hs hcontested
    obtain ⟨t, ht, hcase⟩ := hcontested
    by_contra hvouched
    have hold : t ≤ minAgeCutoff out db := by
      rcases hcase with hcase | hcase
      · omega
      · omega
    -- Not vouched for and old enough, the snapshot is in the plan, and the plan is carried out.
    have hforget : s.id ∈ (repoPlan out args (minAgeCutoff out db) db row layout repository).forget :=
      mem_repoPlan_forget.mpr ⟨hhistory, s, hs, rfl, hvouched, t, ht, hold⟩
    obtain ⟨target, htarget⟩ := Option.ne_none_iff_exists'.mp hruns.2.1
    have hcall := hdead _ (mem_runResticRetentionSweep.mpr ⟨hruns, target, htarget, row, hvisited,
      layout, hlayout, mem_layoutCalls.mpr ⟨hruns.2.2.2, repository, hlisting,
        List.ne_nil_of_mem hforget, rfl⟩⟩)
    obtain ⟨repository', hlisting', s', hs', hid, ⟨t', ht', hlt⟩, hno⟩ := hcall.2 s.id hforget
    obtain rfl : repository = repository' := by
      simpa using hlisting.symm.trans hlisting'
    obtain rfl : s' = s := List.inj_on_of_nodup_map repository.distinct hs' hs hid
    obtain rfl : t = t' := by simpa using ht.symm.trans ht'
    rcases hcase with hcase | ⟨-, bj, hbj, htenant, hlive, htag⟩
    · omega
    · exact (hno bj hbj htenant hlive).2 htag
  · intro hvouched call hcall
    obtain ⟨hruns, target, htarget, row, hvisited, layout, hlayout, hmem⟩ :=
      mem_runResticRetentionSweep.mp hcall
    obtain ⟨-, repository, hlisting, hne, rfl⟩ := mem_layoutCalls.mp hmem
    obtain ⟨id, hid⟩ := List.exists_mem_of_ne_nil _ hne
    have hhistory := (mem_repoPlan_forget.mp hid).1
    refine ⟨hhistory, ?_⟩
    intro id hid
    obtain ⟨-, s, hs, rfl, hnot, t, ht, hold⟩ := mem_repoPlan_forget.mp hid
    have hclear : ¬ Contested out db row (out.look row layout).now s := fun hcontested =>
      hnot (hvouched hruns row hvisited layout hlayout repository hlisting hhistory s hs hcontested)
    have hlt : t < minAgeCutoff out db := by
      rcases Int.lt_or_eq_of_le hold with hlt | heq
      · exact hlt
      · exact absurd ⟨t, ht, .inl heq⟩ hclear
    refine ⟨repository, hlisting, s, hs, rfl, ⟨t, ht, hlt⟩, ?_⟩
    intro bj hbj htenant hlive
    constructor
    · intro bc hbc hjob hstored hsha
      exact hnot (vouched_of_recorded hbj htenant hlive hbc hjob hstored hsha
        (repository.named s hs))
    · intro htag
      exact hclear ⟨t, ht, .inr ⟨hlt, bj, hbj, htenant, hlive, htag⟩⟩

section Untold

def untoldDb : ResticDatabase where
  collation := .codePoint
  tenants := [{ id := "acme", status := .active }]
  backupJobs :=
    [{ id := "bkp-may", tenantId := "acme", initiator := .system, systemTrigger := some .scheduled,
       status := .expired, targetConfigId := none, repoLayout := none, retentionDays := 14,
       expiresAt := some 1778803200000000, startedAt := none, createdAt := 1777593600000000 },
     { id := "bkp-june", tenantId := "acme", initiator := .admin, systemTrigger := none,
       status := .completed, targetConfigId := none, repoLayout := none, retentionDays := 0,
       expiresAt := none, startedAt := none, createdAt := 1780272000000000 }]
  backupComponents :=
    [{ id := "1", backupJobId := "bkp-may", component := .files, status := .completed,
       sha256 := some "5e3ab01f", snapshotReclaimedAt := none },
     { id := "2", backupJobId := "bkp-june", component := .config, status := .completed,
       sha256 := none, snapshotReclaimedAt := none }]
  backupConfigurations := []
  jobKeys := by decide
  componentKeys := by decide
  tenantResticRepoState := []
  resticRepoReclaimState := []
  tenantBackupV2Settings := none

def taggedSnapshot : Snapshot where
  id := "c07d92ea"
  shortId := "c07d92ea"
  time := "2026-06-01T00:00:00Z"
  tags := ["bundle-id=bkp-june"]

/-- A snapshot without a tag, taken 48 hours before the first of July. -/
def borderSnapshot : Snapshot where
  id := "c07d92ea"
  shortId := "c07d92ea"
  time := "2026-06-29T00:00:00Z"
  tags := []

def taggedRepository : Repository where
  snapshots := [taggedSnapshot]
  distinct := by decide
  named := by decide

def borderRepository : Repository where
  snapshots := [borderSnapshot]
  distinct := by decide
  named := by decide

def julySweep (repository : Repository) : Surroundings where
  dateParse time :=
    if time = "2026-06-01T00:00:00Z" then some 1780272000000
    else if time = "2026-06-29T00:00:00Z" then some 1782691200000 else none
  envDisabled := false
  target := some { endpoint := "http://backup-rclone-shim:9000", bucket := "tenant" }
  bound := .known none
  now := 1782864000000
  look _ _ :=
    { now := 1782864000000
      listing := .holds repository
      forgets := true
      recordedAt := 1782864000000 }
  notedAt _ := 1782864000000

def plainArgs : ResticRetentionArgs where
  dryRun := false
  tenantId := none
  force := false
  maxRepos := none

def untoldRows : untoldDb.StateRows plainArgs where
  arrangement := [{ tenantId := "acme", component := "files" }]
  perm := by rfl
  ordered := List.pairwise_singleton _ _

def filesCall : ForgetCall where
  row := { tenantId := "acme", component := "files" }
  layout := .perComponent
  repoUri := "s3:http://backup-rclone-shim:9000/tenant/restic-files/acme"
  snapshotIds := ["c07d92ea"]

/-- The sweep forgets a snapshot that carries the tag of a live bundle. It also forgets one that is
exactly as old as the minimum age. -/
theorem sweep_forgets_tagged_and_border :
    (¬ ∀ call ∈ (runResticRetentionSweep (julySweep taggedRepository) plainArgs untoldDb
        untoldRows).2, ForgetsOnlyDead (julySweep taggedRepository) plainArgs untoldDb call) ∧
    ¬ ∀ call ∈ (runResticRetentionSweep (julySweep borderRepository) plainArgs untoldDb
        untoldRows).2, ForgetsOnlyDead (julySweep borderRepository) plainArgs untoldDb call := by
  constructor
  · intro hdead
    have hmem : filesCall ∈ (runResticRetentionSweep (julySweep taggedRepository) plainArgs untoldDb
        untoldRows).2 := by decide
    obtain ⟨_, hlisting, s, hs, -, -, hno⟩ := (hdead _ hmem).2 "c07d92ea" (by decide)
    cases hlisting
    obtain rfl : s = taggedSnapshot := List.mem_singleton.mp hs
    have hlive : untoldDb.BundleIsLive (timestamp 1782864000000) (untoldDb.backupJobs[1]) := by
      decide
    exact (hno _ (List.getElem_mem _) rfl hlive).2 (by decide)
  · intro hdead
    have hmem : filesCall ∈ (runResticRetentionSweep (julySweep borderRepository) plainArgs untoldDb
        untoldRows).2 := by decide
    obtain ⟨_, hlisting, s, hs, -, ⟨t, ht, hlt⟩, -⟩ := (hdead _ hmem).2 "c07d92ea" (by decide)
    cases hlisting
    obtain rfl : s = borderSnapshot := List.mem_singleton.mp hs
    have hcutoff : minAgeCutoff (julySweep borderRepository) untoldDb = 1782691200000 := by
      rfl
    have htime : (julySweep borderRepository).dateParse borderSnapshot.time = some 1782691200000 := by
      rfl
    obtain rfl : 1782691200000 = t := by simpa using htime.symm.trans ht
    omega

end Untold

end Insula.TenantBundles
