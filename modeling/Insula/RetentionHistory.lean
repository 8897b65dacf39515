import Insula.RestorePoints

/-!
# Restore points over a history

Through every history of sweeps, captures, policy changes, suspensions and reactivations, a tenant
that is neither archived nor deleted when a sweep runs loses to it neither its newest restorable
bundle nor the newest restorable bundle with a completed copy of a component.
-/

namespace Insula.TenantBundles

open Transition

def Survives (db : Catalogue) (job : BackupJob) : Prop :=
  ∃ job' ∈ db.backupJobs, job'.id = job.id ∧ job'.tenantId = job.tenantId ∧
    job'.status = job.status

/-- What a sweep leaves the tenant: its newest restorable bundle, and for each component the newest
restorable bundle with a completed copy. What it selects to expire the restic reconciler does not
count as live, then or later. -/
structure SweepKeeps (tenantId : String) (db : RetentionDatabase) (answers : SweepAnswers) :
    Prop where
  newest : ∀ job, db.IsNewest (Catalogue.RestorePoint tenantId) job →
    Survives (runRetentionSweep db answers).1.toCatalogue job
  copy : ∀ component job, db.IsNewest (db.CompletedCopy tenantId component) job →
    Survives (runRetentionSweep db answers).1.toCatalogue job
  selected : ∀ batch ∈ (runRetentionSweep db answers).2, ∀ job ∈ batch.2, ∀ later,
    timestamp answers.now ≤ later → ¬ batch.1.BundleIsLive later job

/-- If the event is a sweep, the tenant is neither archived nor deleted at it. -/
def KeptAtSweep (tenantId : String) (db : RetentionDatabase) (e : RetentionEvent)
    (_ : RetentionDatabase) : Prop :=
  match e with
  | .sweep _ => db.Kept tenantId
  | _ => True

instance (tenantId : String) (db : RetentionDatabase) (e : RetentionEvent)
    (db' : RetentionDatabase) : Decidable (KeptAtSweep tenantId db e db') := by
  unfold KeptAtSweep Catalogue.Kept
  cases e <;> infer_instance

def KeepsAtSweep (tenantId : String) (db : RetentionDatabase) (e : RetentionEvent)
    (_ : RetentionDatabase) : Prop :=
  match e with
  | .sweep answers => SweepKeeps tenantId db answers
  | _ => True

def HasRestorePoint (tenantId : String) (db : RetentionDatabase) : Prop :=
  ∃ job ∈ db.backupJobs, Catalogue.RestorePoint tenantId job

def HasCopy (tenantId : String) (component : BackupComponentName) (db : RetentionDatabase) : Prop :=
  ∃ job ∈ db.backupJobs, db.CompletedCopy tenantId component job

section Sweeps

variable {db : RetentionDatabase} {tenantId : String}

theorem survives_of_held (answers : SweepAnswers) {job : BackupJob} (hjob : job ∈ db.backupJobs)
    (hres : job.status.restorable = true) (hheld : db.HeldPastExpiry job) :
    Survives (runRetentionSweep db answers).1.toCatalogue job := by
  obtain ⟨f, hf⟩ := runRetentionSweep_aged db answers
  refine ⟨f job, ?_, hf.id job, hf.tenantId job, hf.held job hjob hres hheld⟩
  rw [hf.jobs]
  exact List.mem_map_of_mem hjob

theorem selected_not_live (answers : SweepAnswers) (now : ℤ) (left : ℕ) (db : RetentionDatabase)
    (tried : List String) :
    ∀ batch ∈ (expiryBatches answers now left db tried).2, ∀ job ∈ batch.2, ∀ later, now ≤ later →
      ¬ batch.1.BundleIsLive later job := by
  induction left generalizing db tried with
  | zero => simp [expiryBatches]
  | succ left ih =>
    intro batch hbatch job hjob later hlater
    have hhere : batch = (db, db.selectExpired now answers.bound tried
          (answers.scan (RetentionDatabase.expiryMaxBatches - (left + 1)))) →
        ¬ batch.1.BundleIsLive later job := by
      rintro rfl
      exact not_bundleIsLive_of_mem_selectExpired db hjob hlater
    unfold expiryBatches at hbatch
    dsimp only at hbatch
    split at hbatch
    · simp at hbatch
    · split at hbatch
      · exact hhere (List.mem_singleton.mp hbatch)
      · rcases List.mem_cons.mp hbatch with hbatch | hbatch
        · exact hhere hbatch
        · exact ih _ _ batch hbatch job hjob later hlater

theorem sweepKeeps (hkept : db.Kept tenantId) (answers : SweepAnswers) :
    SweepKeeps tenantId db answers where
  newest _ hnewest := survives_of_held answers hnewest.1 hnewest.2.1.2
    (db.heldPastExpiry_of_newest hkept hnewest)
  copy _ _ hnewest := survives_of_held answers hnewest.1 hnewest.2.1.1.2
    (db.heldPastExpiry_of_newest_copy hkept hnewest)
  selected := selected_not_live answers _ _ _ _

theorem sweep_hasRestorePoint (hkept : db.Kept tenantId) (answers : SweepAnswers)
    (h : HasRestorePoint tenantId db) :
    HasRestorePoint tenantId (runRetentionSweep db answers).1 := by
  obtain ⟨job, hjob, hpoint, hnewest⟩ := db.exists_newest h
  obtain ⟨job', hjob', -, htenant, hstatus⟩ :=
    (sweepKeeps hkept answers).newest job ⟨hjob, hpoint, hnewest⟩
  refine ⟨job', hjob', htenant.trans hpoint.1, ?_⟩
  rw [hstatus]
  exact hpoint.2

theorem sweep_hasCopy (hkept : db.Kept tenantId) (answers : SweepAnswers)
    {component : BackupComponentName} (h : HasCopy tenantId component db) :
    HasCopy tenantId component (runRetentionSweep db answers).1 := by
  obtain ⟨job, hjob, hcopy, hnewest⟩ := db.exists_newest h
  obtain ⟨job', hjob', hid, htenant, hstatus⟩ :=
    (sweepKeeps hkept answers).copy component job ⟨hjob, hcopy, hnewest⟩
  obtain ⟨f, hf⟩ := runRetentionSweep_aged db answers
  obtain ⟨⟨hjobTenant, hres⟩, c, hc, hcjob, hcomponent, hcompleted⟩ := hcopy
  refine ⟨job', hjob', ⟨htenant.trans hjobTenant, ?_⟩, c, ?_, hcjob.trans hid.symm, hcomponent,
    hcompleted⟩
  · rw [hstatus]
    exact hres
  · rw [hf.components]
    exact hc

end Sweeps

section Captures

variable {db db' : RetentionDatabase}

def Undisturbed (db db' : RetentionDatabase) : Prop :=
  ∀ job ∈ db.backupJobs, job.status.restorable = true → job ∈ db'.backupJobs ∧
    ∀ c ∈ db.backupComponents, c.backupJobId = job.id → c ∈ db'.backupComponents

theorem not_capturing {id : String} (hcapturing : db.Capturing id) {job : BackupJob}
    (hjob : job ∈ db.backupJobs) (hres : job.status.restorable = true) : job.id ≠ id := by
  rintro rfl
  obtain ⟨other, hother, hid, hnot⟩ := hcapturing
  obtain rfl : other = job := List.inj_on_of_nodup_map db.jobKeys hother hjob hid
  rw [hres] at hnot
  cases hnot

theorem undisturbed_withStatus {id : String} {status : BackupJobStatus}
    (hcapturing : db.Capturing id) :
    Undisturbed db { db with
      toCatalogue := db.toCatalogue.updateJobs (withStatus id status) (withStatus_id id status) } := by
  intro job hjob hres
  have hsame : withStatus id status job = job := if_neg (not_capturing hcapturing hjob hres)
  refine ⟨?_, fun c hc _ => hc⟩
  exact List.mem_map.mpr ⟨job, hjob, hsame⟩

theorem mem_recordComponent {rows : List BackupComponent} {row c : BackupComponent} (hc : c ∈ rows)
    (hid : c.id ≠ row.id) : c ∈ recordComponent rows row := by
  unfold recordComponent
  split
  · exact List.mem_map.mpr ⟨c, hc, if_neg hid⟩
  · exact List.mem_append_left _ hc

/-- What is not a sweep leaves the restorable bundles alone. -/
theorem retentionStep_undisturbed {e : RetentionEvent} (h : retentionStep db e = some db')
    (hsweep : ∀ answers, e ≠ .sweep answers) : Undisturbed db db' := by
  cases e with
  | sweep answers => exact absurd rfl (hsweep answers)
  | setRetention row =>
    cases h
    exact fun job hjob _ => ⟨hjob, fun c hc _ => hc⟩
  | insertBundle job =>
    simp only [retentionStep] at h
    split at h
    · split at h
      · cases h
        exact fun job hjob _ => ⟨List.mem_append_left _ hjob, fun c hc _ => hc⟩
      · cases h
    · cases h
  | startBundle id =>
    simp only [retentionStep] at h
    split at h
    · cases h
      exact undisturbed_withStatus ‹_›
    · cases h
  | recordComponent row =>
    simp only [retentionStep] at h
    split at h
    · rename_i hguard
      cases h
      intro job hjob hres
      refine ⟨hjob, fun c hc hcjob => mem_recordComponent hc fun hid => ?_⟩
      have hrow : row.backupJobId = job.id := (hguard.2 c hc hid).symm.trans hcjob
      exact not_capturing hguard.1 hjob hres hrow.symm
    · cases h
  | finishBundle id outcome =>
    simp only [retentionStep] at h
    split at h
    · cases h
      exact undisturbed_withStatus ‹_›
    · cases h
  | setTenantStatus id status =>
    cases h
    exact fun job hjob _ => ⟨hjob, fun c hc _ => hc⟩
  | setRestores jobs items =>
    cases h
    exact fun job hjob _ => ⟨hjob, fun c hc _ => hc⟩
  | setConfigurations targets =>
    cases h
    exact fun job hjob _ => ⟨hjob, fun c hc _ => hc⟩

end Captures

section Histories

variable {tenantId : String} {db db' : RetentionDatabase} {e : RetentionEvent}

theorem retentionStep_hasRestorePoint (h : retentionStep db e = some db')
    (hkept : KeptAtSweep tenantId db e db') (hpoint : HasRestorePoint tenantId db) :
    HasRestorePoint tenantId db' := by
  by_cases hsweep : ∃ answers, e = .sweep answers
  · obtain ⟨answers, rfl⟩ := hsweep
    cases h
    exact sweep_hasRestorePoint hkept answers hpoint
  · obtain ⟨job, hjob, htenant, hres⟩ := hpoint
    have hundisturbed := retentionStep_undisturbed h fun answers heq => hsweep ⟨answers, heq⟩
    exact ⟨job, (hundisturbed job hjob hres).1, htenant, hres⟩

theorem retentionStep_hasCopy {component : BackupComponentName} (h : retentionStep db e = some db')
    (hkept : KeptAtSweep tenantId db e db') (hcopy : HasCopy tenantId component db) :
    HasCopy tenantId component db' := by
  by_cases hsweep : ∃ answers, e = .sweep answers
  · obtain ⟨answers, rfl⟩ := hsweep
    cases h
    exact sweep_hasCopy hkept answers hcopy
  · obtain ⟨job, hjob, ⟨htenant, hres⟩, c, hc, hcjob, hrest⟩ := hcopy
    have hundisturbed := retentionStep_undisturbed h fun answers heq => hsweep ⟨answers, heq⟩
    obtain ⟨hjob', hcomponents⟩ := hundisturbed job hjob hres
    exact ⟨job, hjob', ⟨htenant, hres⟩, c, hcomponents c hc hcjob, hcjob, hrest⟩

end Histories

/-- In every history in which the tenant is neither archived nor deleted when a sweep runs, no sweep
takes the tenant's newest restorable bundle or its newest completed copy of a component, and none
selects a live bundle. A restore point or a copy of a component that the tenant has at some time is
followed by one at every later time. -/
theorem tenant_keeps_restore_points (tenantId : String) (db : RetentionDatabase)
    (past later : List RetentionEvent)
    (hkept : Along retentionStep (KeptAtSweep tenantId) db (past ++ later)) :
    Along retentionStep (KeepsAtSweep tenantId) db (past ++ later) ∧
    ∀ mid last, exec retentionStep db past = some mid → exec retentionStep mid later = some last →
      (HasRestorePoint tenantId mid → HasRestorePoint tenantId last) ∧
      ∀ component, HasCopy tenantId component mid → HasCopy tenantId component last := by
  refine ⟨along_mono retentionStep ?_ hkept, ?_⟩
  · intro s e s' hkept
    cases e with
    | sweep answers => exact sweepKeeps hkept answers
    | _ => trivial
  · intro mid last hmid hlast
    have hlater := (along_append retentionStep hkept hmid).2
    constructor
    · intro hpoint
      exact exec_invariant_along retentionStep
        (fun _ _ _ hI hstep hP => retentionStep_hasRestorePoint hstep hP hI) hpoint hlater hlast
    · intro component hcopy
      exact exec_invariant_along retentionStep
        (fun _ _ _ hI hstep hP => retentionStep_hasCopy hstep hP hI) hcopy hlater hlast

section OneBundle

def freshDb : RetentionDatabase where
  collation := .codePoint
  tenants := [{ id := "acme", status := .active }]
  backupJobs := []
  backupComponents := []
  backupConfigurations := []
  jobKeys := by decide
  componentKeys := by decide
  restoreJobs := []
  restoreItems := []
  schedule := some { retentionDays := some 14, retentionCount := none }

def nightly (id : String) (createdAt : ℤ) : BackupJob where
  id := id
  tenantId := "acme"
  initiator := .system
  systemTrigger := some .scheduled
  status := .pending
  targetConfigId := none
  repoLayout := some "per-tenant"
  retentionDays := 14
  expiresAt := some (createdAt + RetentionDatabase.daysInterval 14)
  startedAt := some createdAt
  createdAt := createdAt

def filesCopy (id bundleId : String) : BackupComponent where
  id := id
  backupJobId := bundleId
  component := .files
  status := .completed
  sha256 := some "5e3ab01f"
  snapshotReclaimedAt := none

def julyAnswers : SweepAnswers where
  now := 1782864000000
  bound := .known none
  scan _ _ := 0
  outOfTime _ _ := false
  outOfTimeAfter _ := false
  deletes _ := true
  stuckCutoff := 1782853200000

def mayCapture (outcome : BundleOutcome) : List RetentionEvent :=
  [.insertBundle (nightly "bkp-may" 1777593600000000), .startBundle "bkp-may",
    .recordComponent (filesCopy "1" "bkp-may"), .finishBundle "bkp-may" outcome]

def suspension : List RetentionEvent :=
  [.setTenantStatus "acme" .suspended, .sweep julyAnswers, .setTenantStatus "acme" .active,
    .sweep julyAnswers]

theorem tenant_keeps_restore_points_suspension :
    Along retentionStep (KeepsAtSweep "acme") freshDb (mayCapture .completed ++ suspension) ∧
    ∃ mid last, exec retentionStep freshDb (mayCapture .completed) = some mid ∧
      exec retentionStep mid suspension = some last ∧ HasCopy "acme" .files mid ∧
      HasCopy "acme" .files last := by
  have hkept : Along retentionStep (KeptAtSweep "acme") freshDb (mayCapture .completed ++ suspension) := by
    decide
  have hmain := tenant_keeps_restore_points "acme" freshDb (mayCapture .completed) suspension hkept
  refine ⟨hmain.1, _, _, rfl, rfl, ?_, ?_⟩
  · unfold HasCopy Catalogue.CompletedCopy Catalogue.RestorePoint
    decide
  · apply (hmain.2 _ _ rfl rfl).2
    unfold HasCopy Catalogue.CompletedCopy Catalogue.RestorePoint
    decide

def FilesInAnyBundle (db : RetentionDatabase) (job : BackupJob) : Prop :=
  job.tenantId = "acme" ∧ ∃ c ∈ db.backupComponents,
    c.backupJobId = job.id ∧ c.component = .files ∧ c.status = .completed

/-- A bundle whose capture failed after it had copied the files is expired, although the tenant is
active and no other bundle has a copy of them. -/
theorem failed_bundle_with_only_copy_expires :
    ∃ db, exec retentionStep freshDb (mayCapture .failed) = some db ∧ db.Kept "acme" ∧
      ∃ job, db.IsNewest (FilesInAnyBundle db) job ∧
        ∃ job' ∈ (runRetentionSweep db julyAnswers).1.backupJobs,
          job'.id = job.id ∧ job'.status = .expired := by
  refine ⟨_, rfl, ?_, { nightly "bkp-may" 1777593600000000 with status := .failed }, ?_, ?_⟩
  · unfold Catalogue.Kept
    decide
  · unfold Catalogue.IsNewest FilesInAnyBundle
    decide
  · decide

end OneBundle

end Insula.TenantBundles
