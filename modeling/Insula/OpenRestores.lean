import Insula.RetentionHistory

/-!
# Bundles of open restores

The passes that move expiries leave alone the bundles that an open restore uses, and the pass that
expires bundles does not ask for one. So a sweep spares the bundle of an open restore whatever
happens on its way if and only if the bundle could not be expired when the sweep began.
-/

namespace Insula.TenantBundles

open Javascript

/-- The bundles of a batch, from the place `i` on, that are taken off their target or marked. -/
def reclaimed (answers : SweepAnswers) (batch : ℕ) (db : RetentionDatabase) :
    ℕ → List BackupJob → List String
  | _, [] => []
  | i, job :: jobs =>
    if answers.outOfTime batch i then []
    else if frozenOut db job then reclaimed answers batch db (i + 1) jobs
    else job.id :: reclaimed answers batch db (i + 1) jobs

def sweepReclaimed (answers : SweepAnswers) :
    ℕ → List (RetentionDatabase × List BackupJob) → List String
  | _, [] => []
  | batch, (db, jobs) :: rest =>
    reclaimed answers batch db 0 jobs ++ sweepReclaimed answers (batch + 1) rest

/-- A sweep neither deletes nor marks a bundle that an open restore uses. -/
def OpenRestoresKept (db : RetentionDatabase) (answers : SweepAnswers) : Prop :=
  ∀ job ∈ db.backupJobs, db.InOpenRestore job.id →
    job.id ∉ sweepReclaimed answers 0 (runRetentionSweep db answers).2 ∧
      ∀ job' ∈ (runRetentionSweep db answers).1.backupJobs, job'.id = job.id →
        job'.status = .expired → job.status = .expired

/-- The bundle is past its expiry and not held, and a delete may reach it. -/
def RetentionDatabase.Reclaimable (db : RetentionDatabase) (now : ℤ) (bound : BoundTenantTarget)
    (job : BackupJob) : Prop :=
  db.ExpiryCandidate now bound [] job ∧ frozenOut db job = false

theorem mem_reclaimed {answers : SweepAnswers} {batch : ℕ} {db : RetentionDatabase} {id : String}
    {i : ℕ} {jobs : List BackupJob} (h : id ∈ reclaimed answers batch db i jobs) :
    ∃ job ∈ jobs, job.id = id ∧ frozenOut db job = false := by
  induction jobs generalizing i with
  | nil => simp [reclaimed] at h
  | cons job jobs ih =>
    have hrest : id ∈ reclaimed answers batch db (i + 1) jobs →
        ∃ c ∈ job :: jobs, c.id = id ∧ frozenOut db c = false := by
      intro hid
      obtain ⟨c, hc, hcid⟩ := ih hid
      exact ⟨c, List.mem_cons_of_mem _ hc, hcid⟩
    unfold reclaimed at h
    split at h
    · simp at h
    · split at h
      · exact hrest h
      · rename_i hfrozen
        rcases List.mem_cons.mp h with rfl | h
        · exact ⟨job, List.mem_cons_self, rfl, by simpa using hfrozen⟩
        · exact hrest h

def Safe (now : ℤ) (bound : BoundTenantTarget) (id : String) (db : RetentionDatabase) : Prop :=
  ∀ job ∈ db.backupJobs, job.id = id → ¬ db.Reclaimable now bound job

/-- The bundle with this id is not expired if it was not, and cannot be. -/
structure Spared (now : ℤ) (bound : BoundTenantTarget) (id : String) (db db' : RetentionDatabase) :
    Prop where
  statuses : ∀ job' ∈ db'.backupJobs, job'.id = id → ∃ job ∈ db.backupJobs, job.id = id ∧
    (job'.status = .expired → job.status = .expired)
  safe : Safe now bound id db'

namespace Spared

variable {now : ℤ} {bound : BoundTenantTarget} {id : String} {db db' db'' : RetentionDatabase}

theorem refl (hsafe : Safe now bound id db) : Spared now bound id db db where
  statuses job hjob hid := ⟨job, hjob, hid, fun h => h⟩
  safe := hsafe

theorem trans (h : Spared now bound id db db')
    (h' : Safe now bound id db' → Spared now bound id db' db'') : Spared now bound id db db'' where
  statuses := by
    intro job'' hjob'' hid
    obtain ⟨job', hjob', hid', hexpired'⟩ := (h' h.safe).statuses job'' hjob'' hid
    obtain ⟨job, hjob, hid'', hexpired⟩ := h.statuses job' hjob' hid'
    exact ⟨job, hjob, hid'', fun he => hexpired (hexpired' he)⟩
  safe := (h' h.safe).safe

/-- A pass spares a bundle if it leaves its status and does not move its expiry into the past, and
takes no bundle that is held. -/
theorem of_aging {f : BackupJob → BackupJob} (hsafe : Safe now bound id db)
    (haging : Aging db.toCatalogue db'.toCatalogue f)
    (hconfigurations : db'.backupConfigurations = db.backupConfigurations)
    (hsame : ∀ job ∈ db.backupJobs, job.id = id →
      (f job).status = job.status ∧ (f job).targetConfigId = job.targetConfigId ∧
        ∀ e, (f job).expiresAt = some e → e ≤ now → ∃ e', job.expiresAt = some e' ∧ e' ≤ now) :
    Spared now bound id db db' where
  statuses := by
    intro job' hjob' hid
    rw [haging.jobs] at hjob'
    obtain ⟨job, hjob, rfl⟩ := List.mem_map.mp hjob'
    have hid' : job.id = id := (haging.id job).symm.trans hid
    refine ⟨job, hjob, hid', ?_⟩
    rw [(hsame job hjob hid').1]
    exact fun h => h
  safe := by
    rintro job' hjob' hid ⟨⟨⟨e, he, hle⟩, hstatus, hheld, htarget, htried⟩, hfrozen⟩
    rw [haging.jobs] at hjob'
    obtain ⟨job, hjob, rfl⟩ := List.mem_map.mp hjob'
    have hid' : job.id = id := (haging.id job).symm.trans hid
    obtain ⟨hsameStatus, hsameTarget, hdates⟩ := hsame job hjob hid'
    rw [hsameStatus] at hstatus
    have hheld' : ¬ db.HeldPastExpiry job :=
      fun hheld' => hheld (haging.heldPastExpiry hsameStatus hheld')
    refine hsafe job hjob hid' ⟨⟨hdates e he hle, hstatus, hheld', ?_, by simp⟩, ?_⟩
    · simpa [RetentionDatabase.onBoundTarget, onBound, hsameTarget] using htarget
    · simpa [frozenOut, RetentionDatabase.frozen, hsameTarget, hconfigurations] using hfrozen

end Spared

section Passes

variable {db : RetentionDatabase} {now : ℤ} {bound : BoundTenantTarget} {id : String}
  {job : BackupJob}

theorem restamped_same (days : Option ℤ) (job : BackupJob) :
    (db.restamped days now job).id = job.id ∧ (db.restamped days now job).tenantId = job.tenantId ∧
      (db.restamped days now job).createdAt = job.createdAt ∧
      (db.restamped days now job).status = job.status := by
  unfold RetentionDatabase.restamped
  split <;> split <;> exact ⟨rfl, rfl, rfl, rfl⟩

theorem restamped_targetConfigId (days : Option ℤ) (job : BackupJob) :
    (db.restamped days now job).targetConfigId = job.targetConfigId := by
  unfold RetentionDatabase.restamped
  split <;> split <;> rfl

theorem restamped_expiry (days : Option ℤ) (hopen : db.InOpenRestore job.id) {e : ℤ}
    (he : (db.restamped days now job).expiresAt = some e) (hle : e ≤ now) :
    ∃ e', job.expiresAt = some e' ∧ e' ≤ now := by
  unfold RetentionDatabase.restamped at he
  cases days with
  | none =>
    dsimp only at he
    split at he
    · cases he
    · exact ⟨e, he, hle⟩
  | some days =>
    dsimp only at he
    split at he
    · rename_i hrestamps
      obtain ⟨-, -, ⟨e', he', hlt⟩ | hclosed⟩ := hrestamps
      · obtain rfl : job.createdAt + RetentionDatabase.daysInterval days = e := by simpa using he
        exact ⟨e', he', by omega⟩
      · exact absurd hopen hclosed
    · exact ⟨e, he, hle⟩

theorem restampScheduledBundles_spared (days : Option ℤ) (hopen : db.InOpenRestore id)
    (hsafe : Safe now bound id db) :
    Spared now bound id db (db.restampScheduledBundles days now) := by
  refine Spared.of_aging hsafe (Aging.of_dates (restamped_same days)) rfl ?_
  rintro job _ rfl
  exact ⟨(restamped_same days job).2.2.2, restamped_targetConfigId days job,
    fun e he hle => restamped_expiry days hopen he hle⟩

theorem broughtForward_of_open (keepLast : ℤ) (hopen : db.InOpenRestore job.id) :
    db.broughtForward keepLast now job = job := by
  unfold RetentionDatabase.broughtForward
  rw [if_neg fun hover => hover.2.2.2.2 hopen]

theorem broughtForward_same (keepLast : ℤ) (job : BackupJob) :
    (db.broughtForward keepLast now job).id = job.id ∧
      (db.broughtForward keepLast now job).tenantId = job.tenantId ∧
      (db.broughtForward keepLast now job).createdAt = job.createdAt ∧
      (db.broughtForward keepLast now job).status = job.status := by
  unfold RetentionDatabase.broughtForward
  split <;> exact ⟨rfl, rfl, rfl, rfl⟩

theorem markOverCount_spared (keepLast : Option ℤ) (hopen : db.InOpenRestore id)
    (hsafe : Safe now bound id db) : Spared now bound id db (db.markOverCount keepLast now) := by
  cases keepLast with
  | none => exact .refl hsafe
  | some keepLast =>
    refine Spared.of_aging hsafe (Aging.of_dates (broughtForward_same keepLast)) rfl ?_
    rintro job _ rfl
    rw [broughtForward_of_open keepLast hopen]
    exact ⟨rfl, rfl, fun e he hle => ⟨e, he, hle⟩⟩

theorem reclaimable_of_selected {tried : List String} {scan : String → ℕ}
    (hjob : job ∈ db.selectExpired now bound tried scan) (hfrozen : frozenOut db job = false) :
    job ∈ db.backupJobs ∧ db.Reclaimable now bound job := by
  obtain ⟨hmem, hexpiry, hstatus, hheld, htarget, -⟩ := mem_selectExpired db hjob
  exact ⟨hmem, ⟨hexpiry, hstatus, hheld, htarget, by simp⟩, hfrozen⟩

theorem expireCandidates_configurations (answers : SweepAnswers) (batch i : ℕ)
    (db : RetentionDatabase) (jobs : List BackupJob) :
    (expireCandidates answers batch i db jobs).1.backupConfigurations = db.backupConfigurations := by
  induction jobs generalizing i db with
  | nil => rfl
  | cons job jobs ih =>
    unfold expireCandidates
    split
    · rfl
    · rw [ih]
      rcases expireCandidate_cases db answers job with hsame | hmark
      · rw [hsame]
      · rw [hmark]
        rfl

theorem expireCandidates_spared (answers : SweepAnswers) (batch : ℕ) (tried : List String)
    (scan : String → ℕ) (hsafe : Safe now bound id db) : Spared now bound id db
      (expireCandidates answers batch 0 db (db.selectExpired now bound tried scan)).1 := by
  obtain ⟨ids, hids, hmarked⟩ :=
    expireCandidates_marked answers batch 0 db (db.selectExpired now bound tried scan)
  have hselected : ∀ job ∈ db.backupJobs, job.id ∈ ids → db.Reclaimable now bound job := by
    intro job hjob hid
    obtain ⟨c, hc, hcid, hfrozen⟩ := hids job.id hid
    obtain ⟨hmem, hreclaimable⟩ := reclaimable_of_selected hc hfrozen
    obtain rfl : c = job := List.inj_on_of_nodup_map db.jobKeys hmem hjob hcid
    exact hreclaimable
  have haging : Aging db.toCatalogue _ fun job =>
      if job.id ∈ ids then { job with status := .expired } else job := Aging.of_lost rfl hmarked.jobs
    hmarked.components hmarked.tenants hmarked.collation
    fun job hjob hid _ hheld => (hselected job hjob hid).1.2.2.1 hheld
  apply Spared.of_aging hsafe haging (expireCandidates_configurations _ _ _ _ _)
  rintro job hjob rfl
  have hnot : job.id ∉ ids := fun hid => hsafe job hjob rfl (hselected job hjob hid)
  rw [if_neg hnot]
  exact ⟨rfl, rfl, fun e he hle => ⟨e, he, hle⟩⟩

theorem not_mem_reclaimed_of_safe (answers : SweepAnswers) (batch : ℕ) (tried : List String)
    (scan : String → ℕ) (hsafe : Safe now bound id db) :
    id ∉ reclaimed answers batch db 0 (db.selectExpired now bound tried scan) := by
  intro hid
  obtain ⟨job, hjob, hjobId, hfrozen⟩ := mem_reclaimed hid
  obtain ⟨hmem, hreclaimable⟩ := reclaimable_of_selected hjob hfrozen
  exact hsafe job hmem hjobId hreclaimable

theorem expiryBatches_spared (answers : SweepAnswers) (hbound : answers.bound = bound) (left : ℕ)
    (db : RetentionDatabase) (tried : List String) (batch : ℕ) (hsafe : Safe now bound id db) :
    Spared now bound id db (expiryBatches answers now left db tried).1 ∧
      id ∉ sweepReclaimed answers batch (expiryBatches answers now left db tried).2 := by
  subst hbound
  induction left generalizing db tried batch with
  | zero => exact ⟨.refl hsafe, by simp [expiryBatches, sweepReclaimed]⟩
  | succ left ih =>
    have hhere := fun b b' => And.intro
      (expireCandidates_spared answers b tried (answers.scan b') hsafe)
      (not_mem_reclaimed_of_safe answers batch tried (answers.scan b') hsafe)
    unfold expiryBatches
    dsimp only
    split
    · exact ⟨.refl hsafe, by simp [sweepReclaimed]⟩
    · split
      · exact ⟨(hhere _ _).1, by simpa [sweepReclaimed] using (hhere 0 _).2⟩
      · obtain ⟨hrest, hnot⟩ := ih _ (tried ++ _) (batch + 1) (hhere _ _).1.safe
        refine ⟨(hhere _ _).1.trans fun _ => hrest, ?_⟩
        simp only [sweepReclaimed, List.mem_append, not_or]
        exact ⟨(hhere 0 _).2, hnot⟩

theorem failStuck_expired (cutoff : ℤ) {job' : BackupJob}
    (hjob' : job' ∈ (db.failStuck cutoff).backupJobs) (hexpired : job'.status = .expired) :
    job' ∈ db.backupJobs := by
  obtain ⟨job, hjob, rfl⟩ := List.mem_map.mp hjob'
  unfold RetentionDatabase.failedIfStuck at hexpired ⊢
  split at hexpired
  · cases hexpired
  · rename_i hstuck
    rw [if_neg hstuck]
    exact hjob

end Passes

section Sweeps

variable {db : RetentionDatabase} {job : BackupJob} {now : ℤ} {bound : BoundTenantTarget}

theorem sweep_spares_of_not_reclaimable (answers : SweepAnswers) (hjob : job ∈ db.backupJobs)
    (hopen : db.InOpenRestore job.id)
    (hnot : ¬ db.Reclaimable (timestamp answers.now) answers.bound job) :
    job.id ∉ sweepReclaimed answers 0 (runRetentionSweep db answers).2 ∧
      ∀ job' ∈ (runRetentionSweep db answers).1.backupJobs, job'.id = job.id →
        job'.status = .expired → job.status = .expired := by
  have hsafe : Safe (timestamp answers.now) answers.bound job.id db := by
    intro c hc hcid
    obtain rfl : c = job := List.inj_on_of_nodup_map db.jobKeys hc hjob hcid
    exact hnot
  have hstamped := (restampScheduledBundles_spared (effectiveRetention db.schedule).days hopen
    hsafe).trans (markOverCount_spared (effectiveRetention db.schedule).count hopen)
  obtain ⟨hexpired, hreclaimed⟩ := expiryBatches_spared answers rfl
    RetentionDatabase.expiryMaxBatches _ [] 0 hstamped.safe
  refine ⟨hreclaimed, ?_⟩
  intro job' hjob' hid hstatus
  have hmem := failStuck_expired _ hjob' hstatus
  obtain ⟨c, hc, hcid, hcstatus⟩ := (hstamped.trans fun _ => hexpired).statuses job' hmem hid
  obtain rfl : c = job := List.inj_on_of_nodup_map db.jobKeys hc hjob hcid
  exact hcstatus hstatus

def firstAnswers (now : ℤ) (bound : BoundTenantTarget) (id : String) : SweepAnswers where
  now := now
  bound := bound
  scan _ other := if other = id then 0 else 1
  outOfTime _ i := decide (0 < i)
  outOfTimeAfter _ := true
  deletes _ := true
  stuckCutoff := now

/-- The bundle that comes before all others is the first of a batch. -/
theorem selectExpired_first (db : RetentionDatabase) {tried : List String} (scan : String → ℕ)
    (hjob : job ∈ db.backupJobs) (hcandidate : db.ExpiryCandidate now bound tried job)
    (hscan : ∀ id, scan id ≤ scan job.id → id = job.id) :
    ∃ rest, db.selectExpired now bound tried scan = job :: rest := by
  have htotal : Std.Total fun a b : BackupJob => scan a.id ≤ scan b.id :=
    ⟨fun a b => Nat.le_total _ _⟩
  have htrans : IsTrans BackupJob fun a b => scan a.id ≤ scan b.id :=
    ⟨fun a b c => Nat.le_trans⟩
  unfold RetentionDatabase.selectExpired
  set jobs := db.backupJobs.filter fun job => db.ExpiryCandidate now bound tried job
  have hsorted := List.pairwise_insertionSort (fun a b : BackupJob => scan a.id ≤ scan b.id) jobs
  have hmem : ∀ c, c ∈ jobs.insertionSort (fun a b => scan a.id ≤ scan b.id) ↔ c ∈ jobs :=
    fun c => List.mem_insertionSort _
  have hin : job ∈ jobs := by simp [jobs, hjob, hcandidate]
  cases hlist : jobs.insertionSort fun a b => scan a.id ≤ scan b.id with
  | nil =>
    rw [← hmem, hlist] at hin
    cases hin
  | cons c rest =>
    rw [← hmem, hlist] at hin
    rw [hlist] at hsorted
    have hle : scan c.id ≤ scan job.id := by
      rcases List.mem_cons.mp hin with rfl | hrest
      · exact le_refl _
      · exact (List.pairwise_cons.mp hsorted).1 job hrest
    have hc : c ∈ jobs := by rw [← hmem, hlist]; exact List.mem_cons_self
    obtain rfl : c = job :=
      List.inj_on_of_nodup_map db.jobKeys (List.mem_of_mem_filter hc) hjob (hscan _ hle)
    exact ⟨rest.take 49, rfl⟩

theorem heldPastExpiry_of_dates {db : Catalogue} {f : BackupJob → BackupJob}
    (h : ∀ job, (f job).id = job.id ∧ (f job).tenantId = job.tenantId ∧
      (f job).createdAt = job.createdAt ∧ (f job).status = job.status) {a : BackupJob}
    (hheld : (db.updateJobs f fun job => (h job).1).HeldPastExpiry (f a)) : db.HeldPastExpiry a := by
  unfold Catalogue.HeldPastExpiry Catalogue.updateJobs Catalogue.Newer at hheld
  simpa [h, Catalogue.HeldPastExpiry, Catalogue.Newer] using hheld

/-- A bundle past its expiry stays past it, and can be expired after the dates moved as before. -/
theorem reclaimable_after_dates (db : RetentionDatabase) {f : BackupJob → BackupJob}
    (h : ∀ job, (f job).id = job.id ∧ (f job).tenantId = job.tenantId ∧
      (f job).createdAt = job.createdAt ∧ (f job).status = job.status)
    (hjob : job ∈ db.backupJobs) (hsame : f job = job)
    (hreclaimable : db.Reclaimable now bound job) :
    let db' := { db with toCatalogue := db.toCatalogue.updateJobs f fun job => (h job).1 }
    job ∈ db'.backupJobs ∧ db'.Reclaimable now bound job := by
  obtain ⟨⟨hexpiry, hstatus, hheld, hrest⟩, hfrozen⟩ := hreclaimable
  refine ⟨?_, ⟨hexpiry, hstatus, ?_, hrest⟩, hfrozen⟩
  · rw [← hsame]
    exact List.mem_map_of_mem hjob
  · intro hheld'
    rw [← hsame] at hheld'
    exact hheld (heldPastExpiry_of_dates h hheld')

/-- What could be expired when the sweep began can be expired when its expiry pass begins. -/
theorem reclaimable_stamped (policy : RetentionPolicy) (hjob : job ∈ db.backupJobs)
    (hreclaimable : db.Reclaimable now bound job) :
    job ∈ ((db.restampScheduledBundles policy.days now).markOverCount policy.count now).backupJobs ∧
      ((db.restampScheduledBundles policy.days now).markOverCount policy.count now).Reclaimable now
        bound job := by
  obtain ⟨e, he, hle⟩ := hreclaimable.1.1
  have hexpired : ¬ RetentionDatabase.Unexpired now job := by
    rintro (hnone | ⟨e', he', hlt⟩)
    · rw [he] at hnone
      cases hnone
    · rw [he] at he'
      cases he'
      omega
  have hrestamped : db.restamped policy.days now job = job := by
    unfold RetentionDatabase.restamped
    split
    · rw [if_neg fun h => hexpired h.1.2.2.2.1]
    · rw [if_neg fun h => hexpired h.1.2.2.2.1]
  obtain ⟨hmem, hstill⟩ := reclaimable_after_dates db (restamped_same policy.days) hjob hrestamped
    hreclaimable
  cases policy.count with
  | none => exact ⟨hmem, hstill⟩
  | some keepLast =>
    have hforward : (db.restampScheduledBundles policy.days now).broughtForward keepLast now job =
        job := by
      unfold RetentionDatabase.broughtForward
      rw [if_neg fun h => hexpired h.2.2.1]
    exact reclaimable_after_dates (db.restampScheduledBundles policy.days now)
      (broughtForward_same keepLast) hmem hforward hstill

theorem expireCandidates_first (db : RetentionDatabase) (answers : SweepAnswers) (job : BackupJob)
    (rest : List BackupJob) (hfirst : ∀ b i, answers.outOfTime b i = decide (0 < i)) (batch : ℕ) :
    (expireCandidates answers batch 0 db (job :: rest)).1 = expireCandidate answers db job := by
  unfold expireCandidates
  rw [hfirst, if_neg (by simp)]
  cases rest with
  | nil => rfl
  | cons c rest =>
    unfold expireCandidates
    rw [hfirst, if_pos (by simp)]

theorem expired_of_firstAnswers (hjob : job ∈ db.backupJobs)
    (hreclaimable : db.Reclaimable (timestamp now) bound job) :
    { job with status := .expired } ∈
      (runRetentionSweep db (firstAnswers now bound job.id)).1.backupJobs := by
  obtain ⟨hmem, hcandidate, hfrozen⟩ :=
    reclaimable_stamped (effectiveRetention db.schedule) hjob hreclaimable
  set stamped := (db.restampScheduledBundles (effectiveRetention db.schedule).days
    (timestamp now)).markOverCount (effectiveRetention db.schedule).count (timestamp now)
  obtain ⟨rest, hfirst⟩ := selectExpired_first stamped
    ((firstAnswers now bound job.id).scan 0) hmem hcandidate (by
      intro id hid
      by_contra hne
      simp [firstAnswers, hne] at hid)
  have hmark : expireCandidate (firstAnswers now bound job.id) stamped job =
      stamped.markExpired job.id := by
    unfold expireCandidate
    by_cases htarget : truthy job.targetConfigId = false
    · rw [if_pos htarget]
    · have hnot : stamped.frozen job.targetConfigId = false := by
        simpa [frozenOut, htarget] using hfrozen
      rw [if_neg htarget, if_neg (by simp [hnot])]
      rfl
  have hswept : (expiryBatches (firstAnswers now bound job.id) (timestamp now)
      RetentionDatabase.expiryMaxBatches stamped []).1 = stamped.markExpired job.id := by
    have hbatch := expireCandidates_first stamped (firstAnswers now bound job.id) job rest
      (fun _ _ => rfl) 0
    rw [hmark, ← hfirst] at hbatch
    have hcandidates : (stamped.selectExpired (timestamp now) (firstAnswers now bound job.id).bound []
        ((firstAnswers now bound job.id).scan 0)).isEmpty = false := by
      rw [show (firstAnswers now bound job.id).bound = bound from rfl, hfirst]
      rfl
    unfold RetentionDatabase.expiryMaxBatches expiryBatches
    dsimp only
    rw [show RetentionDatabase.expiryMaxBatches - (19 + 1) = 0 from rfl, hcandidates,
      if_neg (by simp), if_pos (by simp [firstAnswers])]
    exact hbatch
  unfold runRetentionSweep
  dsimp only
  rw [show (firstAnswers now bound job.id).now = now from rfl, hswept]
  have hrow : { job with status := .expired } ∈ (stamped.markExpired job.id).backupJobs := by
    refine List.mem_map.mpr ⟨job, hmem, ?_⟩
    unfold RetentionDatabase.expired
    rw [if_pos rfl]
  refine List.mem_map.mpr ⟨_, hrow, ?_⟩
  unfold RetentionDatabase.failedIfStuck
  rw [if_neg (by simp)]

/-- A sweep spares the bundles of open restores, whatever it meets on its way, exactly when none of
them is past its expiry, not held and within its reach. -/
theorem open_restores_kept_iff (db : RetentionDatabase) (now : ℤ) (bound : BoundTenantTarget) :
    (∀ answers : SweepAnswers, answers.now = now → answers.bound = bound →
      OpenRestoresKept db answers) ↔ ∀ job ∈ db.backupJobs, db.InOpenRestore job.id →
      ¬ db.Reclaimable (timestamp now) bound job := by
  constructor
  · intro hkept job hjob hopen hreclaimable
    have hexpired := (hkept (firstAnswers now bound job.id) rfl rfl job hjob hopen).2 _
      (expired_of_firstAnswers hjob hreclaimable) rfl rfl
    obtain hstatus | hstatus | hstatus := hreclaimable.1.2.1
    · rw [hstatus] at hexpired
      cases hexpired
    · rw [hstatus] at hexpired
      cases hexpired
    · rw [hstatus] at hexpired
      cases hexpired
  · rintro hnot answers rfl rfl job hjob hopen
    exact sweep_spares_of_not_reclaimable answers hjob hopen (hnot job hjob hopen)

end Sweeps

section OneDraft

theorem noComponents_keys : (([] : List BackupComponent).map BackupComponent.id).Nodup :=
  List.nodup_nil

def draftedDb : RetentionDatabase where
  collation := .codePoint
  tenants := [{ id := "acme", status := .active }]
  backupJobs :=
    [{ nightly "bkp-june" 1780272000000000 with status := .completed },
      { nightly "bkp-july" 1782777600000000 with status := .completed }]
  backupComponents := []
  backupConfigurations := []
  jobKeys := by decide
  componentKeys := noComponents_keys
  restoreJobs := [{ id := "rst-1", status := .draft }]
  restoreItems := [{ restoreJobId := "rst-1", bundleId := "bkp-june" }]
  schedule := some { retentionDays := some 14, retentionCount := none }

/-- The bundle of a restore that is still open is expired when its day comes. -/
theorem draft_restore_loses_bundle : draftedDb.InOpenRestore "bkp-june" ∧
      sweepReclaimed julyAnswers 0 (runRetentionSweep draftedDb julyAnswers).2 = ["bkp-june"] ∧
      ¬ OpenRestoresKept draftedDb julyAnswers := by
  have hopen : draftedDb.InOpenRestore "bkp-june" := by decide
  have hreclaimed : sweepReclaimed julyAnswers 0 (runRetentionSweep draftedDb julyAnswers).2 =
      ["bkp-june"] := by rfl
  refine ⟨hopen, hreclaimed, ?_⟩
  intro hkept
  have hnot := (hkept _ List.mem_cons_self hopen).1
  rw [hreclaimed] at hnot
  exact hnot List.mem_cons_self

end OneDraft

end Insula.TenantBundles
