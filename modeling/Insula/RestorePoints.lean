import Insula.BundleRetention
import Mathlib.Data.Fintype.Order

/-!
# A tenant keeps its restore points

A sweep never expires a bundle that is held. The passes before the expiry move only dates, on which
no hold depends, and what a batch expires it did not find held; so a bundle that is held when the
sweep begins is held at each of its batches. The newest restorable bundle of a tenant that is
active, pending or suspended is held, and so is, for each component, the newest of its restorable
bundles with a completed copy of it.
-/

namespace Insula.TenantBundles

namespace Catalogue

variable (db : Catalogue) {tenantId : String}

theorem newer_irrefl (a : BackupJob) : ¬ db.Newer a a := by
  simp [Newer, db.collation.irrefl]

theorem newer_trans {a b c : BackupJob} (hab : db.Newer a b) (hbc : db.Newer b c) :
    db.Newer a c := by
  rcases hab with hab | ⟨heq, hid⟩
  · rcases hbc with hbc | ⟨heq', hid'⟩
    · exact .inl (by omega)
    · exact .inl (by omega)
  · rcases hbc with hbc | ⟨heq', hid'⟩
    · exact .inl (by omega)
    · exact .inr ⟨by omega, db.collation.trans _ _ _ hid' hid⟩

/-- Among some bundles there is one that none of them is newer than. -/
theorem exists_newest {p : BackupJob → Prop} (h : ∃ job ∈ db.backupJobs, p job) :
    ∃ job ∈ db.backupJobs, p job ∧ ∀ n ∈ db.backupJobs, p n → ¬ db.Newer n job := by
  let newer : {job // job ∈ db.backupJobs} → {job // job ∈ db.backupJobs} → Prop :=
    fun a b => db.Newer a.1 b.1
  have : IsTrans _ newer := ⟨fun _ _ _ => db.newer_trans⟩
  have : Std.Irrefl newer := ⟨fun a => db.newer_irrefl a.1⟩
  have : Finite {job // job ∈ db.backupJobs} := db.backupJobs.finite_toSet
  obtain ⟨job, hjob, hp⟩ := h
  obtain ⟨top, htop, hmin⟩ := (Finite.wellFounded_of_trans_of_irrefl newer).has_min
    {a | p a.1} ⟨⟨job, hjob⟩, hp⟩
  exact ⟨top.1, top.2, htop, fun n hn hpn => hmin ⟨n, hn⟩ hpn⟩

/-- The tenant is there and neither archived nor deleted. -/
def Kept (tenantId : String) : Prop :=
  ∃ t ∈ db.tenants, t.id = tenantId ∧ t.status ≠ .archived

def RestorePoint (tenantId : String) (job : BackupJob) : Prop :=
  job.tenantId = tenantId ∧ job.status.restorable = true

def CompletedCopy (tenantId : String) (component : BackupComponentName) (job : BackupJob) : Prop :=
  RestorePoint tenantId job ∧ ∃ c ∈ db.backupComponents,
    c.backupJobId = job.id ∧ c.component = component ∧ c.status = .completed

def IsNewest (p : BackupJob → Prop) (job : BackupJob) : Prop :=
  job ∈ db.backupJobs ∧ p job ∧ ∀ n ∈ db.backupJobs, p n → ¬ db.Newer n job

theorem kept_cases (h : db.Kept tenantId) :
    (∃ t ∈ db.tenants, t.id = tenantId ∧ t.status = .suspended) ∨
      ∃ t ∈ db.tenants, t.id = tenantId ∧ (t.status = .active ∨ t.status = .pending) := by
  obtain ⟨t, ht, hid, hstatus⟩ := h
  cases hs : t.status with
  | active => exact .inr ⟨t, ht, hid, .inl hs⟩
  | suspended => exact .inl ⟨t, ht, hid, hs⟩
  | archived => exact absurd hs hstatus
  | pending => exact .inr ⟨t, ht, hid, .inr hs⟩

theorem heldPastExpiry_of_newest (hkept : db.Kept tenantId) {job : BackupJob}
    (h : db.IsNewest (RestorePoint tenantId) job) : db.HeldPastExpiry job := by
  obtain ⟨-, ⟨rfl, hrestorable⟩, hnewest⟩ := h
  rcases db.kept_cases hkept with hsuspended | hlive
  · exact .inl hsuspended
  · refine .inr ⟨hrestorable, hlive, .inl ?_⟩
    rintro ⟨n, hn, htenant, hres, hnewer⟩
    exact hnewest n hn ⟨htenant, hres⟩ hnewer

theorem heldPastExpiry_of_newest_copy (hkept : db.Kept tenantId) {component : BackupComponentName}
    {job : BackupJob} (h : db.IsNewest (db.CompletedCopy tenantId component) job) :
    db.HeldPastExpiry job := by
  obtain ⟨-, ⟨⟨rfl, hrestorable⟩, c, hc, hjob, rfl, hcompleted⟩, hnewest⟩ := h
  rcases db.kept_cases hkept with hsuspended | hlive
  · exact .inl hsuspended
  · refine .inr ⟨hrestorable, hlive, .inr ⟨c, hc, hjob, hcompleted, ?_⟩⟩
    rintro ⟨m, hm, mc, hmc, hmjob, htenant, hres, hnewer, hcomponent, hmcompleted⟩
    exact hnewest m hm ⟨⟨htenant, hres⟩, mc, hmc, hmjob, hcomponent, hmcompleted⟩ hnewer

end Catalogue

/-- The tables after bundles have only aged: dates moved and statuses lost, but no bundle that was
held lost its own. -/
structure Aging (db db' : Catalogue) (f : BackupJob → BackupJob) : Prop where
  jobs : db'.backupJobs = db.backupJobs.map f
  components : db'.backupComponents = db.backupComponents
  tenants : db'.tenants = db.tenants
  collation : db'.collation = db.collation
  id : ∀ job, (f job).id = job.id
  tenantId : ∀ job, (f job).tenantId = job.tenantId
  createdAt : ∀ job, (f job).createdAt = job.createdAt
  lost : ∀ job, (f job).status.restorable = true → job.status.restorable = true
  held : ∀ job ∈ db.backupJobs, job.status.restorable = true → db.HeldPastExpiry job →
    (f job).status = job.status

namespace Aging

variable {db db' db'' : Catalogue} {f g : BackupJob → BackupJob}

theorem newer (h : Aging db db' f) {n a : BackupJob} : db'.Newer (f n) (f a) ↔ db.Newer n a := by
  simp [Catalogue.Newer, h.createdAt, h.id, h.collation]

/-- A hold outlives what has only aged. -/
theorem heldPastExpiry (h : Aging db db' f) {a : BackupJob} (hstatus : (f a).status = a.status)
    (hheld : db.HeldPastExpiry a) : db'.HeldPastExpiry (f a) := by
  unfold Catalogue.HeldPastExpiry
  rw [h.tenants, h.tenantId, hstatus, h.components, h.id, h.jobs]
  rcases hheld with hsuspended | ⟨hrestorable, hlive, hnewest⟩
  · exact .inl hsuspended
  · refine .inr ⟨hrestorable, hlive, ?_⟩
    rcases hnewest with hnone | ⟨c, hc, hjob, hcompleted, hnone⟩
    · left
      rintro ⟨n', hn', htenant, hres, hnewer⟩
      obtain ⟨n, hn, rfl⟩ := List.mem_map.mp hn'
      exact hnone ⟨n, hn, (h.tenantId n).symm.trans htenant, h.lost n hres, h.newer.mp hnewer⟩
    · refine .inr ⟨c, hc, hjob, hcompleted, ?_⟩
      rintro ⟨m', hm', mc, hmc, hmjob, htenant, hres, hnewer, hcomponent⟩
      obtain ⟨m, hm, rfl⟩ := List.mem_map.mp hm'
      exact hnone ⟨m, hm, mc, hmc, hmjob.trans (h.id m), (h.tenantId m).symm.trans htenant,
        h.lost m hres, h.newer.mp hnewer, hcomponent⟩

theorem trans (h : Aging db db' f) (h' : Aging db' db'' g) : Aging db db'' (g ∘ f) where
  jobs := by rw [h'.jobs, h.jobs, List.map_map]
  components := h'.components.trans h.components
  tenants := h'.tenants.trans h.tenants
  collation := h'.collation.trans h.collation
  id job := (h'.id (f job)).trans (h.id job)
  tenantId job := (h'.tenantId (f job)).trans (h.tenantId job)
  createdAt job := (h'.createdAt (f job)).trans (h.createdAt job)
  lost job hres := h.lost job (h'.lost (f job) hres)
  held := by
    intro job hjob hres hheld
    have hstatus := h.held job hjob hres hheld
    have hmem : f job ∈ db'.backupJobs := by
      rw [h.jobs]
      exact List.mem_map_of_mem hjob
    have hlater := h'.held (f job) hmem (by rw [hstatus]; exact hres)
      (h.heldPastExpiry hstatus hheld)
    exact hlater.trans hstatus

/-- Rows that keep all but their dates have only aged. -/
theorem of_dates {f : BackupJob → BackupJob}
    (h : ∀ job, (f job).id = job.id ∧ (f job).tenantId = job.tenantId ∧
      (f job).createdAt = job.createdAt ∧ (f job).status = job.status) :
    Aging db (db.updateJobs f fun job => (h job).1) f where
  jobs := rfl
  components := rfl
  tenants := rfl
  collation := rfl
  id job := (h job).1
  tenantId job := (h job).2.1
  createdAt job := (h job).2.2.1
  lost job hres := by
    rw [(h job).2.2.2] at hres
    exact hres
  held job _ _ _ := (h job).2.2.2

theorem of_lost {p : BackupJob → Prop} [DecidablePred p] {status : BackupJobStatus}
    (hstatus : status.restorable = false) (hjobs : db'.backupJobs =
      db.backupJobs.map fun job => if p job then { job with status := status } else job)
    (hcomponents : db'.backupComponents = db.backupComponents) (htenants : db'.tenants = db.tenants)
    (hcollation : db'.collation = db.collation)
    (hheld : ∀ job ∈ db.backupJobs, p job → job.status.restorable = true →
      ¬ db.HeldPastExpiry job) :
    Aging db db' fun job => if p job then { job with status := status } else job where
  jobs := hjobs
  components := hcomponents
  tenants := htenants
  collation := hcollation
  id job := by
    by_cases hp : p job <;> simp [hp]
  tenantId job := by
    by_cases hp : p job <;> simp [hp]
  createdAt job := by
    by_cases hp : p job <;> simp [hp]
  lost job hres := by
    by_cases hp : p job
    · simp [hp, hstatus] at hres
    · simpa [hp] using hres
  held job hjob hres hhold := by
    have hp : ¬ p job := fun hp => hheld job hjob hp hres hhold
    simp [hp]

end Aging

def Aged (db db' : Catalogue) : Prop := ∃ f, Aging db db' f

theorem Aged.refl (db : Catalogue) : Aged db db :=
  ⟨id, by simp, rfl, rfl, rfl, fun _ => rfl, fun _ => rfl, fun _ => rfl, fun _ h => h,
    fun _ _ _ _ => rfl⟩

theorem Aged.trans {db db' db'' : Catalogue} (h : Aged db db') (h' : Aged db' db'') :
    Aged db db'' := by
  obtain ⟨f, hf⟩ := h
  obtain ⟨g, hg⟩ := h'
  exact ⟨g ∘ f, hf.trans hg⟩

section Passes

open RetentionDatabase

variable (db : RetentionDatabase) {now : ℤ} {bound : BoundTenantTarget} {tried : List String}
  {scan : String → ℕ} {job : BackupJob}

theorem restampScheduledBundles_aged (days : Option ℤ) (now : ℤ) :
    Aged db.toCatalogue (db.restampScheduledBundles days now).toCatalogue := by
  refine ⟨_, Aging.of_dates ?_⟩
  intro job
  unfold restamped
  split <;> split <;> exact ⟨rfl, rfl, rfl, rfl⟩

theorem markOverCount_aged (keepLast : Option ℤ) (now : ℤ) :
    Aged db.toCatalogue (db.markOverCount keepLast now).toCatalogue := by
  cases keepLast with
  | none => exact .refl _
  | some keepLast =>
    refine ⟨_, Aging.of_dates ?_⟩
    intro job
    unfold broughtForward
    split <;> exact ⟨rfl, rfl, rfl, rfl⟩

theorem failStuck_aged (cutoff : ℤ) : Aged db.toCatalogue (db.failStuck cutoff).toCatalogue := by
  have hlost : BackupJobStatus.failed.restorable = false := rfl
  refine ⟨_, Aging.of_lost hlost rfl rfl rfl rfl ?_⟩
  rintro job _ ⟨hrunning, -⟩ hres
  rw [hrunning] at hres
  cases hres

theorem mem_selectExpired (h : job ∈ db.selectExpired now bound tried scan) :
    job ∈ db.backupJobs ∧ db.ExpiryCandidate now bound tried job := by
  have hsorted := List.mem_of_mem_take h
  rw [List.mem_insertionSort, List.mem_filter, decide_eq_true_eq] at hsorted
  exact hsorted

theorem not_bundleIsLive_of_mem_selectExpired {later : ℤ}
    (h : job ∈ db.selectExpired now bound tried scan) (hlater : now ≤ later) :
    ¬ db.BundleIsLive later job := by
  obtain ⟨-, ⟨e, he, hle⟩, -, hheld, -⟩ := mem_selectExpired db h
  rintro ⟨-, hnone | ⟨e', he', hlt⟩ | hheld'⟩
  · rw [he] at hnone
    cases hnone
  · have heq : e = e' := Option.some.inj (he.symm.trans he')
    omega
  · exact hheld hheld'

def expiredAmong (ids : List String) (job : BackupJob) : BackupJob :=
  if job.id ∈ ids then { job with status := .expired } else job

/-- The tables after the bundles with these ids were marked expired. -/
structure MarkedExpired (db db' : Catalogue) (ids : List String) : Prop where
  jobs : db'.backupJobs = db.backupJobs.map (expiredAmong ids)
  components : db'.backupComponents = db.backupComponents
  tenants : db'.tenants = db.tenants
  collation : db'.collation = db.collation

theorem MarkedExpired.aged {db db' : Catalogue} {ids : List String} (h : MarkedExpired db db' ids)
    (hheld : ∀ job ∈ db.backupJobs, job.id ∈ ids → ¬ db.HeldPastExpiry job) : Aged db db' := by
  have hlost : BackupJobStatus.expired.restorable = false := rfl
  refine ⟨_, Aging.of_lost hlost h.jobs h.components h.tenants h.collation ?_⟩
  intro job hjob hid _
  exact hheld job hjob hid

theorem expiredAmong_cons (id : String) (ids : List String) (job : BackupJob) :
    expiredAmong ids (expired id job) = expiredAmong (id :: ids) job := by
  unfold expiredAmong expired
  by_cases hid : job.id = id
  · by_cases hids : id ∈ ids
    · simp [hid, hids]
    · simp [hid, hids]
  · simp [hid]

/-- A bundle of a batch is left as it is or marked. -/
theorem expireCandidate_cases (answers : SweepAnswers) (job : BackupJob) :
    expireCandidate answers db job = db ∨ expireCandidate answers db job = db.markExpired job.id := by
  unfold expireCandidate
  split
  · exact .inr rfl
  · split
    · exact .inl rfl
    · split
      · exact .inr rfl
      · exact .inl rfl

def frozenOut (db : RetentionDatabase) (job : BackupJob) : Bool :=
  Javascript.truthy job.targetConfigId && db.frozen job.targetConfigId

/-- A bundle that the expiry pass marks is not on a frozen target. -/
theorem expireCandidate_frozenOut (answers : SweepAnswers) (h : frozenOut db job = true) :
    expireCandidate answers db job = db := by
  obtain ⟨htarget, hfrozen⟩ :
      Javascript.truthy job.targetConfigId = true ∧ db.frozen job.targetConfigId = true :=
    by simpa [frozenOut] using h
  unfold expireCandidate
  rw [if_neg (by simp [htarget]), if_pos hfrozen]

theorem frozenOut_expireCandidate (answers : SweepAnswers) (job : BackupJob) :
    frozenOut (expireCandidate answers db job) = frozenOut db := by
  rcases expireCandidate_cases db answers job with hsame | hmark
  · rw [hsame]
  · rw [hmark]
    rfl

/-- A batch marks some of the bundles that were selected, none of them on a frozen target, and
changes nothing else. -/
theorem expireCandidates_marked (answers : SweepAnswers) (batch i : ℕ) (db : RetentionDatabase)
    (jobs : List BackupJob) :
    ∃ ids, (∀ id ∈ ids, ∃ job ∈ jobs, job.id = id ∧ frozenOut db job = false) ∧
      MarkedExpired db.toCatalogue (expireCandidates answers batch i db jobs).1.toCatalogue ids := by
  have hnone : ∀ db : RetentionDatabase, MarkedExpired db.toCatalogue db.toCatalogue [] := by
    intro db
    have hid : expiredAmong [] = id := by
      funext job
      simp [expiredAmong]
    exact ⟨by rw [hid, List.map_id], rfl, rfl, rfl⟩
  induction jobs generalizing i db with
  | nil => exact ⟨[], by simp, hnone db⟩
  | cons job jobs ih =>
    unfold expireCandidates
    split
    · exact ⟨[], by simp, hnone db⟩
    · obtain ⟨ids, hids, hmarked⟩ := ih (i + 1) (expireCandidate answers db job)
      rw [frozenOut_expireCandidate] at hids
      have hrest : ∀ id ∈ ids, ∃ c ∈ job :: jobs, c.id = id ∧ frozenOut db c = false := by
        intro id hid
        obtain ⟨c, hc, hcid⟩ := hids id hid
        exact ⟨c, List.mem_cons_of_mem _ hc, hcid⟩
      by_cases hfrozen : frozenOut db job = true
      · rw [expireCandidate_frozenOut db answers hfrozen] at hmarked ⊢
        exact ⟨ids, hrest, hmarked⟩
      rcases expireCandidate_cases db answers job with hsame | hmark
      · rw [hsame] at hmarked ⊢
        exact ⟨ids, hrest, hmarked⟩
      · rw [hmark] at hmarked ⊢
        refine ⟨job.id :: ids, ?_, ?_, hmarked.components, hmarked.tenants, hmarked.collation⟩
        · intro id hid
          rcases List.mem_cons.mp hid with rfl | hid
          · exact ⟨job, List.mem_cons_self, rfl, by simpa using hfrozen⟩
          · exact hrest id hid
        · have hjobs : (db.markExpired job.id).backupJobs = db.backupJobs.map (expired job.id) := rfl
          rw [hmarked.jobs, hjobs, List.map_map]
          apply List.map_congr_left
          intro row _
          exact expiredAmong_cons job.id ids row

theorem expireCandidates_aged (answers : SweepAnswers) (batch : ℕ) :
    Aged db.toCatalogue (expireCandidates answers batch 0 db
      (db.selectExpired now bound tried scan)).1.toCatalogue := by
  obtain ⟨ids, hids, hmarked⟩ :=
    expireCandidates_marked answers batch 0 db (db.selectExpired now bound tried scan)
  apply hmarked.aged
  intro job hjob hid hheld
  obtain ⟨c, hc, hcid, -⟩ := hids job.id hid
  obtain ⟨hmem, hcandidate⟩ := mem_selectExpired db hc
  obtain rfl : c = job := List.inj_on_of_nodup_map db.jobKeys hmem hjob hcid
  exact hcandidate.2.2.1 hheld

theorem expiryBatches_aged (answers : SweepAnswers) (now : ℤ) (left : ℕ) (db : RetentionDatabase)
    (tried : List String) :
    Aged db.toCatalogue (expiryBatches answers now left db tried).1.toCatalogue := by
  induction left generalizing db tried with
  | zero => exact .refl _
  | succ left ih =>
    unfold expiryBatches
    dsimp only
    split
    · exact .refl _
    · split
      · exact expireCandidates_aged db answers _
      · exact (expireCandidates_aged db answers _).trans (ih _ _)

/-- A whole sweep takes no bundle that is held. -/
theorem runRetentionSweep_aged (answers : SweepAnswers) :
    Aged db.toCatalogue (runRetentionSweep db answers).1.toCatalogue := by
  have hstamped := (restampScheduledBundles_aged db (effectiveRetention db.schedule).days
    (timestamp answers.now)).trans (markOverCount_aged _ (effectiveRetention db.schedule).count
      (timestamp answers.now))
  have hexpired := hstamped.trans (expiryBatches_aged answers (timestamp answers.now)
    expiryMaxBatches _ [])
  exact hexpired.trans (failStuck_aged _ _)

end Passes

end Insula.TenantBundles
