import Insula.ResticCaptures

/-!
# What a stamp of the sweep is worth

The sweep judges the rows by a listing that is older than the rows. A row whose snapshot was written
and recorded after the listing is stamped with its snapshot in the repository. Otherwise a stamp
says what it should: the snapshot is gone. The invariant carries, along a visit, that the listing
has every snapshot of the repository that a row under judgement names.
-/

namespace Insula.TenantBundles.Reclaiming

open Lookup Transition

def State.Records (s : State) (bj : BackupJob) (bc : BackupComponent) (id : String) : Prop :=
  bj ∈ s.db.backupJobs ∧ bc ∈ s.db.backupComponents ∧ bc.backupJobId = bj.id ∧ bc.sha256 = some id

def StampedAreGone (s : State) : Prop :=
  ∀ bj bc id, s.Records bj bc id → bc.snapshotReclaimedAt ≠ none → ¬ s.Holds (repositoryOf bj bc) id

structure Sound (s : State) : Prop where
  settled : StampedAreGone s
  recorded : ∀ bj bc id, s.Records bj bc id → id ∈ s.issued
  held : ∀ name id, s.Holds name id → id ∈ s.issued
  written : ∀ (i : ℕ) c, s.captures[i]? = some c → ∀ id ∈ c.written, id ∈ s.issued
  pending : ∀ (i : ℕ) c, s.captures[i]? = some c → c.phase = .capturing →
    ∀ bc ∈ s.db.backupComponents, bc.id = c.rowId →
      bc.sha256 = none ∧ bc.snapshotReclaimedAt = none
  ownRow : ∀ (i : ℕ) c, s.captures[i]? = some c → ∀ bc ∈ s.db.backupComponents, bc.id = c.rowId →
    bc.backupJobId = c.bundleId ∧ bc.component = c.component
  ownBundle : ∀ (i : ℕ) c, s.captures[i]? = some c → ∀ bj ∈ s.db.backupJobs, bj.id = c.bundleId →
    bj.tenantId = c.tenantId ∧ normaliseRepoLayout bj.repoLayout = c.layout
  distinct : ∀ (i j : ℕ) c c', s.captures[i]? = some c → s.captures[j]? = some c' →
    c.rowId = c'.rowId → i = j

/-- The listing has what the rows under judgement name of the repository. -/
def Lists (s : State) (visit : Visit) (snapshots : List Snapshot) : Prop :=
  (∀ snap ∈ snapshots, snap.id ∈ s.issued) ∧
    ∀ bj bc id, s.Records bj bc id → bc.component.text = visit.row.component →
      repositoryOf bj bc = visit.repository → s.Holds visit.repository id →
      id ∈ snapshots.map Snapshot.id

/-- What the restic rows of the selected bundles name is gone. -/
def Selected (s : State) (ids : List String) : Prop :=
  ∀ bj bc id, s.Records bj bc id → bc.backupJobId ∈ ids →
    (bc.component = .files ∨ bc.component = .mailboxes) → ¬ s.Holds (repositoryOf bj bc) id

/-- What the sweep may rely on in each of its phases. -/
def Going (s : State) : Prop :=
  match s.sweep with
  | .planned visit snapshots plan =>
    Lists s visit snapshots ∧ ∀ snap ∈ snapshots, snap.id ∈ plan.keep ∨ snap.id ∈ plan.forget
  | .reconciling visit snapshots stillPresent =>
    Lists s visit snapshots ∧
      ∀ snap ∈ snapshots, s.Holds visit.repository snap.id → snap.id ∈ stillPresent
  | .judged gone =>
    (∀ id ∈ gone, ∃ bc ∈ s.db.backupComponents, bc.id = id ∧ bc.sha256 ≠ none) ∧
      ∀ bj bc id, s.Records bj bc id → bc.id ∈ gone → ¬ s.Holds (repositoryOf bj bc) id
  | .purging ids => Selected s ids
  | _ => True

/-- What the rows that were judged name is gone. -/
def Judged (s : State) (gone : List String) : Prop :=
  (∀ id ∈ gone, ∃ bc ∈ s.db.backupComponents, bc.id = id ∧ bc.sha256 ≠ none) ∧
    ∀ bj bc id, s.Records bj bc id → bc.id ∈ gone → ¬ s.Holds (repositoryOf bj bc) id

variable {s : State} {id : String} {ids : List String} {name : RepositoryName}

/-- A change outside the sweep, which leaves a listing and a judgement as good as they were. -/
theorem Going.frame {t : State} (hg : Going s) (hsweep : t.sweep = s.sweep)
    (hlists : ∀ visit snapshots, s.sweep.listing = some (visit, snapshots) →
      Lists s visit snapshots → Lists t visit snapshots ∧
        ∀ snap ∈ snapshots, t.Holds visit.repository snap.id → s.Holds visit.repository snap.id)
    (hjudged : ∀ gone, Judged s gone → Judged t gone)
    (hselected : ∀ ids, s.sweep = .purging ids → Selected s ids → Selected t ids) : Going t := by
  unfold Going at hg ⊢
  rw [hsweep]
  cases hsw : s.sweep with
  | between => trivial
  | asked _ _ _ => trivial
  | remembered _ _ _ _ => trivial
  | planned visit snapshots plan =>
    rw [hsw] at hg
    exact ⟨(hlists visit snapshots (by rw [hsw]; rfl) hg.1).1, hg.2⟩
  | reconciling visit snapshots stillPresent =>
    rw [hsw] at hg
    obtain ⟨hl, hholds⟩ := hlists visit snapshots (by rw [hsw]; rfl) hg.1
    exact ⟨hl, fun snap hsnap h => hg.2 snap hsnap (hholds snap hsnap h)⟩
  | judged gone =>
    rw [hsw] at hg
    exact hjudged gone hg
  | purging ids =>
    rw [hsw] at hg
    exact hselected ids hsw hg

/-! ## The condition -/

def Capture.Listed (s : State) (i : ℕ) (id : String) : Prop :=
  match s.sweep.listing, s.captures[i]? with
  | some (visit, snapshots), some c =>
    c.component.text = visit.row.component → c.repository = visit.repository →
      id ∈ snapshots.map Snapshot.id
  | _, _ => True

instance (s : State) (i : ℕ) (id : String) : Decidable (Capture.Listed s i id) := by
  unfold Capture.Listed
  split <;> infer_instance

def Capture.Unselected (s : State) (i : ℕ) : Prop :=
  match s.sweep, s.captures[i]? with
  | .purging ids, some c => c.bundleId ∉ ids
  | _, _ => True

instance (s : State) (i : ℕ) : Decidable (Capture.Unselected s i) := by
  unfold Capture.Unselected
  split <;> infer_instance

def RecordsListed (s : State) : Event → Prop
  | .record i snapshotId => ∀ id ∈ snapshotId, Capture.Listed s i id ∧ Capture.Unselected s i
  | .recordMore i _ snapshotId => Capture.Listed s i snapshotId ∧ Capture.Unselected s i
  | _ => True

instance (s : State) (e : Event) : Decidable (RecordsListed s e) := by
  cases e <;> unfold RecordsListed <;> infer_instance

theorem Capture.Listed.mem {i : ℕ} {visit : Visit} {snapshots : List Snapshot} {c : Capture}
    (h : Capture.Listed s i id) (hsweep : s.sweep.listing = some (visit, snapshots))
    (hc : s.captures[i]? = some c) (hcomp : c.component.text = visit.row.component)
    (hrepo : c.repository = visit.repository) : id ∈ snapshots.map Snapshot.id := by
  unfold Capture.Listed at h
  rw [hsweep, hc] at h
  exact h hcomp hrepo

theorem Capture.Unselected.notMem {i : ℕ} {c : Capture} (h : Capture.Unselected s i)
    (hsweep : s.sweep = .purging ids) (hc : s.captures[i]? = some c) : c.bundleId ∉ ids := by
  unfold Capture.Unselected at h
  rwa [hsweep, hc] at h

/-! ## Plans -/

theorem mem_keep_or_forget {dateParse : String → Option ℤ} {args : PlanRepoReclamationArgs}
    {snap : Snapshot} (h : snap ∈ args.snapshots) :
    snap.id ∈ (planRepoReclamation dateParse args).keep ∨
      snap.id ∈ (planRepoReclamation dateParse args).forget := by
  unfold planRepoReclamation
  split
  · exact .inl (List.mem_map_of_mem h)
  · simp only [List.mem_map, List.mem_filter]
    by_cases hk : (isKept snap args.keepSnapshotIds args.keepBundleIds ||
        tooYoung dateParse args.minAgeCutoff snap) = true
    · exact .inl ⟨snap, ⟨h, hk⟩, rfl⟩
    · exact .inr ⟨snap, ⟨h, by simpa using hk⟩, rfl⟩

theorem holds_iff : s.Holds name id ↔ ∃ snap ∈ s.snapshotsIn name, snap.id = id := by
  simp only [State.Holds, State.snapshotsIn, List.mem_map, List.mem_filter, decide_eq_true_eq]
  constructor
  · rintro ⟨⟨n, snap⟩, hp, hn, hid⟩
    exact ⟨snap, ⟨(n, snap), ⟨hp, hn⟩, rfl⟩, hid⟩
  · rintro ⟨snap, ⟨p, ⟨hp, hn⟩, rfl⟩, hid⟩
    exact ⟨p, hp, hn, hid⟩

theorem holds_drop {name' : RepositoryName} :
    (s.drop name ids).Holds name' id ↔ s.Holds name' id ∧ ¬ (name' = name ∧ id ∈ ids) := by
  simp only [State.Holds, State.drop, List.mem_filter, decide_eq_true_eq]
  constructor
  · rintro ⟨p, ⟨hp, hkept⟩, hn, hid⟩
    exact ⟨⟨p, hp, hn, hid⟩, by rwa [← hn, ← hid]⟩
  · rintro ⟨⟨p, hp, hn, hid⟩, hkept⟩
    exact ⟨p, ⟨hp, by rwa [hn, hid]⟩, hn, hid⟩

theorem holds_append {p : RepositoryName × Snapshot} {t : State} (ht : t.held = s.held ++ [p]) :
    t.Holds name id ↔ s.Holds name id ∨ (p.1 = name ∧ p.2.id = id) := by
  simp only [State.Holds, ht, List.mem_append, List.mem_singleton, or_and_right, exists_or,
    exists_eq_left]

/-! ## Steps that only take away -/

structure Shrinks (s s' : State) : Prop where
  jobs : ∀ bj' ∈ s'.db.backupJobs, ∃ bj ∈ s.db.backupJobs,
    bj.id = bj'.id ∧ bj.tenantId = bj'.tenantId ∧ bj.repoLayout = bj'.repoLayout
  rows : ∀ bc' ∈ s'.db.backupComponents, ∃ bc ∈ s.db.backupComponents,
    bc.id = bc'.id ∧ bc.backupJobId = bc'.backupJobId ∧ bc.component = bc'.component ∧
      bc.sha256 = bc'.sha256 ∧ bc.snapshotReclaimedAt = bc'.snapshotReclaimedAt
  held : ∀ name id, s'.Holds name id → s.Holds name id
  issued : s'.issued = s.issued
  captures : ∀ (i : ℕ) c', s'.captures[i]? = some c' → ∃ c, s.captures[i]? = some c ∧
    c.rowId = c'.rowId ∧ c.bundleId = c'.bundleId ∧ c.tenantId = c'.tenantId ∧
      c.component = c'.component ∧ c.layout = c'.layout ∧ c.written = c'.written ∧
      (c'.phase = .capturing → c.phase = .capturing)

namespace Shrinks

variable {s s' : State}

theorem records (h : Shrinks s s') {bj' : BackupJob} {bc' : BackupComponent} {id : String}
    (hrec : s'.Records bj' bc' id) :
    ∃ bj bc, s.Records bj bc id ∧ repositoryOf bj bc = repositoryOf bj' bc' ∧ bc.id = bc'.id ∧
      bc.backupJobId = bc'.backupJobId ∧ bc.component = bc'.component ∧
        bc.snapshotReclaimedAt = bc'.snapshotReclaimedAt := by
  obtain ⟨hbj', hbc', hjob, hsha⟩ := hrec
  obtain ⟨bj, hbj, hid, htenant, hlayout⟩ := h.jobs bj' hbj'
  obtain ⟨bc, hbc, hbcid, hbcjob, hcomp, hbcsha, hstamp⟩ := h.rows bc' hbc'
  have hrec : s.Records bj bc id := ⟨hbj, hbc, by rw [hbcjob, hjob, hid], hbcsha.trans hsha⟩
  have hname : repositoryOf bj bc = repositoryOf bj' bc' := by
    unfold repositoryOf
    rw [htenant, hlayout, hcomp]
  exact ⟨bj, bc, hrec, hname, hbcid, hbcjob, hcomp, hstamp⟩

theorem sound (h : Shrinks s s') (hs : Sound s) : Sound s' where
  settled bj' bc' id hrec hstamped hholds := by
    obtain ⟨bj, bc, hrec, hname, -, -, -, hstamp⟩ := h.records hrec
    have hgone := hs.settled bj bc id hrec (by rwa [hstamp])
    apply hgone
    rw [hname]
    exact h.held _ _ hholds
  recorded bj' bc' id hrec := by
    obtain ⟨bj, bc, hrec, -⟩ := h.records hrec
    rw [h.issued]
    exact hs.recorded bj bc id hrec
  held name id hholds := by
    rw [h.issued]
    exact hs.held name id (h.held name id hholds)
  written i c' hc' id hid := by
    obtain ⟨c, hc, -, -, -, -, -, hwritten, -⟩ := h.captures i c' hc'
    rw [h.issued]
    exact hs.written i c hc id (hwritten ▸ hid)
  pending i c' hc' hphase bc' hbc' hrow := by
    obtain ⟨c, hc, hrowId, -, -, -, -, -, hcap⟩ := h.captures i c' hc'
    obtain ⟨bc, hbc, hid, -, -, hsha, hstamp⟩ := h.rows bc' hbc'
    rw [← hsha, ← hstamp]
    exact hs.pending i c hc (hcap hphase) bc hbc (by rw [hid, hrow, hrowId])
  ownRow i c' hc' bc' hbc' hrow := by
    obtain ⟨c, hc, hrowId, hbundle, -, hcomp, -⟩ := h.captures i c' hc'
    obtain ⟨bc, hbc, hid, hjob, hbcc, -⟩ := h.rows bc' hbc'
    rw [← hjob, ← hbcc, ← hbundle, ← hcomp]
    exact hs.ownRow i c hc bc hbc (by rw [hid, hrow, hrowId])
  ownBundle i c' hc' bj' hbj' hbundle' := by
    obtain ⟨c, hc, -, hbundle, htenant, -, hlayout, -⟩ := h.captures i c' hc'
    obtain ⟨bj, hbj, hid, hbjt, hbjl⟩ := h.jobs bj' hbj'
    rw [← hbjt, ← hbjl, ← htenant, ← hlayout]
    exact hs.ownBundle i c hc bj hbj (by rw [hid, hbundle', hbundle])
  distinct i j c₁' c₂' hc₁' hc₂' hrow := by
    obtain ⟨c₁, hc₁, hrow₁, -⟩ := h.captures i c₁' hc₁'
    obtain ⟨c₂, hc₂, hrow₂, -⟩ := h.captures j c₂' hc₂'
    exact hs.distinct i j c₁ c₂ hc₁ hc₂ (by rw [hrow₁, hrow₂, hrow])

theorem lists (h : Shrinks s s') {visit : Visit} {snapshots : List Snapshot}
    (hl : Lists s visit snapshots) : Lists s' visit snapshots := by
  constructor
  · intro snap hsnap
    rw [h.issued]
    exact hl.1 snap hsnap
  · intro bj' bc' id hrec hcomp hname hholds
    obtain ⟨bj, bc, hrec, hname', -, -, hcomp', -⟩ := h.records hrec
    exact hl.2 bj bc id hrec (by rw [hcomp', hcomp]) (by rw [hname', hname]) (h.held _ _ hholds)

theorem selected (h : Shrinks s s') {ids : List String} (hs : Selected s ids) : Selected s' ids := by
  intro bj' bc' id hrec hmem hcomp hholds
  obtain ⟨bj, bc, hrec, hname, -, hjob, hcomp', -⟩ := h.records hrec
  apply hs bj bc id hrec (by rwa [hjob]) (by rwa [hcomp'])
  rw [hname]
  exact h.held _ _ hholds

/-- The phase of a sweep that stays where it is, with every row still there. -/
theorem going (h : Shrinks s s') (hsweep : s'.sweep = s.sweep)
    (hrows : ∀ bc ∈ s.db.backupComponents, ∃ bc' ∈ s'.db.backupComponents,
      bc'.id = bc.id ∧ bc'.sha256 = bc.sha256) (hs : Going s) : Going s' := by
  apply hs.frame hsweep
  · exact fun visit snapshots _ hl => ⟨h.lists hl, fun snap _ hholds => h.held _ _ hholds⟩
  · intro gone hgoing
    constructor
    · intro id hid
      obtain ⟨bc, hbc, hbcid, hsha⟩ := hgoing.1 id hid
      obtain ⟨bc', hbc', hid', hsha'⟩ := hrows bc hbc
      exact ⟨bc', hbc', hid'.trans hbcid, by rwa [hsha']⟩
    · intro bj' bc' id hrec hgone hholds
      obtain ⟨bj, bc, hrec, hname, hid, -⟩ := h.records hrec
      apply hgoing.2 bj bc id hrec (by rwa [hid])
      rw [hname]
      exact h.held _ _ hholds
  · exact fun ids _ hselected => h.selected hselected

end Shrinks

/-! ## The sweep -/

section Sweep

variable {s t : State} {visit : Visit} {db : ResticDatabase} {snapshots : List Snapshot}

theorem Sound.of_sweep (hs : Sound s) (phase : SweepPhase) : Sound { s with sweep := phase } :=
  ⟨hs.settled, hs.recorded, hs.held, hs.written, hs.pending, hs.ownRow, hs.ownBundle, hs.distinct⟩

theorem shrinks_drop (name : RepositoryName) (ids : List String)
    (hcat : db.toCatalogue = s.db.toCatalogue) (phase : SweepPhase) :
    Shrinks s { s.drop name ids with db := db, sweep := phase } where
  jobs bj' hbj' := ⟨bj', by rwa [← hcat], rfl, rfl, rfl⟩
  rows bc' hbc' := ⟨bc', by rwa [← hcat], rfl, rfl, rfl, rfl, rfl⟩
  held _ _ h := (holds_drop.mp h).1
  issued := rfl
  captures _ c' hc' := ⟨c', hc', rfl, rfl, rfl, rfl, rfl, rfl, fun h => h⟩

theorem recordForget_toCatalogue (db : ResticDatabase) (tenantId component : String) :
    (db.recordForget tenantId component).toCatalogue = db.toCatalogue := by
  unfold ResticDatabase.recordForget ResticDatabase.upsertReclaimState
  split <;> rfl

/-- A listing that was just taken has everything. -/
theorem lists_snapshotsIn (hs : Sound s) : Lists s visit (s.snapshotsIn visit.repository) := by
  constructor
  · intro snap hsnap
    exact hs.held visit.repository snap.id (holds_iff.mpr ⟨snap, hsnap, rfl⟩)
  · intro bj bc id _ _ _ hholds
    obtain ⟨snap, hsnap, hid⟩ := holds_iff.mp hholds
    exact List.mem_map.mpr ⟨snap, hsnap, hid⟩

theorem going_phaseOfPlan {plan : RepoReclamationPlan}
    (ht : t.sweep = phaseOfPlan visit snapshots plan) (hl : Lists t visit snapshots)
    (hplan : ∀ snap ∈ snapshots, snap.id ∈ plan.keep ∨ snap.id ∈ plan.forget) : Going t := by
  unfold Going
  rw [ht]
  unfold phaseOfPlan
  by_cases hskip : plan.skip = some .noDbHistory
  · rw [if_pos hskip]
    trivial
  · rw [if_neg hskip]
    by_cases hforget : plan.forget.isEmpty = true
    · rw [if_pos hforget]
      refine ⟨hl, ?_⟩
      intro snap hsnap _
      have hnil : plan.forget = [] := List.isEmpty_iff.mp hforget
      have hmem := hplan snap hsnap
      rw [hnil] at hmem
      simpa using hmem
    · rw [if_neg hforget]
      exact ⟨hl, hplan⟩

theorem going_forget {plan : RepoReclamationPlan} (hsh : Shrinks s t)
    (ht : t.sweep = .reconciling visit snapshots plan.keep)
    (hheld : ∀ id, t.Holds visit.repository id → id ∉ plan.forget) (hs : Going s)
    (hsweep : s.sweep = .planned visit snapshots plan) : Going t := by
  unfold Going at hs ⊢
  rw [hsweep] at hs
  rw [ht]
  refine ⟨hsh.lists hs.1, ?_⟩
  intro snap hsnap hholds
  rcases hs.2 snap hsnap with hkeep | hforget
  · exact hkeep
  · exact absurd hforget (hheld _ hholds)

theorem mem_goneComponents {tenantId component : String} {layout : ResticRepoLayout}
    {boundId : Option String} {stillPresent : List String} {rowId : String} :
    rowId ∈ db.goneComponents tenantId component layout boundId stillPresent ↔
      ∃ bj bc, bj ∈ db.backupJobs ∧ bc ∈ db.backupComponents ∧ bc.backupJobId = bj.id ∧
        bj.tenantId = tenantId ∧ bc.component.text = component ∧
        normaliseRepoLayout bj.repoLayout = layout ∧ onBound boundId bj = true ∧
        bc.snapshotReclaimedAt = none ∧ (∃ sha, bc.sha256 = some sha ∧ sha ∉ stillPresent) ∧
        bc.id = rowId := by
  simp only [ResticDatabase.goneComponents, List.mem_map, List.mem_filter, decide_eq_true_eq,
    Prod.exists, mem_joined, and_assoc]

/-- The rows judged to be gone are: the repository holds no snapshot of theirs. -/
theorem going_judge {stillPresent : List String} {boundId : Option String} (hdb : t.db = s.db)
    (hheld : t.held = s.held)
    (ht : t.sweep = .judged (s.db.goneComponents visit.row.tenantId visit.row.component
      visit.layout boundId stillPresent)) (hs : Going s)
    (hsweep : s.sweep = .reconciling visit snapshots stillPresent) : Going t := by
  unfold Going at hs ⊢
  rw [hsweep] at hs
  rw [ht]
  constructor
  · intro id hid
    obtain ⟨bj, bc, -, hbc, -, -, -, -, -, -, ⟨sha, hsha, -⟩, rfl⟩ := mem_goneComponents.mp hid
    exact ⟨bc, hdb ▸ hbc, rfl, by simp [hsha]⟩
  · intro bj bc id hrec hgone hholds
    obtain ⟨bj', bc', hbj', hbc', hjob', htenant, hcomp, hlayout, -, -, ⟨sha, hsha, habsent⟩, hid⟩ :=
      mem_goneComponents.mp hgone
    obtain ⟨hbj, hbc, hjob, hbcsha⟩ := hrec
    rw [hdb] at hbj hbc
    -- The keys of the tables make the row judged and the row looked at one.
    have hbceq : bc' = bc := List.inj_on_of_nodup_map s.db.componentKeys hbc' hbc hid
    subst hbceq
    have hbjeq : bj' = bj := List.inj_on_of_nodup_map s.db.jobKeys hbj' hbj (hjob'.symm.trans hjob)
    subst hbjeq
    have hname : repositoryOf bj' bc' = visit.repository := by
      unfold repositoryOf Visit.repository
      rw [htenant, hcomp, hlayout]
    have hsha' : sha = id := Option.some.inj (hsha.symm.trans hbcsha)
    subst hsha'
    have hholds' : s.Holds visit.repository sha := by
      rw [← hname]
      unfold State.Holds at hholds ⊢
      rwa [hheld] at hholds
    obtain ⟨snap, hsnap, hsnapid⟩ :=
      List.mem_map.mp (hs.1.2 bj' bc' sha ⟨hbj, hbc, hjob, hbcsha⟩ hcomp hname hholds')
    have hkept := hs.2 snap hsnap (by rwa [hsnapid])
    rw [hsnapid] at hkept
    exact habsent hkept

theorem mem_stampComponents {gone : List String} {now : ℤ} {bc' : BackupComponent} :
    bc' ∈ (stampComponents db gone now).backupComponents ↔
      ∃ bc ∈ db.backupComponents, stamped gone now bc = bc' := List.mem_map

theorem sound_stamp {gone : List String} {now : ℤ} (hdb : t.db = stampComponents s.db gone now)
    (hheld : t.held = s.held) (hissued : t.issued = s.issued)
    (hcaptures : t.captures = s.captures) (hs : Sound s) (hgoing : Going s)
    (hsweep : s.sweep = .judged gone) : Sound t := by
  unfold Going at hgoing
  rw [hsweep] at hgoing
  obtain ⟨hrows, hgone⟩ := hgoing
  have hjobs : t.db.backupJobs = s.db.backupJobs := by rw [hdb]; rfl
  have hholds : ∀ name id, t.Holds name id → s.Holds name id := by
    intro name id h
    unfold State.Holds at h ⊢
    rwa [hheld] at h
  have hrec : ∀ bj bc' id, t.Records bj bc' id → ∃ bc, s.Records bj bc id ∧
      stamped gone now bc = bc' := by
    rintro bj bc' id ⟨hbj, hbc', hjob, hsha⟩
    rw [hdb] at hbc'
    obtain ⟨bc, hbc, rfl⟩ := mem_stampComponents.mp hbc'
    rw [stamped_backupJobId] at hjob
    rw [stamped_sha256] at hsha
    exact ⟨bc, ⟨hjobs ▸ hbj, hbc, hjob, hsha⟩, rfl⟩
  constructor
  case settled =>
    intro bj bc' id hr' hstamp hh
    obtain ⟨bc, hr, rfl⟩ := hrec bj bc' id hr'
    have hname : repositoryOf bj (stamped gone now bc) = repositoryOf bj bc := by
      unfold repositoryOf
      rw [stamped_component]
    rw [hname] at hh
    by_cases hmem : bc.id ∈ gone
    · exact hgone bj bc id hr hmem (hholds _ _ hh)
    · rw [stamped_of_notMem _ _ _ hmem] at hstamp
      exact hs.settled bj bc id hr hstamp (hholds _ _ hh)
  case recorded =>
    intro bj bc' id hr
    obtain ⟨bc, hr, -⟩ := hrec bj bc' id hr
    rw [hissued]
    exact hs.recorded bj bc id hr
  case held =>
    intro name id hh
    rw [hissued]
    exact hs.held name id (hholds name id hh)
  case written =>
    rw [hcaptures, hissued]
    exact hs.written
  case pending =>
    intro i c hc hphase bc' hbc' hid
    rw [hcaptures] at hc
    rw [hdb] at hbc'
    obtain ⟨bc, hbc, rfl⟩ := mem_stampComponents.mp hbc'
    rw [stamped_id] at hid
    have hp := hs.pending i c hc hphase bc hbc hid
    -- A row that is judged names a snapshot, and a pending one does not.
    have hmem : bc.id ∉ gone := by
      intro hmem
      obtain ⟨bc₀, hbc₀, hid₀, hsha⟩ := hrows bc.id hmem
      have heq : bc₀ = bc := List.inj_on_of_nodup_map s.db.componentKeys hbc₀ hbc hid₀
      rw [heq] at hsha
      exact hsha hp.1
    rw [stamped_of_notMem _ _ _ hmem]
    exact hp
  case ownRow =>
    intro i c hc bc' hbc' hid
    rw [hcaptures] at hc
    rw [hdb] at hbc'
    obtain ⟨bc, hbc, rfl⟩ := mem_stampComponents.mp hbc'
    rw [stamped_backupJobId, stamped_component]
    exact hs.ownRow i c hc bc hbc (by rwa [stamped_id] at hid)
  case ownBundle =>
    rw [hcaptures, hjobs]
    exact hs.ownBundle
  case distinct =>
    rw [hcaptures]
    exact hs.distinct

end Sweep

/-! ## The captures -/

section Captures

variable {s t : State}

theorem shrinks_fail {i : ℕ} {c : Capture} (hc : s.captures[i]? = some c) : Shrinks s
      { s.updateRow c.rowId (fun bc => { bc with status := .failed }) (fun _ => rfl) with
        captures := s.captures.set i { c with phase := .ended } } where
  jobs bj' hbj' := ⟨bj', hbj', rfl, rfl, rfl⟩
  rows bc' hbc' := by
    obtain ⟨bc, hbc, rfl⟩ := List.mem_map.mp hbc'
    refine ⟨bc, hbc, ?_⟩
    split <;> exact ⟨rfl, rfl, rfl, rfl, rfl⟩
  held _ _ h := h
  issued := rfl
  captures j c' hc' := by
    rcases getElem?_set_eq_some.mp hc' with ⟨rfl, -, rfl⟩ | ⟨-, hj⟩
    · refine ⟨c, hc, rfl, rfl, rfl, rfl, rfl, rfl, ?_⟩
      intro hphase
      simp at hphase
    · exact ⟨c', hj, rfl, rfl, rfl, rfl, rfl, rfl, fun h => h⟩

theorem shrinks_settle (bundleId : String) (status : BackupJobStatus) : Shrinks s
      { s with
        db :=
          { s.db with
            toCatalogue := s.db.toCatalogue.updateJobs
              (fun bj => if bj.id = bundleId then { bj with status := status } else bj)
              (by intro bj; split <;> rfl) } } where
  jobs bj' hbj' := by
    obtain ⟨bj, hbj, rfl⟩ := List.mem_map.mp hbj'
    refine ⟨bj, hbj, ?_⟩
    split <;> exact ⟨rfl, rfl, rfl⟩
  rows bc' hbc' := ⟨bc', hbc', rfl, rfl, rfl, rfl, rfl⟩
  held _ _ h := h
  issued := rfl
  captures _ c' hc' := ⟨c', hc', rfl, rfl, rfl, rfl, rfl, rfl, fun h => h⟩

theorem shrinks_purge (ids : List String) :
    Shrinks s { s with db := { s.db with toCatalogue := s.db.toCatalogue.deleteJobs ids } } where
  jobs bj' hbj' := ⟨bj', (List.mem_filter.mp hbj').1, rfl, rfl, rfl⟩
  rows bc' hbc' := ⟨bc', (List.mem_filter.mp hbc').1, rfl, rfl, rfl, rfl, rfl⟩
  held _ _ h := h
  issued := rfl
  captures _ c' hc' := ⟨c', hc', rfl, rfl, rfl, rfl, rfl, rfl, fun h => h⟩

/-- A row was inserted, and nothing else happened to the tables. -/
structure Inserted (s t : State) (row : BackupComponent) : Prop where
  fresh : row.id ∉ s.db.backupComponents.map BackupComponent.id
  unclaimed : row.id ∉ s.captures.map Capture.rowId
  jobs : t.db.backupJobs = s.db.backupJobs
  rows : t.db.backupComponents = s.db.backupComponents ++ [row]
  held : t.held = s.held
  issued : t.issued = s.issued
  sweep : t.sweep = s.sweep

theorem insertRow_eq_some {row : BackupComponent} (h : s.insertRow row = some t) :
    Inserted s t row ∧ t.captures = s.captures := by
  unfold State.insertRow at h
  split at h
  next hfresh =>
    split at h
    next hok =>
      cases h
      exact ⟨⟨hfresh, hok.1, rfl, rfl, rfl, rfl, rfl⟩, rfl⟩
    next => cases h
  next => cases h

namespace Inserted

variable {row : BackupComponent}

theorem holds (h : Inserted s t row) {name : RepositoryName} {id : String} :
    t.Holds name id ↔ s.Holds name id := by
  unfold State.Holds
  rw [h.held]

theorem records (h : Inserted s t row) {bj : BackupJob} {bc : BackupComponent} {id : String}
    (hrec : t.Records bj bc id) : s.Records bj bc id ∨
      (bc = row ∧ bj ∈ s.db.backupJobs ∧ row.backupJobId = bj.id ∧ row.sha256 = some id) := by
  obtain ⟨hbj, hbc, hjob, hsha⟩ := hrec
  rw [h.jobs] at hbj
  rw [h.rows, List.mem_append, List.mem_singleton] at hbc
  rcases hbc with hbc | rfl
  · exact .inl ⟨hbj, hbc, hjob, hsha⟩
  · exact .inr ⟨rfl, hbj, hjob, hsha⟩

theorem mem_rows (h : Inserted s t row) {i : ℕ} {c : Capture} (hc : s.captures[i]? = some c)
    {bc : BackupComponent} (hbc : bc ∈ t.db.backupComponents) (hid : bc.id = c.rowId) :
    bc ∈ s.db.backupComponents := by
  rw [h.rows, List.mem_append, List.mem_singleton] at hbc
  rcases hbc with hbc | rfl
  · exact hbc
  · exact absurd (List.mem_map.mpr ⟨c, List.mem_of_getElem? hc, hid.symm⟩) h.unclaimed

/-- The rows and the captures that were there, beside a row that names nothing new. -/
theorem sound (h : Inserted s t row) (hs : Sound s) (hstamp : row.snapshotReclaimedAt = none)
    (hsha : ∀ id, row.sha256 = some id → id ∈ s.issued) (hcaptures : t.captures = s.captures) :
    Sound t where
  settled bj bc id hrec hstamped hholds := by
    rcases h.records hrec with hrec | ⟨rfl, -⟩
    · exact hs.settled bj bc id hrec hstamped (h.holds.mp hholds)
    · exact hstamped hstamp
  recorded bj bc id hrec := by
    rw [h.issued]
    rcases h.records hrec with hrec | ⟨-, -, -, hrow⟩
    · exact hs.recorded bj bc id hrec
    · exact hsha id hrow
  held name id hholds := by
    rw [h.issued]
    exact hs.held name id (h.holds.mp hholds)
  written := by
    rw [hcaptures, h.issued]
    exact hs.written
  pending i c hc hphase bc hbc hid := by
    rw [hcaptures] at hc
    exact hs.pending i c hc hphase bc (h.mem_rows hc hbc hid) hid
  ownRow i c hc bc hbc hid := by
    rw [hcaptures] at hc
    exact hs.ownRow i c hc bc (h.mem_rows hc hbc hid) hid
  ownBundle := by
    rw [hcaptures, h.jobs]
    exact hs.ownBundle
  distinct := by
    rw [hcaptures]
    exact hs.distinct

/-- A sweep that goes by a listing is not misled by the row if what the row names is listed. -/
theorem going (h : Inserted s t row) (hg : Going s)
    (hlisted : ∀ visit snapshots, s.sweep.listing = some (visit, snapshots) →
      ∀ bj ∈ s.db.backupJobs, row.backupJobId = bj.id → row.component.text = visit.row.component →
        repositoryOf bj row = visit.repository → ∀ id, row.sha256 = some id →
        id ∈ snapshots.map Snapshot.id)
    (hunselected : ∀ ids, s.sweep = .purging ids → ∀ id, row.sha256 = some id →
      row.backupJobId ∉ ids) : Going t := by
  apply hg.frame h.sweep
  · intro visit snapshots hsweep hl
    refine ⟨⟨by rw [h.issued]; exact hl.1, ?_⟩, fun snap _ hholds => h.holds.mp hholds⟩
    intro bj bc id hrec hcomp hname hholds
    rcases h.records hrec with hrec | ⟨rfl, hbj, hjob, hsha⟩
    · exact hl.2 bj bc id hrec hcomp hname (h.holds.mp hholds)
    · exact hlisted visit snapshots hsweep bj hbj hjob hcomp hname id hsha
  · intro gone hgoing
    constructor
    · intro id hid
      obtain ⟨bc, hbc, hbcid⟩ := hgoing.1 id hid
      exact ⟨bc, by rw [h.rows]; exact List.mem_append_left _ hbc, hbcid⟩
    · intro bj bc id hrec hgone hholds
      rcases h.records hrec with hrec | ⟨rfl, -⟩
      · exact hgoing.2 bj bc id hrec hgone (h.holds.mp hholds)
      · obtain ⟨bc₀, hbc₀, hid₀, -⟩ := hgoing.1 bc.id hgone
        exact h.fresh (List.mem_map.mpr ⟨bc₀, hbc₀, hid₀⟩)
  · intro ids hsweep hselected bj bc id hrec hmem hcomp hholds
    rcases h.records hrec with hrec | ⟨rfl, -, -, hsha⟩
    · exact hselected bj bc id hrec hmem hcomp (h.holds.mp hholds)
    · exact hunselected ids hsweep id hsha hmem

end Inserted

/-- A capture that begins with a row of its own that names nothing yet. -/
theorem sound_enroll {c : Capture} (hs : Sound s) (hwritten : c.written = [])
    (hrow : ∀ bc ∈ s.db.backupComponents, bc.id = c.rowId →
      bc = runningRow c.rowId c.bundleId c.component)
    (hjob : ∀ bj ∈ s.db.backupJobs, bj.id = c.bundleId →
      bj.tenantId = c.tenantId ∧ normaliseRepoLayout bj.repoLayout = c.layout)
    (hfresh : c.rowId ∉ s.captures.map Capture.rowId) :
    Sound { s with captures := s.captures ++ [c] } where
  settled := hs.settled
  recorded := hs.recorded
  held := hs.held
  written i c' hc' id hid := by
    rcases getElem?_concat_eq_some.mp hc' with hc' | ⟨-, rfl⟩
    · exact hs.written i c' hc' id hid
    · rw [hwritten] at hid
      cases hid
  pending i c' hc' hphase bc hbc hid := by
    rcases getElem?_concat_eq_some.mp hc' with hc' | ⟨-, rfl⟩
    · exact hs.pending i c' hc' hphase bc hbc hid
    · rw [hrow bc hbc hid]
      exact ⟨rfl, rfl⟩
  ownRow i c' hc' bc hbc hid := by
    rcases getElem?_concat_eq_some.mp hc' with hc' | ⟨-, rfl⟩
    · exact hs.ownRow i c' hc' bc hbc hid
    · rw [hrow bc hbc hid]
      exact ⟨rfl, rfl⟩
  ownBundle i c' hc' bj hbj hid := by
    rcases getElem?_concat_eq_some.mp hc' with hc' | ⟨-, rfl⟩
    · exact hs.ownBundle i c' hc' bj hbj hid
    · exact hjob bj hbj hid
  distinct i j c₁ c₂ hc₁ hc₂ hid := by
    rcases getElem?_concat_eq_some.mp hc₁ with hold | ⟨hi, rfl⟩
    · rcases getElem?_concat_eq_some.mp hc₂ with hold' | ⟨-, rfl⟩
      · exact hs.distinct i j c₁ c₂ hold hold' hid
      · rw [← hid] at hfresh
        exact absurd (List.mem_map_of_mem (List.mem_of_getElem? hold)) hfresh
    · rcases getElem?_concat_eq_some.mp hc₂ with hold | ⟨hj, -⟩
      · rw [hid] at hfresh
        exact absurd (List.mem_map_of_mem (List.mem_of_getElem? hold)) hfresh
      · omega

section Write

variable {i : ℕ} {c : Capture} {snapshot : Snapshot}

def wrote (s : State) (i : ℕ) (c : Capture) (snapshot : Snapshot) : State :=
  { s with
    held := s.held ++ [(c.repository, snapshot)]
    issued := s.issued ++ [snapshot.id]
    captures := s.captures.set i { c with written := c.written ++ [snapshot.id] } }

theorem holds_wrote {name : RepositoryName} {id : String} : (wrote s i c snapshot).Holds name id ↔
      s.Holds name id ∨ (c.repository = name ∧ snapshot.id = id) :=
  holds_append (p := (c.repository, snapshot)) rfl

theorem holds_of_issued (hfresh : snapshot.id ∉ s.issued) {name : RepositoryName} {id : String}
    (hid : id ∈ s.issued) (h : (wrote s i c snapshot).Holds name id) : s.Holds name id := by
  rcases holds_wrote.mp h with h | ⟨-, rfl⟩
  · exact h
  · exact absurd hid hfresh

theorem captures_wrote (hc : s.captures[i]? = some c) {j : ℕ} {c' : Capture}
    (hc' : (wrote s i c snapshot).captures[j]? = some c') :
    ∃ c₀, s.captures[j]? = some c₀ ∧ c'.rowId = c₀.rowId ∧ c'.bundleId = c₀.bundleId ∧
      c'.tenantId = c₀.tenantId ∧ c'.component = c₀.component ∧ c'.layout = c₀.layout ∧
      c'.phase = c₀.phase ∧ ∀ id ∈ c'.written, id ∈ c₀.written ∨ id = snapshot.id := by
  rcases getElem?_set_eq_some.mp hc' with ⟨rfl, -, rfl⟩ | ⟨-, hj⟩
  · refine ⟨c, hc, rfl, rfl, rfl, rfl, rfl, rfl, ?_⟩
    intro id hid
    simpa using hid
  · exact ⟨c', hj, rfl, rfl, rfl, rfl, rfl, rfl, fun id hid => .inl hid⟩

theorem sound_wrote (hs : Sound s) (hc : s.captures[i]? = some c)
    (hfresh : snapshot.id ∉ s.issued) : Sound (wrote s i c snapshot) where
  settled bj bc id hrec hstamped hholds :=
    hs.settled bj bc id hrec hstamped
      (holds_of_issued hfresh (hs.recorded bj bc id hrec) hholds)
  recorded bj bc id hrec := List.mem_append_left _ (hs.recorded bj bc id hrec)
  held name id hholds := by
    rcases holds_wrote.mp hholds with h | ⟨-, rfl⟩
    · exact List.mem_append_left _ (hs.held name id h)
    · exact List.mem_append_right _ (List.mem_singleton.mpr rfl)
  written j c' hc' id hid := by
    obtain ⟨c₀, hc₀, -, -, -, -, -, -, hwritten⟩ := captures_wrote hc hc'
    rcases hwritten id hid with h | rfl
    · exact List.mem_append_left _ (hs.written j c₀ hc₀ id h)
    · exact List.mem_append_right _ (List.mem_singleton.mpr rfl)
  pending j c' hc' hphase bc hbc hid := by
    obtain ⟨c₀, hc₀, hrow, -, -, -, -, hp, -⟩ := captures_wrote hc hc'
    exact hs.pending j c₀ hc₀ (hp ▸ hphase) bc hbc (hid.trans hrow)
  ownRow j c' hc' bc hbc hid := by
    obtain ⟨c₀, hc₀, hrow, hbundle, -, hcomp, -⟩ := captures_wrote hc hc'
    rw [hbundle, hcomp]
    exact hs.ownRow j c₀ hc₀ bc hbc (hid.trans hrow)
  ownBundle j c' hc' bj hbj hid := by
    obtain ⟨c₀, hc₀, -, hbundle, htenant, -, hlayout, -⟩ := captures_wrote hc hc'
    rw [htenant, hlayout]
    exact hs.ownBundle j c₀ hc₀ bj hbj (hid.trans hbundle)
  distinct j k c₁ c₂ hc₁ hc₂ hid := by
    obtain ⟨c₁', hc₁', hrow₁, -⟩ := captures_wrote hc hc₁
    obtain ⟨c₂', hc₂', hrow₂, -⟩ := captures_wrote hc hc₂
    exact hs.distinct j k c₁' c₂' hc₁' hc₂' (by rw [← hrow₁, ← hrow₂, hid])

theorem lists_wrote (hs : Sound s) (hfresh : snapshot.id ∉ s.issued) {visit : Visit}
    {snapshots : List Snapshot} (hl : Lists s visit snapshots) :
    Lists (wrote s i c snapshot) visit snapshots := by
  refine ⟨fun snap hsnap => List.mem_append_left _ (hl.1 snap hsnap), ?_⟩
  intro bj bc id hrec hcomp hname hholds
  exact hl.2 bj bc id hrec hcomp hname (holds_of_issued hfresh (hs.recorded bj bc id hrec) hholds)

theorem going_wrote (hs : Sound s) (hg : Going s) (hfresh : snapshot.id ∉ s.issued) :
    Going (wrote s i c snapshot) := by
  have hsweep : (wrote s i c snapshot).sweep = s.sweep := rfl
  apply hg.frame hsweep
  · intro visit snapshots _ hl
    refine ⟨lists_wrote hs hfresh hl, ?_⟩
    intro snap hsnap hholds
    exact holds_of_issued hfresh (hl.1 snap hsnap) hholds
  · intro gone hgoing
    refine ⟨hgoing.1, ?_⟩
    intro bj bc id hrec hgone hholds
    exact hgoing.2 bj bc id hrec hgone
      (holds_of_issued hfresh (hs.recorded bj bc id hrec) hholds)
  · intro ids _ hselected bj bc id hrec hmem hcomp hholds
    exact hselected bj bc id hrec hmem hcomp
      (holds_of_issued hfresh (hs.recorded bj bc id hrec) hholds)

end Write

section Record

variable {i : ℕ} {c : Capture} {snapshotId : Option String}

theorem recorded_id (snapshotId : Option String) (bc : BackupComponent) :
    ({ bc with status := .completed, sha256 := snapshotId } : BackupComponent).id = bc.id := rfl

def didRecord (s : State) (i : ℕ) (c : Capture) (snapshotId : Option String) : State :=
  { s.updateRow c.rowId (fun bc => { bc with status := .completed, sha256 := snapshotId })
      (recorded_id snapshotId) with
    captures := s.captures.set i { c with phase := .recording } }

theorem mem_didRecord {bc' : BackupComponent} :
    bc' ∈ (didRecord s i c snapshotId).db.backupComponents ↔
      (bc' ∈ s.db.backupComponents ∧ bc'.id ≠ c.rowId) ∨
        ∃ bc ∈ s.db.backupComponents, bc.id = c.rowId ∧
          bc' = { bc with status := .completed, sha256 := snapshotId } := by
  have hmem : bc' ∈ (didRecord s i c snapshotId).db.backupComponents ↔
      ∃ bc ∈ s.db.backupComponents, (if bc.id = c.rowId then
        { bc with status := .completed, sha256 := snapshotId } else bc) = bc' := List.mem_map
  rw [hmem]
  constructor
  · rintro ⟨bc, hbc, rfl⟩
    by_cases hid : bc.id = c.rowId
    · rw [if_pos hid]
      exact .inr ⟨bc, hbc, hid, rfl⟩
    · rw [if_neg hid]
      exact .inl ⟨hbc, hid⟩
  · rintro (⟨hbc, hid⟩ | ⟨bc, hbc, hid, rfl⟩)
    · exact ⟨bc', hbc, if_neg hid⟩
    · exact ⟨bc, hbc, if_pos hid⟩

theorem records_didRecord {bj : BackupJob} {bc' : BackupComponent} {id : String}
    (hrec : (didRecord s i c snapshotId).Records bj bc' id) :
    (s.Records bj bc' id ∧ bc'.id ≠ c.rowId) ∨
      ∃ bc ∈ s.db.backupComponents, bc.id = c.rowId ∧ bj ∈ s.db.backupJobs ∧
        bc.backupJobId = bj.id ∧ snapshotId = some id ∧
        bc' = { bc with status := .completed, sha256 := snapshotId } := by
  obtain ⟨hbj, hbc', hjob, hsha⟩ := hrec
  rcases mem_didRecord.mp hbc' with ⟨hbc, hid⟩ | ⟨bc, hbc, hid, rfl⟩
  · exact .inl ⟨⟨hbj, hbc, hjob, hsha⟩, hid⟩
  · exact .inr ⟨bc, hbc, hid, hbj, hjob, hsha, rfl⟩

theorem sound_didRecord (hs : Sound s) (hc : s.captures[i]? = some c)
    (hphase : c.phase = .capturing) (hwritten : ∀ id ∈ snapshotId, id ∈ c.written) :
    Sound (didRecord s i c snapshotId) where
  settled bj bc' id hrec hstamped hholds := by
    rcases records_didRecord hrec with ⟨hrec, -⟩ | ⟨bc, hbc, hid, -, -, -, rfl⟩
    · exact hs.settled bj bc' id hrec hstamped hholds
    · exact hstamped (hs.pending i c hc hphase bc hbc hid).2
  recorded bj bc' id hrec := by
    rcases records_didRecord hrec with ⟨hrec, -⟩ | ⟨bc, -, -, -, -, hsha, -⟩
    · exact hs.recorded bj bc' id hrec
    · exact hs.written i c hc id (hwritten id hsha)
  held := hs.held
  written j c' hc' := by
    rcases getElem?_set_eq_some.mp hc' with ⟨-, -, rfl⟩ | ⟨-, hj⟩
    · exact hs.written i c hc
    · exact hs.written j c' hj
  pending j c' hc' hphase' bc' hbc' hid' := by
    rcases getElem?_set_eq_some.mp hc' with ⟨-, -, rfl⟩ | ⟨hne, hj⟩
    · cases hphase'
    · rcases mem_didRecord.mp hbc' with ⟨hbc, -⟩ | ⟨bc, hbc, hid, rfl⟩
      · exact hs.pending j c' hj hphase' bc' hbc hid'
      · exact absurd (hs.distinct i j c c' hc hj (hid.symm.trans hid')) hne
  ownRow j c' hc' bc' hbc' hid' := by
    have hc₀ : ∃ c₀, s.captures[j]? = some c₀ ∧ c₀.rowId = c'.rowId ∧
        c₀.bundleId = c'.bundleId ∧ c₀.component = c'.component := by
      rcases getElem?_set_eq_some.mp hc' with ⟨rfl, -, rfl⟩ | ⟨-, hj⟩
      · exact ⟨c, hc, rfl, rfl, rfl⟩
      · exact ⟨c', hj, rfl, rfl, rfl⟩
    obtain ⟨c₀, hc₀, hrow, hbundle, hcomp⟩ := hc₀
    rw [← hbundle, ← hcomp]
    rcases mem_didRecord.mp hbc' with ⟨hbc, -⟩ | ⟨bc, hbc, -, rfl⟩
    · exact hs.ownRow j c₀ hc₀ bc' hbc (hid'.trans hrow.symm)
    · exact hs.ownRow j c₀ hc₀ bc hbc (hid'.trans hrow.symm)
  ownBundle j c' hc' := by
    rcases getElem?_set_eq_some.mp hc' with ⟨rfl, -, rfl⟩ | ⟨-, hj⟩
    · exact hs.ownBundle i c hc
    · exact hs.ownBundle j c' hj
  distinct j k c₁ c₂ hc₁ hc₂ hid := by
    have hold : ∀ (j : ℕ) c', (didRecord s i c snapshotId).captures[j]? = some c' →
        ∃ c₀, s.captures[j]? = some c₀ ∧ c₀.rowId = c'.rowId := by
      intro j c' hc'
      rcases getElem?_set_eq_some.mp hc' with ⟨rfl, -, rfl⟩ | ⟨-, hj⟩
      · exact ⟨c, hc, rfl⟩
      · exact ⟨c', hj, rfl⟩
    obtain ⟨c₁', hc₁', hrow₁⟩ := hold j c₁ hc₁
    obtain ⟨c₂', hc₂', hrow₂⟩ := hold k c₂ hc₂
    exact hs.distinct j k c₁' c₂' hc₁' hc₂' (by rw [hrow₁, hrow₂, hid])

theorem Sound.repository_eq (hs : Sound s) (hc : s.captures[i]? = some c) {bj : BackupJob}
    {bc : BackupComponent} (hbj : bj ∈ s.db.backupJobs) (hjob : bj.id = c.bundleId)
    (hcomp : bc.component = c.component) : repositoryOf bj bc = c.repository := by
  obtain ⟨htenant, hlayout⟩ := hs.ownBundle i c hc bj hbj hjob
  unfold repositoryOf Capture.repository
  rw [htenant, hlayout, hcomp]

theorem lists_didRecord (hs : Sound s) (hc : s.captures[i]? = some c) {visit : Visit}
    {snapshots : List Snapshot} (hsweep : s.sweep.listing = some (visit, snapshots))
    (hlisted : ∀ id ∈ snapshotId, Capture.Listed s i id) (hl : Lists s visit snapshots) :
    Lists (didRecord s i c snapshotId) visit snapshots := by
  refine ⟨hl.1, ?_⟩
  intro bj bc' id hrec hcomp hname hholds
  rcases records_didRecord hrec with ⟨hrec, -⟩ | ⟨bc, hbc, hid, hbj, hjob, hsha, rfl⟩
  · exact hl.2 bj bc' id hrec hcomp hname hholds
  · obtain ⟨hbundle, hown⟩ := hs.ownRow i c hc bc hbc hid
    have hrepo : repositoryOf bj bc = c.repository :=
      hs.repository_eq hc hbj (hjob.symm.trans hbundle) hown
    have hcomp' : c.component.text = visit.row.component := by rw [← hown, ← hcomp]
    exact (hlisted id hsha).mem hsweep hc hcomp' (hrepo.symm.trans hname)

theorem going_didRecord (hs : Sound s) (hg : Going s) (hc : s.captures[i]? = some c)
    (hphase : c.phase = .capturing)
    (hlisted : ∀ id ∈ snapshotId, Capture.Listed s i id ∧ Capture.Unselected s i) :
    Going (didRecord s i c snapshotId) := by
  have hsweep : (didRecord s i c snapshotId).sweep = s.sweep := rfl
  apply hg.frame hsweep
  · intro visit snapshots hlisting hl
    have hl' := lists_didRecord hs hc hlisting (fun id hid => (hlisted id hid).1) hl
    exact ⟨hl', fun _ _ hholds => hholds⟩
  · intro gone hgoing
    -- The row of the capture named nothing when the rows were read, so it is not judged.
    have hpending : c.rowId ∉ gone := by
      intro hmem
      obtain ⟨bc, hbc, hid, hsha⟩ := hgoing.1 c.rowId hmem
      exact hsha (hs.pending i c hc hphase bc hbc hid).1
    constructor
    · intro id hid
      obtain ⟨bc, hbc, hbcid, hsha⟩ := hgoing.1 id hid
      have hne : bc.id ≠ c.rowId := by
        intro h
        apply hpending
        rw [← h, hbcid]
        exact hid
      exact ⟨bc, mem_didRecord.mpr (.inl ⟨hbc, hne⟩), hbcid, hsha⟩
    · intro bj bc' id hrec hgone hholds
      rcases records_didRecord hrec with ⟨hrec, -⟩ | ⟨bc, hbc, hid, -, -, -, rfl⟩
      · exact hgoing.2 bj bc' id hrec hgone hholds
      · exact hpending (hid ▸ hgone)
  · intro ids hpurging hselected bj bc' id hrec hmem hcomp hholds
    rcases records_didRecord hrec with ⟨hrec, -⟩ | ⟨bc, hbc, hid, -, -, hsha, rfl⟩
    · exact hselected bj bc' id hrec hmem hcomp hholds
    · have hbundle := (hs.ownRow i c hc bc hbc hid).1
      exact (hlisted id hsha).2.notMem hpurging hc (hbundle ▸ hmem)

end Record

end Captures

/-! ## One step -/

theorem StampedAreGone.purgeable (h : StampedAreGone s) {bj : BackupJob} {bc : BackupComponent}
    (hbj : bj ∈ s.db.purgeable) (hrec : s.Records bj bc id)
    (hcomp : bc.component = .files ∨ bc.component = .mailboxes) :
    ¬ s.Holds (repositoryOf bj bc) id := by
  have hstamped : bc.snapshotReclaimedAt ≠ none := by
    have hall := (List.mem_filter.mp hbj).2
    simp only [decide_eq_true_eq] at hall
    obtain ⟨-, hbc, hjob, hsha⟩ := hrec
    exact hall.2 bc hbc hjob hcomp (by simp [hsha])
  exact h bj bc id hrec hstamped

theorem StampedAreGone.selected (h : StampedAreGone s)
    (hids : ∀ id ∈ ids, ∃ bj ∈ s.db.purgeable, bj.id = id) : Selected s ids := by
  intro bj bc id hrec hmem
  obtain ⟨bj', hbj', hid⟩ := hids bc.backupJobId hmem
  have heq : bj' = bj := List.inj_on_of_nodup_map s.db.jobKeys (List.mem_of_mem_filter hbj')
    hrec.1 (hid.trans hrec.2.2.1)
  exact h.purgeable (heq ▸ hbj') hrec

section Step

variable {setting : Setting} {s t : State} {e : Event}

theorem sweepStep_keeps (hs : Sound s) (hg : Going s) (h : sweepStep setting s e = some t) :
    Sound t ∧ Going t := by
  cases e with
  | ask visit now =>
    simp only [sweepStep] at h
    split at h
    next =>
      cases h
      exact ⟨hs.of_sweep _, trivial⟩
    next => cases h
  | remember =>
    simp only [sweepStep] at h
    split at h
    next =>
      cases h
      exact ⟨hs.of_sweep _, trivial⟩
    next => cases h
  | list =>
    simp only [sweepStep] at h
    split at h
    next visit _ _ _ _ =>
      cases h
      refine ⟨hs.of_sweep _, ?_⟩
      have hl : Lists s visit (s.snapshotsIn visit.repository) := lists_snapshotsIn hs
      exact going_phaseOfPlan rfl hl (fun snap hsnap => mem_keep_or_forget hsnap)
    next => cases h
  | forget =>
    simp only [sweepStep] at h
    split at h
    next visit snapshots plan hsweep =>
      cases h
      have hcat := recordForget_toCatalogue s.db visit.row.tenantId visit.row.component
      have hsh := shrinks_drop visit.repository plan.forget hcat
        (.reconciling visit snapshots plan.keep)
      refine ⟨hsh.sound hs, going_forget hsh rfl ?_ hg hsweep⟩
      intro id hid hforget
      have hkept : ¬ (visit.repository = visit.repository ∧ id ∈ plan.forget) :=
        (holds_drop.mp hid).2
      exact hkept ⟨rfl, hforget⟩
    next => cases h
  | forgetFails removed =>
    simp only [sweepStep] at h
    split at h
    next visit _ plan _ =>
      cases h
      have hsh := shrinks_drop visit.repository (plan.forget.filter (· ∈ removed))
        (s := s) rfl .between
      exact ⟨hsh.sound hs, trivial⟩
    next => cases h
  | judge =>
    simp only [sweepStep] at h
    split at h
    next visit snapshots stillPresent hsweep =>
      split at h
      next boundId _ =>
        cases h
        exact ⟨hs.of_sweep _, going_judge (s := s) rfl rfl rfl hg hsweep⟩
      next =>
        cases h
        exact ⟨hs.of_sweep _, trivial⟩
    next => cases h
  | stamp now =>
    simp only [sweepStep] at h
    split at h
    next gone hsweep =>
      cases h
      exact ⟨sound_stamp (s := s) rfl rfl rfl rfl hs hg hsweep, trivial⟩
    next => cases h
  | abandon =>
    cases h
    exact ⟨hs.of_sweep _, trivial⟩
  | selectPurgeable ids =>
    simp only [sweepStep] at h
    split at h
    next hsweep =>
      split at h
      next hpurgeable =>
        cases h
        exact ⟨hs.of_sweep _, hs.settled.selected hpurgeable⟩
      next => cases h
    next => cases h
  | deleteSelected =>
    simp only [sweepStep] at h
    split at h
    next ids hsweep =>
      cases h
      exact ⟨((shrinks_purge ids).sound hs).of_sweep _, trivial⟩
    next => cases h
  | begin bundleId rowId component => cases h
  | write i snapshot => cases h
  | record i snapshotId => cases h
  | recordMore i rowId snapshotId => cases h
  | fail i => cases h
  | settle bundleId status => cases h

theorem captureStep_keeps (hs : Sound s) (hg : Going s) (hlisted : RecordsListed s e)
    (h : captureStep s e = some t) : Sound t ∧ Going t := by
  cases e with
  | begin bundleId rowId component =>
    simp only [captureStep, Option.bind_eq_some_iff, Option.map_eq_some_iff] at h
    obtain ⟨bj, hfind, s₁, hins, rfl⟩ := h
    obtain ⟨hins, hcaptures⟩ := insertRow_eq_some hins
    have hbj : bj ∈ s.db.backupJobs ∧ bj.id = bundleId :=
      ⟨List.mem_of_find?_eq_some hfind, by simpa using List.find?_some hfind⟩
    have hs₁ := hins.sound hs rfl (fun id hid => by cases hid) hcaptures
    have hg₁ := hins.going hg (fun _ _ _ _ _ _ _ _ id hid => by cases hid)
      (fun _ _ id hid => by cases hid)
    refine ⟨?_, hg₁⟩
    rw [← hcaptures]
    apply sound_enroll hs₁ rfl
    · intro bc hbc hid
      rw [hins.rows, List.mem_append, List.mem_singleton] at hbc
      rcases hbc with hbc | rfl
      · exact absurd (List.mem_map.mpr ⟨bc, hbc, hid⟩) hins.fresh
      · rfl
    · intro bj' hbj' hid'
      rw [hins.jobs] at hbj'
      have heq : bj' = bj :=
        List.inj_on_of_nodup_map s.db.jobKeys hbj' hbj.1 (hid'.trans hbj.2.symm)
      rw [heq]
      exact ⟨rfl, rfl⟩
    · rw [hcaptures]
      exact hins.unclaimed
  | write i snapshot =>
    simp only [captureStep] at h
    split at h
    next c hc =>
      split at h
      next hok =>
        cases h
        exact ⟨sound_wrote hs hc hok.2, going_wrote hs hg hok.2⟩
      next => cases h
    next => cases h
  | record i snapshotId =>
    simp only [captureStep] at h
    split at h
    next c hc =>
      split at h
      next hok =>
        cases h
        exact ⟨sound_didRecord hs hc hok.1 hok.2, going_didRecord hs hg hc hok.1 hlisted⟩
      next => cases h
    next => cases h
  | recordMore i rowId snapshotId =>
    simp only [captureStep] at h
    split at h
    next c hc =>
      split at h
      next hok =>
        obtain ⟨hins, hcaptures⟩ := insertRow_eq_some h
        refine ⟨hins.sound hs rfl ?_ hcaptures, hins.going hg ?_ ?_⟩
        · intro id hid
          cases hid
          exact hs.written i c hc snapshotId hok.2
        · intro visit snapshots hsweep bj hbj hjob hcomp hname id hid
          cases hid
          have hrepo : repositoryOf bj (mailboxRow c rowId snapshotId) = c.repository :=
            hs.repository_eq hc hbj hjob.symm rfl
          exact hlisted.1.mem hsweep hc hcomp (hrepo.symm.trans hname)
        · exact fun ids hsweep _ _ => hlisted.2.notMem hsweep hc
      next => cases h
    next => cases h
  | fail i =>
    simp only [captureStep] at h
    split at h
    next c hc =>
      cases h
      have hsh := shrinks_fail hc
      refine ⟨hsh.sound hs, hsh.going rfl ?_ hg⟩
      intro bc hbc
      refine ⟨_, List.mem_map_of_mem hbc, ?_⟩
      split <;> exact ⟨rfl, rfl⟩
    next => cases h
  | settle bundleId status =>
    cases h
    have hsh : Shrinks s _ := shrinks_settle bundleId status
    exact ⟨hsh.sound hs, hsh.going rfl (fun bc hbc => ⟨bc, hbc, rfl, rfl⟩) hg⟩
  | ask visit now => cases h
  | remember => cases h
  | list => cases h
  | forget => cases h
  | forgetFails removed => cases h
  | judge => cases h
  | stamp now => cases h
  | abandon => cases h
  | selectPurgeable ids => cases h
  | deleteSelected => cases h

theorem step_keeps (hs : Sound s ∧ Going s) (h : step setting s e = some t)
    (hlisted : RecordsListed s e) : Sound t ∧ Going t := by
  unfold step at h
  rcases Option.or_eq_some_iff.mp h with h | ⟨-, h⟩
  · exact sweepStep_keeps hs.1 hs.2 h
  · exact captureStep_keeps hs.1 hs.2 hlisted h

end Step

/-! ## Whole runs -/

/-- Before the sweep and the captures begin: what is stamped is gone, and restic has given every id
that a repository holds or a row names. -/
structure AtStart (s : State) : Prop where
  stamped : StampedAreGone s
  recorded : ∀ bj bc id, s.Records bj bc id → id ∈ s.issued
  held : ∀ name id, s.Holds name id → id ∈ s.issued
  sweep : s.sweep = .between
  captures : s.captures = []

theorem AtStart.sound (h : AtStart s) : Sound s ∧ Going s := by
  refine ⟨⟨h.stamped, h.recorded, h.held, ?_, ?_, ?_, ?_, ?_⟩, ?_⟩
  case refine_6 =>
    unfold Going
    rw [h.sweep]
    trivial
  all_goals
    rw [h.captures]
    intro i
    simp

/-- The purge destroys no record of a snapshot that exists: not with the bundles that it would
select now, and not with those that it has selected. -/
def PurgeIsSafe (s : State) : Prop :=
  (∀ bj ∈ s.db.purgeable, ∀ bc id, s.Records bj bc id →
    (bc.component = .files ∨ bc.component = .mailboxes) → ¬ s.Holds (repositoryOf bj bc) id) ∧
  ∀ ids, s.sweep = .purging ids → Selected s ids

theorem Sound.purgeIsSafe (hs : Sound s) (hg : Going s) : PurgeIsSafe s := by
  refine ⟨fun bj hbj bc id => hs.settled.purgeable hbj, ?_⟩
  intro ids hsweep
  unfold Going at hg
  rwa [hsweep] at hg

/-- In every run in which no capture records a snapshot behind the back of a listing or of a purge,
a stamped row names a snapshot that is gone, and the purge is safe. -/
theorem stamped_components_are_gone {setting : Setting} {s t : State} {events : List Event}
    (hstart : AtStart s) (hlisted : Along (step setting) (fun s e _ => RecordsListed s e) s events)
    (hrun : exec (step setting) s events = some t) : StampedAreGone t ∧ PurgeIsSafe t := by
  have hkeeps : Sound t ∧ Going t :=
    exec_invariant_along (step setting) (fun _ _ _ hs hstep hl => step_keeps hs hstep hl)
      hstart.sound hlisted hrun
  exact ⟨hkeeps.1.settled, hkeeps.1.purgeIsSafe hkeeps.2⟩

section Race

def nightly (id : String) (status : BackupJobStatus) : BackupJob :=
  { id := id
    tenantId := "acme"
    initiator := .system
    systemTrigger := some .scheduled
    status := status
    targetConfigId := none
    repoLayout := some "per-component"
    retentionDays := 7
    expiresAt := none
    startedAt := none
    createdAt := 0 }

def raceStart : State where
  db :=
    { collation := .codePoint
      tenants := [{ id := "acme", status := .active }]
      backupJobs := [nightly "old" .expired, nightly "new" .running]
      backupComponents :=
        [{ id := "row-1", backupJobId := "old", component := .files, status := .completed,
           sha256 := some "a1", snapshotReclaimedAt := none }]
      backupConfigurations := []
      jobKeys := by decide
      componentKeys := by decide
      tenantResticRepoState := []
      resticRepoReclaimState := []
      tenantBackupV2Settings := none }
  held := [(.ofComponent "files" "acme",
    { id := "a1", shortId := "a", time := "June", tags := [] })]
  issued := ["a1"]
  sweep := .between
  captures := []

def raceSetting : Setting where
  dateParse text := if text = "June" then some 6 else if text = "July" then some 7 else none
  bound := .known none
  minAgeCutoff := 6
  force := false

def raceVisit : Visit := { row := { tenantId := "acme", component := "files" }, layout := .perComponent }

def raceSnapshot : Snapshot := { id := "b2", shortId := "b", time := "July", tags := [] }

theorem raceStart_atStart : AtStart raceStart where
  stamped bj bc id hrec hstamped := by
    obtain ⟨-, hbc, -, -⟩ := hrec
    obtain rfl : bc = _ := List.mem_singleton.mp hbc
    exact absurd rfl hstamped
  recorded bj bc id hrec := by
    obtain ⟨-, hbc, -, hsha⟩ := hrec
    obtain rfl : bc = _ := List.mem_singleton.mp hbc
    cases hsha
    exact List.mem_singleton.mpr rfl
  held name id hholds := by
    obtain ⟨p, hp, -, rfl⟩ := hholds
    obtain rfl : p = _ := List.mem_singleton.mp hp
    exact List.mem_singleton.mpr rfl
  sweep := rfl
  captures := rfl

def listedCapture : List Event :=
  [.begin "new" "row-2" .files, .write 0 raceSnapshot, .ask raceVisit 8, .remember, .list,
    .record 0 (some "b2"), .forget, .judge, .stamp 9, .selectPurgeable ["old"],
    .deleteSelected]

theorem stamped_components_are_gone_listedCapture :
    ∃ t, exec (step raceSetting) raceStart listedCapture = some t ∧ t.db.backupJobs.length = 1 ∧
      StampedAreGone t ∧ PurgeIsSafe t := by
  have hlisted : Along (step raceSetting) (fun s e _ => RecordsListed s e) raceStart
      listedCapture := by
    decide
  exact ⟨_, rfl, rfl, stamped_components_are_gone raceStart_atStart hlisted rfl⟩

def lateCapture : List Event :=
  [.begin "new" "row-2" .files, .ask raceVisit 8, .remember, .list, .write 0 raceSnapshot,
    .record 0 (some "b2"), .forget, .judge, .stamp 9, .settle "new" .completed,
    .settle "new" .expired]

/-- The row of the capture is stamped with its snapshot in the repository, and once the bundle has
expired the purge takes the row away. -/
theorem late_capture_is_stamped :
    AtStart raceStart ∧ ∃ t, exec (step raceSetting) raceStart lateCapture = some t ∧
      ¬ StampedAreGone t ∧ ¬ PurgeIsSafe t := by
  refine ⟨raceStart_atStart, _, rfl, ?_, ?_⟩
  · intro hgone
    refine hgone (nightly "new" .expired)
      { id := "row-2", backupJobId := "new", component := .files, status := .completed,
        sha256 := some "b2", snapshotReclaimedAt := some 9000 } "b2" ?_ (by simp) ?_
    · unfold State.Records
      decide
    · decide
  · intro hsafe
    refine hsafe.1 (nightly "new" .expired) ?_
      { id := "row-2", backupJobId := "new", component := .files, status := .completed,
        sha256 := some "b2", snapshotReclaimedAt := some 9000 } "b2" ?_ (.inl rfl) ?_
    · decide
    · unfold State.Records
      decide
    · decide

end Race

end Insula.TenantBundles.Reclaiming
