import Insula.ResticRetention

/-!
# The calls of a reconciling sweep, read off the tables it starts from

A sweep writes while it goes along: it stamps components whose snapshots are gone and keeps its own
table of the repositories it examined. None of this changes what it reads of a tenant and component
it has yet to visit. Its calls are therefore those that the tables at its start call for, and a
snapshot is in one of them exactly when it is old enough and nothing vouches for it.
-/

namespace Insula.TenantBundles

open Javascript

section KeepSet

variable (db : ResticDatabase)

theorem mem_joined {bj : BackupJob} {bc : BackupComponent} : (bj, bc) ∈ db.joined ↔
      bj ∈ db.backupJobs ∧ bc ∈ db.backupComponents ∧ bc.backupJobId = bj.id := by
  simp only [ResticDatabase.joined, List.mem_flatMap, List.mem_map, List.mem_filter,
    decide_eq_true_eq, Prod.mk.injEq]
  constructor
  · rintro ⟨bj', hbj, bc', hbc, rfl, rfl⟩
    exact ⟨hbj, hbc⟩
  · intro ⟨hbj, hbc⟩
    exact ⟨bj, hbj, bc, hbc, rfl, rfl⟩

def InKeepSet (row : RepoRow) (layout : ResticRepoLayout) (now : ℤ) (bj : BackupJob)
    (bc : BackupComponent) : Prop :=
  bj ∈ db.backupJobs ∧ bc ∈ db.backupComponents ∧ bc.backupJobId = bj.id ∧
    bj.tenantId = row.tenantId ∧ (layout = .perTenant ∨ bc.component.text = row.component) ∧
    db.BundleIsLive (timestamp now) bj

/-- The recorded id names the snapshot: in full, by its short id, or by eight characters or more. -/
def Names (recorded : String) (s : Snapshot) : Prop :=
  s.id = recorded ∨ (s.shortId ≠ "" ∧ s.shortId = recorded) ∨
    (8 ≤ length recorded ∧
      (startsWith s.id recorded = true ∨ startsWith recorded s.id = true))

/-- A live bundle with a row in the keep-set records the snapshot, or is the one that the first
`bundle-id=` tag of the snapshot names. -/
def Vouched (row : RepoRow) (layout : ResticRepoLayout) (now : ℤ) (s : Snapshot) : Prop :=
  ∃ bj bc, InKeepSet db row layout now bj bc ∧
    ((∃ recorded, bc.sha256 = some recorded ∧ recorded ≠ "" ∧ Names recorded s) ∨
      (bundleIdFromTags s.tags = some bj.id ∧ bj.id ≠ ""))

variable {row : RepoRow} {layout : ResticRepoLayout} {now : ℤ}

theorem mem_keepRows {sha : Option String} {bundleId : String} :
    (sha, bundleId) ∈ db.keepRows row.tenantId row.component layout now ↔
      ∃ bj bc, InKeepSet db row layout now bj bc ∧ bc.sha256 = sha ∧ bj.id = bundleId := by
  simp only [ResticDatabase.keepRows, List.mem_map, List.mem_filter, decide_eq_true_eq,
    Prod.exists, mem_joined, Prod.mk.injEq, InKeepSet, and_assoc]

theorem mem_keepSnapshotIds {k : String} :
    k ∈ db.keepSnapshotIds row.tenantId row.component layout now ↔
      ∃ bj bc, InKeepSet db row layout now bj bc ∧ bc.sha256 = some k ∧ k ≠ "" := by
  simp only [ResticDatabase.keepSnapshotIds, List.mem_filterMap, Prod.exists,
    Option.filter_eq_some_iff, decide_eq_true_eq]
  constructor
  · rintro ⟨sha, bundleId, hrow, hsha, hk⟩
    obtain ⟨bj, bc, hin, hbc, -⟩ := (mem_keepRows db).mp hrow
    exact ⟨bj, bc, hin, hbc.trans hsha, hk⟩
  · rintro ⟨bj, bc, hin, hbc, hk⟩
    exact ⟨some k, bj.id, (mem_keepRows db).mpr ⟨bj, bc, hin, hbc, rfl⟩, rfl, hk⟩

theorem mem_keepBundleIds {bundleId : String} :
    bundleId ∈ db.keepBundleIds row.tenantId row.component layout now ↔
      ∃ bj bc, InKeepSet db row layout now bj bc ∧ bj.id = bundleId := by
  simp only [ResticDatabase.keepBundleIds, List.mem_map, Prod.exists]
  constructor
  · rintro ⟨sha, b, hrow, hb⟩
    obtain ⟨bj, bc, hin, -, hid⟩ := (mem_keepRows db).mp hrow
    exact ⟨bj, bc, hin, hid.trans hb⟩
  · rintro ⟨bj, bc, hin, hid⟩
    exact ⟨bc.sha256, bundleId, (mem_keepRows db).mpr ⟨bj, bc, hin, rfl, hid⟩, rfl⟩

theorem isKept_iff {snap : Snapshot} {ids bundles : List String} : isKept snap ids bundles = true ↔
      (∃ k ∈ ids, Names k snap) ∨
        ∃ bid ∈ bundles, bundleIdFromTags snap.tags = some bid ∧ bid ≠ "" := by
  simp only [isKept, Bool.or_eq_true, Bool.and_eq_true, decide_eq_true_eq, List.any_eq_true,
    bne_iff_ne, Option.any_eq_true, or_assoc]
  constructor
  · rintro (hid | ⟨hne, hshort⟩ | ⟨k, hk, hlen, hpre⟩ | ⟨bid, hbid, hne, hmem⟩)
    · exact .inl ⟨_, hid, .inl rfl⟩
    · exact .inl ⟨_, hshort, .inr (.inl ⟨hne, rfl⟩)⟩
    · exact .inl ⟨k, hk, .inr (.inr ⟨hlen, hpre⟩)⟩
    · exact .inr ⟨bid, hmem, hbid, hne⟩
  · rintro (⟨k, hk, rfl | ⟨hne, rfl⟩ | hpre⟩ | ⟨bid, hmem, hbid, hne⟩)
    · exact .inl hk
    · exact .inr (.inl ⟨hne, hk⟩)
    · exact .inr (.inr (.inl ⟨k, hk, hpre⟩))
    · exact .inr (.inr (.inr ⟨bid, hbid, hne, hmem⟩))

/-- The two lists that the sweep hands to `isKept` keep exactly the snapshots vouched for. -/
theorem isKept_iff_vouched {snap : Snapshot} :
    isKept snap (db.keepSnapshotIds row.tenantId row.component layout now)
        (db.keepBundleIds row.tenantId row.component layout now) = true ↔
      Vouched db row layout now snap := by
  rw [isKept_iff]
  constructor
  · rintro (⟨k, hk, hnames⟩ | ⟨bid, hbid, htag, hne⟩)
    · obtain ⟨bj, bc, hin, hsha, hk0⟩ := (mem_keepSnapshotIds db).mp hk
      exact ⟨bj, bc, hin, .inl ⟨k, hsha, hk0, hnames⟩⟩
    · obtain ⟨bj, bc, hin, rfl⟩ := (mem_keepBundleIds db).mp hbid
      exact ⟨bj, bc, hin, .inr ⟨htag, hne⟩⟩
  · rintro ⟨bj, bc, hin, ⟨k, hsha, hk0, hnames⟩ | ⟨htag, hne⟩⟩
    · exact .inl ⟨k, (mem_keepSnapshotIds db).mpr ⟨bj, bc, hin, hsha, hk0⟩, hnames⟩
    · exact .inr ⟨bj.id, (mem_keepBundleIds db).mpr ⟨bj, bc, hin, rfl⟩, htag, hne⟩

end KeepSet

theorem mem_planRepoReclamation_forget {dateParse : String → Option ℤ}
    {args : PlanRepoReclamationArgs} {id : String} :
    id ∈ (planRepoReclamation dateParse args).forget ↔
      (args.hasHistory = true ∨ args.force = true) ∧ ∃ s ∈ args.snapshots, s.id = id ∧
          ¬ isKept s args.keepSnapshotIds args.keepBundleIds = true ∧
          ∃ t, dateParse s.time = some t ∧ t ≤ args.minAgeCutoff := by
  have hold : ∀ s : Snapshot, tooYoung dateParse args.minAgeCutoff s = false ↔
      ∃ t, dateParse s.time = some t ∧ t ≤ args.minAgeCutoff := by
    intro s
    unfold tooYoung
    cases hs : dateParse s.time with
    | none => simp
    | some t => simp
  unfold planRepoReclamation
  by_cases hguard : (!args.hasHistory && !args.snapshots.isEmpty && !args.force) = true
  · rw [if_pos hguard]
    simp only [Bool.and_eq_true, Bool.not_eq_true'] at hguard
    simp [hguard.1.1, hguard.2]
  · rw [if_neg hguard]
    simp only [List.mem_map, List.mem_filter, Bool.not_eq_true', Bool.or_eq_false_iff, hold,
      Bool.not_eq_true]
    constructor
    · rintro ⟨s, ⟨hs, hkept, hage⟩, rfl⟩
      have hne : args.snapshots.isEmpty = false := by
        simpa using List.ne_nil_of_mem hs
      refine ⟨?_, s, hs, rfl, hkept, hage⟩
      simp only [hne, Bool.not_false, Bool.and_true, Bool.and_eq_true, Bool.not_eq_true',
        not_and, Bool.not_eq_false] at hguard
      by_cases hhist : args.hasHistory = true
      · exact .inl hhist
      · exact .inr (hguard (by simpa using hhist))
    · rintro ⟨-, s, hs, rfl, hkept, hage⟩
      exact ⟨s, ⟨hs, hkept, hage⟩, rfl⟩

section Writes

/-- What the writes of a sweep made for `row` leave as it was: all that is read for any other row,
and for `row` itself all but the layouts, which are read before the first write. -/
structure SameReads (row : RepoRow) (db db' : ResticDatabase) : Prop where
  frozen : ∀ tenantId, db'.onFrozenTargets tenantId = db.onFrozenTargets tenantId
  keep : ∀ tenantId component layout now,
    db'.keepRows tenantId component layout now = db.keepRows tenantId component layout now
  history : ∀ tenantId component, db'.hasHistory tenantId component = db.hasHistory tenantId component
  layouts : ∀ tenantId component, RepoRow.mk tenantId component ≠ row →
    db'.layoutsHoldingSnapshots tenantId component = db.layoutsHoldingSnapshots tenantId component

variable {row : RepoRow} {db db' db'' : ResticDatabase}

theorem SameReads.refl (row : RepoRow) (db : ResticDatabase) : SameReads row db db :=
  ⟨fun _ => rfl, fun _ _ _ _ => rfl, fun _ _ => rfl, fun _ _ _ => rfl⟩

theorem SameReads.trans (h : SameReads row db db') (h' : SameReads row db' db'') :
    SameReads row db db'' where
  frozen t := (h'.frozen t).trans (h.frozen t)
  keep t c layout now := (h'.keep t c layout now).trans (h.keep t c layout now)
  history t c := (h'.history t c).trans (h.history t c)
  layouts t c hne := (h'.layouts t c hne).trans (h.layouts t c hne)

/-- The table of the repositories examined is not read once the sweep is under way. -/
theorem sameReads_of_catalogue (hcat : db'.toCatalogue = db.toCatalogue)
    (hstate : db'.tenantResticRepoState = db.tenantResticRepoState) : SameReads row db db' := by
  obtain ⟨cat, state, reclaim, settings⟩ := db
  obtain ⟨cat', state', reclaim', settings'⟩ := db'
  obtain rfl : cat' = cat := hcat
  obtain rfl : state' = state := hstate
  exact ⟨fun _ => rfl, fun _ _ _ _ => rfl, fun _ _ => rfl, fun _ _ _ => rfl⟩

theorem upsertReclaimState_sameReads (tenantId component : String)
    (set : ResticRepoReclaimState → ResticRepoReclaimState) :
    SameReads row db (db.upsertReclaimState tenantId component set) := by
  unfold ResticDatabase.upsertReclaimState
  split
  · exact sameReads_of_catalogue rfl rfl
  · exact sameReads_of_catalogue rfl rfl

theorem note_sameReads (args : ResticRetentionArgs) (sweptAt : ℤ) :
    SameReads row db (note args db row sweptAt) := by
  unfold note
  split
  · exact .refl row db
  · exact upsertReclaimState_sameReads ..

/-- A component row after the stamping of those in `gone`. -/
def stamped (gone : List String) (stampedAt : ℤ) (bc : BackupComponent) : BackupComponent :=
  if bc.id ∈ gone then { bc with snapshotReclaimedAt := some (timestamp stampedAt) } else bc

section Stamped

variable (gone : List String) (stampedAt : ℤ) (bc : BackupComponent)

@[simp] theorem stamped_id : (stamped gone stampedAt bc).id = bc.id := by
  unfold stamped
  split <;> rfl

@[simp] theorem stamped_backupJobId : (stamped gone stampedAt bc).backupJobId = bc.backupJobId := by
  unfold stamped
  split <;> rfl

@[simp] theorem stamped_component : (stamped gone stampedAt bc).component = bc.component := by
  unfold stamped
  split <;> rfl

@[simp] theorem stamped_status : (stamped gone stampedAt bc).status = bc.status := by
  unfold stamped
  split <;> rfl

@[simp] theorem stamped_sha256 : (stamped gone stampedAt bc).sha256 = bc.sha256 := by
  unfold stamped
  split <;> rfl

theorem stamped_of_notMem (h : bc.id ∉ gone) : stamped gone stampedAt bc = bc := if_neg h

end Stamped

def stampComponents (db : ResticDatabase) (gone : List String) (stampedAt : ℤ) : ResticDatabase :=
  { db with
    toCatalogue := db.toCatalogue.updateComponents (stamped gone stampedAt)
      (stamped_id gone stampedAt) }

theorem stampReclaimedComponents_eq (tenantId component : String) (layout : ResticRepoLayout)
    (boundId : Option String) (stillPresent : List String) (stampedAt : ℤ) :
    db.stampReclaimedComponents tenantId component layout (.known boundId) stillPresent stampedAt =
      stampComponents db (db.goneComponents tenantId component layout boundId stillPresent)
        stampedAt := rfl

section StampComponents

variable (gone : List String) (stampedAt : ℤ)

theorem stampComponents_joined : (stampComponents db gone stampedAt).joined =
      db.joined.map fun p => (p.1, stamped gone stampedAt p.2) := by
  simp only [ResticDatabase.joined, stampComponents, Catalogue.updateComponents, List.map_flatMap,
    List.filter_map, List.map_map]
  apply List.flatMap_congr
  intro bj _
  simp [Function.comp_def]

/-- Whether a bundle is held does not depend on what was reclaimed. -/
theorem stampComponents_bundleIsLive (now : ℤ) (a : BackupJob) :
    (stampComponents db gone stampedAt).BundleIsLive now a ↔ db.BundleIsLive now a := by
  simp [Catalogue.BundleIsLive, Catalogue.HeldPastExpiry, Catalogue.Newer, stampComponents,
    Catalogue.updateComponents]

theorem stampComponents_keepRows (tenantId component : String) (layout : ResticRepoLayout)
    (now : ℤ) : (stampComponents db gone stampedAt).keepRows tenantId component layout now =
      db.keepRows tenantId component layout now := by
  simp only [ResticDatabase.keepRows, stampComponents_joined, List.filter_map, List.map_map,
    stampComponents_bundleIsLive, Function.comp_def, stamped_component, stamped_sha256]

theorem stampComponents_hasHistory (tenantId component : String) :
    (stampComponents db gone stampedAt).hasHistory tenantId component =
      db.hasHistory tenantId component := by
  simp only [ResticDatabase.hasHistory, stampComponents_joined, List.any_map, Function.comp_def,
    stamped_component]

theorem stampComponents_bundleLayouts {tenantId component : String}
    (h : ∀ bj bc, (bj, bc) ∈ db.joined → bj.tenantId = tenantId → bc.component.text = component →
      bc.id ∉ gone) : (stampComponents db gone stampedAt).bundleLayouts tenantId component =
      db.bundleLayouts tenantId component := by
  simp only [ResticDatabase.bundleLayouts, stampComponents_joined, List.filter_map, List.map_map,
    Function.comp_def, stamped_component, stamped_sha256]
  congr 2
  apply List.filter_congr
  rintro ⟨bj, bc⟩ hp
  by_cases hrow : bj.tenantId = tenantId ∧ bc.component.text = component
  · rw [stamped_of_notMem _ _ _ (h bj bc hp hrow.1 hrow.2)]
  · simp only [decide_eq_decide]
    constructor
    · intro hq
      exact absurd ⟨hq.1, hq.2.1⟩ hrow
    · intro hq
      exact absurd ⟨hq.1, hq.2.1⟩ hrow

end StampComponents

theorem goneComponents_of_joined {tenantId component : String} {layout : ResticRepoLayout}
    {boundId : Option String} {stillPresent : List String} {bj : BackupJob} {bc : BackupComponent}
    (hp : (bj, bc) ∈ db.joined)
    (h : bc.id ∈ db.goneComponents tenantId component layout boundId stillPresent) :
    bj.tenantId = tenantId ∧ bc.component.text = component := by
  simp only [ResticDatabase.goneComponents, List.mem_map, List.mem_filter, decide_eq_true_eq,
    Prod.exists] at h
  obtain ⟨bj', bc', ⟨hp', ht, hc, -⟩, hid⟩ := h
  obtain ⟨hbj, hbc, hjob⟩ := (mem_joined db).mp hp
  obtain ⟨hbj', hbc', hjob'⟩ := (mem_joined db).mp hp'
  obtain rfl : bc' = bc := List.inj_on_of_nodup_map db.componentKeys hbc' hbc hid
  obtain rfl : bj' = bj := List.inj_on_of_nodup_map db.jobKeys hbj' hbj (hjob'.symm.trans hjob)
  exact ⟨ht, hc⟩

theorem stampReclaimedComponents_sameReads (layout : ResticRepoLayout) (bound : BoundTenantTarget)
    (stillPresent : List String) (stampedAt : ℤ) :
    SameReads row db (db.stampReclaimedComponents row.tenantId row.component layout bound
      stillPresent stampedAt) := by
  cases bound with
  | known boundId =>
    rw [stampReclaimedComponents_eq]
    refine ⟨fun _ => rfl, fun t c l n => stampComponents_keepRows _ _ t c l n,
      fun t c => stampComponents_hasHistory _ _ t c, ?_⟩
    intro t c hne
    have hlayouts : (stampComponents db
        (db.goneComponents row.tenantId row.component layout boundId stillPresent)
        stampedAt).bundleLayouts t c = db.bundleLayouts t c := by
      apply stampComponents_bundleLayouts
      intro bj bc hp ht hc hgone
      obtain ⟨ht', hc'⟩ := goneComponents_of_joined hp hgone
      apply hne
      rw [← ht, ← hc, ht', hc']
    simp only [ResticDatabase.layoutsHoldingSnapshots, hlayouts]
    rfl
  | unresolved => exact .refl row db
  | switching => exact .refl row db

theorem dropSpentReclaimState_sameReads (tenantId component : String) :
    SameReads row db (db.dropSpentReclaimState tenantId component) :=
  sameReads_of_catalogue rfl rfl

end Writes

section Calls

variable (out : Surroundings) (args : ResticRetentionArgs) (cutoff : ℤ) {row : RepoRow}
  {db db' : ResticDatabase}

theorem repoPlan_congr (h : SameReads row db db') (r : RepoRow) (layout : ResticRepoLayout)
    (repository : Repository) :
    repoPlan out args cutoff db' r layout repository =
      repoPlan out args cutoff db r layout repository := by
  simp only [repoPlan, ResticDatabase.keepSnapshotIds, ResticDatabase.keepBundleIds, h.keep,
    h.history]

theorem repoPlan_forget_of_noDbHistory {layout : ResticRepoLayout} {repository : Repository}
    (h : (repoPlan out args cutoff db row layout repository).skip = some .noDbHistory) :
    (repoPlan out args cutoff db row layout repository).forget = [] := by
  unfold repoPlan planRepoReclamation at h ⊢
  split at h
  · rename_i hguard
    rw [if_pos hguard]
  · simp only at h
    split at h <;> cases h

def layoutCalls (db : ResticDatabase) (row : RepoRow) (layout : ResticRepoLayout)
    (repoUri : String) : List ForgetCall :=
  match (out.look row layout).listing with
  | .holds repository =>
    let forget := (repoPlan out args cutoff db row layout repository).forget
    if args.dryRun = true ∨ forget = [] then []
    else [{ row, layout, repoUri, snapshotIds := forget }]
  | _ => []

theorem sweepLayout_calls (db : ResticDatabase) (row : RepoRow) (layout : ResticRepoLayout)
    (repoUri : String) : (sweepLayout out args cutoff db row layout repoUri).2.1 =
      layoutCalls out args cutoff db row layout repoUri := by
  unfold sweepLayout layoutCalls
  dsimp only
  cases (out.look row layout).listing with
  | missing => rfl
  | failed => rfl
  | holds repository =>
    simp only
    by_cases hskip : (repoPlan out args cutoff db row layout repository).skip =
        some .noDbHistory
    · rw [if_pos hskip, repoPlan_forget_of_noDbHistory out args cutoff hskip]
      simp
    · rw [if_neg hskip]
      by_cases hforget : (repoPlan out args cutoff db row layout repository).forget = []
      · simp [hforget]
      · cases hdry : args.dryRun with
        | true => simp [hforget]
        | false =>
          simp only [List.isEmpty_iff, hforget, if_false, Bool.false_eq_true, or_self]
          split <;> rfl

theorem sweepLayout_sameReads (db : ResticDatabase) (row : RepoRow) (layout : ResticRepoLayout)
    (repoUri : String) :
    SameReads row db (sweepLayout out args cutoff db row layout repoUri).1 := by
  have hstamp : ∀ (db : ResticDatabase) (keep : List String) (stampedAt : ℤ),
      SameReads row db (if args.dryRun then db else
        db.stampReclaimedComponents row.tenantId row.component layout out.bound keep stampedAt) := by
    intro db keep stampedAt
    split
    · exact .refl row db
    · exact stampReclaimedComponents_sameReads layout out.bound keep stampedAt
  unfold sweepLayout
  dsimp only
  cases (out.look row layout).listing with
  | missing => exact note_sameReads args _
  | failed => exact note_sameReads args _
  | holds repository =>
    simp only
    split
    · exact note_sameReads args _
    split
    · exact (hstamp db _ _).trans (note_sameReads args _)
    split
    · exact .refl row db
    split
    · exact ((upsertReclaimState_sameReads _ _ _).trans
        (stampReclaimedComponents_sameReads _ _ _ _)).trans (note_sameReads args _)
    · exact note_sameReads args _

theorem layoutCalls_congr (h : SameReads row db db') (r : RepoRow) (layout : ResticRepoLayout)
    (repoUri : String) :
    layoutCalls out args cutoff db' r layout repoUri =
      layoutCalls out args cutoff db r layout repoUri := by
  unfold layoutCalls
  simp only [repoPlan_congr out args cutoff h]

variable (target : ShimTarget)

/-- The address of a repository of a row whose names `buildResticRepoUri` accepts. -/
def repoUriOf (row : RepoRow) (layout : ResticRepoLayout) : String :=
  (buildResticRepoUri target row.tenantId row.component layout).getD ""

theorem buildResticRepoUri_of_clientIdOk (hcomponent : row.component ∈ resticComponents)
    (hid : clientIdOk row.tenantId = true) (layout : ResticRepoLayout) :
    buildResticRepoUri target row.tenantId row.component layout =
      some (repoUriOf target row layout) := by
  simp [repoUriOf, buildResticRepoUri, hcomponent, hid]

theorem buildResticRepoUri_of_not_clientIdOk (hid : clientIdOk row.tenantId = false)
    (layout : ResticRepoLayout) :
    buildResticRepoUri target row.tenantId row.component layout = none := by
  simp [buildResticRepoUri, hid]

/-- The repositories of one row, one after the other: the calls are those that the tables before
the first of them ask for. -/
theorem sweepLayouts_calls (hcomponent : row.component ∈ resticComponents)
    (hid : clientIdOk row.tenantId = true) (h : SameReads row db db')
    (layouts : List ResticRepoLayout) :
    ∃ swept, sweepLayouts out args cutoff target row db' layouts = some swept ∧
      SameReads row db swept.1 ∧ swept.2.1 = layouts.flatMap fun layout =>
        layoutCalls out args cutoff db row layout (repoUriOf target row layout) := by
  induction layouts generalizing db' with
  | nil => exact ⟨(db', [], []), rfl, h, rfl⟩
  | cons layout layouts ih =>
    let here := sweepLayout out args cutoff db' row layout (repoUriOf target row layout)
    have hhere : SameReads row db here.1 := h.trans (sweepLayout_sameReads ..)
    have hcall : here.2.1 = layoutCalls out args cutoff db row layout (repoUriOf target row layout) :=
      (sweepLayout_calls ..).trans (layoutCalls_congr out args cutoff h ..)
    obtain ⟨rest, hrest, hreads, hcalls⟩ := ih hhere
    have hswept : sweepLayouts out args cutoff target row db' (layout :: layouts) =
        some (rest.1, here.2.1 ++ rest.2.1, here.2.2 :: rest.2.2) := by
      rw [sweepLayouts, buildResticRepoUri_of_clientIdOk target hcomponent hid, Option.bind_some]
      simp only [here, hrest, Option.map_some]
    exact ⟨_, hswept, hreads, by rw [List.flatMap_cons, ← hcalls, ← hcall]⟩

theorem layoutsHoldingSnapshots_ne_nil (db : ResticDatabase) (tenantId component : String) :
    db.layoutsHoldingSnapshots tenantId component ≠ [] := by
  unfold ResticDatabase.layoutsHoldingSnapshots
  dsimp only
  split
  · assumption
  · split
    · simp
    · simp [allRepoLayouts]

/-- The sweep gets past the row: it has no repository to look into, or one that has an address. -/
def Passable (db : ResticDatabase) (row : RepoRow) : Prop :=
  row.component ∉ resticComponents ∨ db.onFrozenTargets row.tenantId = true ∨
    clientIdOk row.tenantId = true

instance (db : ResticDatabase) (row : RepoRow) : Decidable (Passable db row) := by
  unfold Passable
  infer_instance

def rowCalls (db : ResticDatabase) (row : RepoRow) : List ForgetCall :=
  if row.component ∉ resticComponents ∨ db.onFrozenTargets row.tenantId = true then []
  else
    (db.layoutsHoldingSnapshots row.tenantId row.component).flatMap fun layout =>
      layoutCalls out args cutoff db row layout (repoUriOf target row layout)

theorem sweepRow_of_passable (h : Passable db row) :
    ∃ db', sweepRow out args cutoff target db row =
        some (db', rowCalls out args cutoff target db row) ∧ SameReads row db db' := by
  unfold sweepRow rowCalls
  by_cases hcomponent : row.component ∈ resticComponents
  · by_cases hfrozen : db.onFrozenTargets row.tenantId = true
    · refine ⟨_, ?_, note_sameReads args (out.notedAt row)⟩
      simp [hcomponent, hfrozen]
    · have hid : clientIdOk row.tenantId = true := by
        rcases h with h | h | h
        · exact absurd hcomponent h
        · exact absurd h hfrozen
        · exact h
      obtain ⟨swept, hswept, hreads, hcalls⟩ := sweepLayouts_calls out args cutoff target hcomponent
        hid (.refl row db) (db.layoutsHoldingSnapshots row.tenantId row.component)
      rw [if_neg (not_not_intro hcomponent), if_neg hfrozen, hswept, Option.map_some, ← hcalls,
        if_neg (not_or_intro (not_not_intro hcomponent) hfrozen)]
      by_cases hspent : args.dryRun = false ∧ nothingLeftToReclaim swept.2.2 = true
      · rw [if_pos hspent]
        exact ⟨_, rfl, hreads.trans (dropSpentReclaimState_sameReads _ _)⟩
      · rw [if_neg hspent]
        exact ⟨_, rfl, hreads⟩
  · refine ⟨_, ?_, note_sameReads args (out.notedAt row)⟩
    simp [hcomponent]

theorem sweepRow_of_not_passable (h : ¬ Passable db row) :
    sweepRow out args cutoff target db row = none := by
  simp only [Passable, not_or, not_not, Bool.not_eq_true] at h
  obtain ⟨hcomponent, hfrozen, hid⟩ := h
  unfold sweepRow
  rw [if_neg (not_not_intro hcomponent), if_neg (by simp [hfrozen])]
  cases hlayouts : db.layoutsHoldingSnapshots row.tenantId row.component with
  | nil => exact absurd hlayouts (layoutsHoldingSnapshots_ne_nil db _ _)
  | cons layout layouts =>
    rw [sweepLayouts, buildResticRepoUri_of_not_clientIdOk target hid]
    rfl

/-- What is read for a row that is still to come is as it was when the sweep began. -/
theorem rowCalls_congr {row' : RepoRow} (h : SameReads row db db') (hne : row' ≠ row) :
    rowCalls out args cutoff target db' row' = rowCalls out args cutoff target db row' := by
  unfold rowCalls
  rw [h.frozen, h.layouts _ _ hne]
  simp only [layoutCalls_congr out args cutoff h]

theorem passable_congr (h : SameReads row db db') (row' : RepoRow) :
    Passable db' row' ↔ Passable db row' := by
  unfold Passable
  rw [h.frozen]

/-- The calls of a forget pass are those of its rows, up to the first that stops it, all read off
the tables at its start. -/
theorem sweepRows_calls {rows : List RepoRow} (hrows : rows.Nodup) :
    (sweepRows out args cutoff target db rows).2 =
      (rows.takeWhile (Passable db)).flatMap (rowCalls out args cutoff target db) := by
  induction rows generalizing db with
  | nil => rfl
  | cons row rows ih =>
    obtain ⟨hnot, hnodup⟩ := List.nodup_cons.mp hrows
    by_cases hpass : Passable db row
    · obtain ⟨db', hrow, hreads⟩ := sweepRow_of_passable out args cutoff target hpass
      have hwhile : rows.takeWhile (fun r => decide (Passable db' r)) =
          rows.takeWhile (fun r => decide (Passable db r)) := by
        congr 1
        funext r
        exact decide_eq_decide.mpr (passable_congr hreads r)
      simp only [sweepRows, hrow, List.takeWhile_cons, hpass, decide_true, if_true,
        List.flatMap_cons, ih hnodup, hwhile]
      congr 1
      apply List.flatMap_congr
      intro r hr
      have hmem : r ∈ rows := (List.takeWhile_sublist _).mem hr
      apply rowCalls_congr out args cutoff target hreads
      intro heq
      exact hnot (heq ▸ hmem)
    · simp [sweepRows, sweepRow_of_not_passable out args cutoff target hpass, hpass]

end Calls

end Insula.TenantBundles
