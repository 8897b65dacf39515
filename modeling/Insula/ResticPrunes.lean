import Insula.ResticLiveSnapshots
import Mathlib.Data.List.Sort

/-!
# Frozen targets: what a sweep writes to them

A sweep writes through the shim, and so to the target that tenant backups are bound to. Whether a
target is frozen is asked for a tenant, of the targets that its bundles name: one bundle on another
target is enough for the forget pass to go ahead. The prune pass, which comes after it and is
modelled here, does not ask at all. The two passes leave a frozen target alone exactly when there is
nothing to forget for such tenants and no prune is due.
-/

namespace Insula.TenantBundles

open Javascript

/-- A row of `restic_repo_reclaim_state` as the prune pass reads it. -/
structure DueRow where
  tenantId : String
  component : String
  lastPruneAt : Option ℤ
  deriving DecidableEq

/-- Not after, in ascending order with NULL first. -/
def PrunedFirst (a b : DueRow) : Prop :=
  match a.lastPruneAt, b.lastPruneAt with
  | none, _ => True
  | some _, none => False
  | some x, some y => x ≤ y

structure DueOrder where
  arrange : List DueRow → List DueRow
  perm : ∀ rows, (arrange rows).Perm rows
  ordered : ∀ rows, (arrange rows).Pairwise PrunedFirst

/-- What `runResticPrune` of a repository comes to. -/
inductive PruneAnswer
  | pruned
  | missing
  | failed
  deriving DecidableEq

/-- The tables, with the column and the setting that only the prune pass reads. The forget pass
writes neither; a row that it inserts was never pruned. -/
structure PruneDatabase extends ResticDatabase where
  lastPruneAt : String → String → Option ℤ
  pruneMinIntervalHours : Option ℤ
  neverPruned : ∀ tenantId component,
    (∀ r ∈ resticRepoReclaimState, ¬ (r.tenantId = tenantId ∧ r.component = component)) →
      lastPruneAt tenantId component = none

structure PruneSurroundings where
  maxPrunes : Option ℕ
  /-- The clock when the interval between prunes is reckoned. -/
  now : ℤ
  order : DueOrder
  prune : String → PruneAnswer

def defaultMaxPrunes : ℕ := 4

def dueRows (args : ResticRetentionArgs) (lastPruneAt : String → String → Option ℤ)
    (pruneCutoff : ℤ) (db : ResticDatabase) : List DueRow :=
  (db.resticRepoReclaimState.filter fun r =>
    r.prunePending = true ∧
      (lastPruneAt r.tenantId r.component).all (fun t => decide (t < timestamp pruneCutoff)) = true ∧
      (truthy args.tenantId = false ∨ args.tenantId = some r.tenantId)).map fun r =>
    { tenantId := r.tenantId
      component := r.component
      lastPruneAt := lastPruneAt r.tenantId r.component }

def pruneRepositories (prune : String → PruneAnswer) :
    List (String × Bool) → List String → List (String × Bool) × List String × Bool
  | outcomes, [] => (outcomes, [], false)
  | outcomes, repoUri :: repoUris =>
    match outcomes.lookup repoUri with
    | some ok =>
      let rest := pruneRepositories prune outcomes repoUris
      (rest.1, rest.2.1, !ok || rest.2.2)
    | none =>
      let ok := decide (prune repoUri ≠ .failed)
      let rest := pruneRepositories prune ((repoUri, ok) :: outcomes) repoUris
      (rest.1, repoUri :: rest.2.1, !ok || rest.2.2)

def ResticDatabase.recordPrune (db : ResticDatabase) (tenantId component : String) :
    ResticDatabase :=
  { db with
    resticRepoReclaimState := db.resticRepoReclaimState.map fun r =>
      if r.tenantId = tenantId ∧ r.component = component then { r with prunePending := false }
      else r }

/-- The prune pass over the due rows, with the repositories that it calls `runResticPrune` for. -/
def prunePass (prune : String → PruneAnswer) (target : ShimTarget) :
    ResticDatabase → List (String × Bool) → List DueRow → ResticDatabase × List String
  | db, _, [] => (db, [])
  | db, outcomes, row :: rows =>
    if row.component ∉ resticComponents then prunePass prune target db outcomes rows
    else
      match allRepoLayouts.mapM (buildResticRepoUri target row.tenantId row.component) with
      -- Here the throw is caught, and the row stays pending.
      | none => prunePass prune target db outcomes rows
      | some repoUris =>
        let pruned := pruneRepositories prune outcomes repoUris
        let db' := if pruned.2.2 then db else db.recordPrune row.tenantId row.component
        let rest := prunePass prune target db' pruned.1 rows
        (rest.1, pruned.2.1 ++ rest.2)

section Sweep

variable (out : Surroundings) (args : ResticRetentionArgs)

/-- The forget pass comes to its end: `buildResticRepoUri` throws for none of the rows. -/
def sweepRowsReturn (minAgeCutoff : ℤ) (target : ShimTarget) : ResticDatabase → List RepoRow → Bool
  | _, [] => true
  | db, row :: rows =>
    match sweepRow out args minAgeCutoff target db row with
    | none => false
    | some (db', _) => sweepRowsReturn minAgeCutoff target db' rows

def pruneCutoff (db : PruneDatabase) (prunes : PruneSurroundings) : ℤ :=
  prunes.now - db.pruneMinIntervalHours.getD 24 * 60 * 60 * 1000

def prunable (db : PruneDatabase) (prunes : PruneSurroundings) (swept : ResticDatabase) :
    List DueRow :=
  (prunes.order.arrange (dueRows args db.lastPruneAt (pruneCutoff db prunes) swept)).take
    (prunes.maxPrunes.getD defaultMaxPrunes)

/-- The repositories that a sweep calls `runResticPrune` for. -/
def sweepPrunes (db : PruneDatabase) (stateRows : db.StateRows args) (prunes : PruneSurroundings) :
    List String :=
  if forgetDisabled out args db.toResticDatabase || stateRows.rows.isEmpty then []
  else
    match out.target with
    | none => []
    | some target =>
      if out.bound = .switching then []
      else if sweepRowsReturn out args (minAgeCutoff out db.toResticDatabase) target
          db.toResticDatabase stateRows.rows = false then []
      else if args.dryRun then []
      else
        let swept := (runResticRetentionSweep out args db.toResticDatabase stateRows).1
        (prunePass prunes.prune target swept [] (prunable args db prunes swept)).2

end Sweep

/-! ## The prune pass prunes whatever is due -/

/-- A due row with repositories that have an address. -/
def HasAddress (row : DueRow) : Prop :=
  row.component ∈ resticComponents ∧ clientIdOk row.tenantId = true

theorem mapM_buildResticRepoUri (target : ShimTarget) (row : DueRow) :
    (HasAddress row → ∃ first rest, allRepoLayouts.mapM
        (buildResticRepoUri target row.tenantId row.component) = some (first :: rest)) ∧
      (¬ HasAddress row → allRepoLayouts.mapM
        (buildResticRepoUri target row.tenantId row.component) = none) := by
  unfold HasAddress buildResticRepoUri allRepoLayouts
  constructor
  · intro h
    simp [h]
  · intro h
    simp [h]

theorem prunePass_calls_eq_nil_iff {prune : String → PruneAnswer} {target : ShimTarget}
    {db : ResticDatabase} {rows : List DueRow} :
    (prunePass prune target db [] rows).2 = [] ↔ ∀ row ∈ rows, ¬ HasAddress row := by
  induction rows with
  | nil => simp [prunePass]
  | cons row rows ih =>
    obtain ⟨hhas, hnot⟩ := mapM_buildResticRepoUri target row
    by_cases haddress : HasAddress row
    · obtain ⟨first, rest, huris⟩ := hhas haddress
      have hne : (prunePass prune target db [] (row :: rows)).2 ≠ [] := by
        simp [prunePass, haddress.1, huris, pruneRepositories]
      constructor
      · intro h
        exact absurd h hne
      · intro h
        exact absurd haddress (h row List.mem_cons_self)
    · have hskip : prunePass prune target db [] (row :: rows) =
          prunePass prune target db [] rows := by
        by_cases hcomponent : row.component ∈ resticComponents
        · simp [prunePass, hcomponent, hnot haddress]
        · simp [prunePass, hcomponent]
      rw [hskip, ih]
      simp [haddress]

/-! ## A forget pass that forgets nothing leaves the pending prunes as they were -/

def pendingKeys (db : ResticDatabase) : List (String × String) :=
  (db.resticRepoReclaimState.filter fun r => r.prunePending).map fun r => (r.tenantId, r.component)

theorem dueRows_eq (args : ResticRetentionArgs) (lastPruneAt : String → String → Option ℤ)
    (cutoff : ℤ) (db : ResticDatabase) : dueRows args lastPruneAt cutoff db =
      ((pendingKeys db).filter fun k =>
        (lastPruneAt k.1 k.2).all (fun t => decide (t < timestamp cutoff)) = true ∧
          (truthy args.tenantId = false ∨ args.tenantId = some k.1)).map fun k =>
        { tenantId := k.1, component := k.2, lastPruneAt := lastPruneAt k.1 k.2 } := by
  unfold dueRows pendingKeys
  rw [List.filter_map, List.map_map, List.filter_filter]
  congr 1
  apply List.filter_congr
  intro r _
  cases r.prunePending with
  | false => simp
  | true => simp

section PendingKeys

variable {db : ResticDatabase}

theorem pendingKeys_upsertReclaimState (tenantId component : String)
    {set : ResticRepoReclaimState → ResticRepoReclaimState}
    (hset : ∀ r, (set r).tenantId = r.tenantId ∧ (set r).component = r.component ∧
      (set r).prunePending = r.prunePending) :
    pendingKeys (db.upsertReclaimState tenantId component set) = pendingKeys db := by
  unfold ResticDatabase.upsertReclaimState pendingKeys
  split
  · dsimp only
    rw [List.filter_map, List.map_map]
    have hpending : (fun r : ResticRepoReclaimState => r.prunePending) ∘ (fun r =>
        if r.tenantId = tenantId ∧ r.component = component then set r else r) =
          fun r => r.prunePending := by
      funext r
      simp only [Function.comp]
      split
      · exact (hset r).2.2
      · rfl
    rw [hpending]
    apply List.map_congr_left
    intro r _
    simp only [Function.comp]
    split
    · rw [(hset r).1, (hset r).2.1]
    · rfl
  · dsimp only
    rw [List.filter_append, List.map_append]
    simp [(hset _).2.2]

theorem pendingKeys_note (args : ResticRetentionArgs) (row : RepoRow) (sweptAt : ℤ) :
    pendingKeys (note args db row sweptAt) = pendingKeys db := by
  unfold note
  split
  · rfl
  · exact pendingKeys_upsertReclaimState _ _ (fun r => ⟨rfl, rfl, rfl⟩)

theorem pendingKeys_stampReclaimedComponents (tenantId component : String)
    (layout : ResticRepoLayout) (bound : BoundTenantTarget) (stillPresent : List String)
    (stampedAt : ℤ) :
    pendingKeys (db.stampReclaimedComponents tenantId component layout bound stillPresent
      stampedAt) = pendingKeys db := by
  cases bound <;> rfl

/-- A row is only dropped once its prune has been done. -/
theorem pendingKeys_dropSpentReclaimState (tenantId component : String) :
    pendingKeys (db.dropSpentReclaimState tenantId component) = pendingKeys db := by
  unfold ResticDatabase.dropSpentReclaimState pendingKeys
  dsimp only
  rw [List.filter_filter]
  congr 1
  apply List.filter_congr
  intro r _
  cases hpending : r.prunePending with
  | false => simp
  | true => simp

variable (out : Surroundings) (args : ResticRetentionArgs) (cutoff : ℤ) {row : RepoRow}
  {target : ShimTarget}

theorem pendingKeys_sweepLayout {layout : ResticRepoLayout} {repoUri : String}
    (h : (sweepLayout out args cutoff db row layout repoUri).2.1 = []) :
    pendingKeys (sweepLayout out args cutoff db row layout repoUri).1 = pendingKeys db := by
  unfold sweepLayout at h ⊢
  dsimp only at h ⊢
  cases hlisting : (out.look row layout).listing with
  | missing => exact pendingKeys_note args row _
  | failed => exact pendingKeys_note args row _
  | holds repository =>
    rw [hlisting] at h
    simp only at h ⊢
    split
    · exact pendingKeys_note args row _
    · rename_i hskip
      rw [if_neg hskip] at h
      split
      · rw [pendingKeys_note]
        split
        · rfl
        · exact pendingKeys_stampReclaimedComponents ..
      · rename_i hforget
        rw [if_neg hforget] at h
        split
        · rfl
        · rename_i hdry
          rw [if_neg hdry] at h
          split at h <;> cases h

theorem pendingKeys_sweepLayouts {layouts : List ResticRepoLayout}
    {swept : ResticDatabase × List ForgetCall × List RepoSeen}
    (hswept : sweepLayouts out args cutoff target row db layouts = some swept)
    (h : swept.2.1 = []) : pendingKeys swept.1 = pendingKeys db := by
  induction layouts generalizing db swept with
  | nil =>
    cases hswept
    rfl
  | cons layout layouts ih =>
    simp only [sweepLayouts, Option.bind_eq_some_iff, Option.map_eq_some_iff] at hswept
    obtain ⟨repoUri, -, there, hthere, rfl⟩ := hswept
    obtain ⟨hhere, hrest⟩ := List.append_eq_nil_iff.mp h
    rw [ih hthere hrest]
    exact pendingKeys_sweepLayout out args cutoff hhere

theorem pendingKeys_sweepRow {swept : ResticDatabase × List ForgetCall}
    (hswept : sweepRow out args cutoff target db row = some swept) (h : swept.2 = []) :
    pendingKeys swept.1 = pendingKeys db := by
  unfold sweepRow at hswept
  split at hswept
  · cases hswept
    exact pendingKeys_note args row _
  split at hswept
  · cases hswept
    exact pendingKeys_note args row _
  rw [Option.map_eq_some_iff] at hswept
  obtain ⟨there, hthere, rfl⟩ := hswept
  split at h
  · rename_i hspent
    rw [if_pos hspent, pendingKeys_dropSpentReclaimState]
    exact pendingKeys_sweepLayouts out args cutoff hthere h
  · rename_i hspent
    rw [if_neg hspent]
    exact pendingKeys_sweepLayouts out args cutoff hthere h

theorem pendingKeys_sweepRows {rows : List RepoRow}
    (h : (sweepRows out args cutoff target db rows).2 = []) :
    pendingKeys (sweepRows out args cutoff target db rows).1 = pendingKeys db := by
  induction rows generalizing db with
  | nil => rfl
  | cons row rows ih =>
    simp only [sweepRows] at h ⊢
    cases hrow : sweepRow out args cutoff target db row with
    | none => rfl
    | some swept =>
      rw [hrow] at h
      obtain ⟨hcalls, hrest⟩ := List.append_eq_nil_iff.mp h
      simp only
      rw [ih hrest]
      exact pendingKeys_sweepRow out args cutoff hrow hcalls

/-- The pass ends when none of its rows stops it, and that can be told from the tables at its
start. -/
theorem sweepRowsReturn_iff {rows : List RepoRow} :
    sweepRowsReturn out args cutoff target db rows = true ↔ ∀ row ∈ rows, Passable db row := by
  induction rows generalizing db with
  | nil => simp [sweepRowsReturn]
  | cons row rows ih =>
    rw [List.forall_mem_cons]
    by_cases hpass : Passable db row
    · obtain ⟨db', hrow, hreads⟩ := sweepRow_of_passable out args cutoff target hpass
      simp only [sweepRowsReturn, hrow, ih, hpass, true_and]
      constructor
      · intro h r hr
        exact (passable_congr hreads r).mp (h r hr)
      · intro h r hr
        exact (passable_congr hreads r).mpr (h r hr)
    · simp [sweepRowsReturn, sweepRow_of_not_passable out args cutoff target hpass, hpass]

end PendingKeys

/-! ## What a sweep writes to a frozen target -/

section Statement

variable (out : Surroundings) (args : ResticRetentionArgs) (db : PruneDatabase)
  (stateRows : db.StateRows args) (prunes : PruneSurroundings)

def BoundIsFrozen : Prop :=
  ∃ target ∈ db.frozenTargets, ∀ boundId, out.bound = .known boundId → boundId = some target

def WritesNothing : Prop :=
  (runResticRetentionSweep out args db.toResticDatabase stateRows).2 = [] ∧
    sweepPrunes out args db stateRows prunes = []

/-- The bundles of the tenant name no target, or one that is not frozen. -/
def NamesUnfrozen (tenantId : String) : Prop :=
  (∀ bj ∈ db.backupJobs, bj.tenantId = tenantId → bj.targetConfigId = none) ∨
    ∃ bj ∈ db.backupJobs, bj.tenantId = tenantId ∧
      ∃ target, bj.targetConfigId = some target ∧ target ∉ db.frozenTargets

/-- Of a tenant with bundles elsewhere than on frozen targets, every snapshot that the sweep comes
upon is vouched for or too young, or its repository has no history. -/
def NothingToForget : Prop :=
  ∀ row ∈ stateRows.rows.takeWhile (Passable db.toResticDatabase),
    row.component ∈ resticComponents → NamesUnfrozen db row.tenantId →
    ∀ layout ∈ db.layoutsHoldingSnapshots row.tenantId row.component, ∀ repository,
    (out.look row layout).listing = .holds repository →
    (args.force = true ∨ db.hasHistory row.tenantId row.component = true) →
    ∀ s ∈ repository.snapshots, ∀ t, out.dateParse s.time = some t →
      t ≤ minAgeCutoff out db.toResticDatabase →
      Vouched db.toResticDatabase row layout (out.look row layout).now s

/-- No pending prune is due, unless the sweep does not get as far as the prune pass. -/
def NothingDue : Prop :=
  stateRows.rows ≠ [] → (∀ row ∈ stateRows.rows, Passable db.toResticDatabase row) →
    ∀ row ∈ prunable args db prunes db.toResticDatabase, ¬ HasAddress row

end Statement

section Frozen

variable {out : Surroundings} {args : ResticRetentionArgs} {db : PruneDatabase}
  {stateRows : db.StateRows args} {prunes : PruneSurroundings}

theorem onFrozenTargets_iff (hfrozen : BoundIsFrozen out db) (tenantId : String) :
    db.onFrozenTargets tenantId = false ↔ NamesUnfrozen db tenantId := by
  obtain ⟨target, htarget, -⟩ := hfrozen
  have hne : db.frozenTargets.isEmpty = false := by
    simpa using List.ne_nil_of_mem htarget
  unfold ResticDatabase.onFrozenTargets NamesUnfrozen
  simp only [hne, Bool.not_false, Bool.true_and, Bool.and_eq_false_iff, Bool.not_eq_false',
    List.isEmpty_iff, List.filterMap_eq_nil_iff, List.mem_filter, decide_eq_true_eq,
    List.all_eq_false, List.mem_filterMap, and_imp]
  constructor
  · rintro (hnone | ⟨t, ⟨bj, ⟨hbj, htenant⟩, hconfig⟩, hnot⟩)
    · exact .inl hnone
    · exact .inr ⟨bj, hbj, htenant, t, hconfig, by simpa using hnot⟩
  · rintro (hnone | ⟨bj, hbj, htenant, t, hconfig, hnot⟩)
    · exact .inl hnone
    · exact .inr ⟨t, ⟨bj, ⟨hbj, htenant⟩, hconfig⟩, by simpa using hnot⟩

theorem forgets_eq_nil_iff (hfrozen : BoundIsFrozen out db) :
    (runResticRetentionSweep out args db.toResticDatabase stateRows).2 = [] ↔
      (SweepRuns out args db.toResticDatabase → NothingToForget out args db stateRows) := by
  constructor
  · intro hnil hruns row hrow hcomponent hnames layout hlayout repository hlisting hhistory s hs t
      ht hold
    by_contra hvouched
    have hforget : s.id ∈ (repoPlan out args (minAgeCutoff out db.toResticDatabase)
        db.toResticDatabase row layout repository).forget :=
      mem_repoPlan_forget.mpr ⟨hhistory, s, hs, rfl, hvouched, t, ht, hold⟩
    obtain ⟨target, htarget⟩ := Option.ne_none_iff_exists'.mp hruns.2.1
    have hvisited : Visited db.toResticDatabase stateRows.rows row :=
      ⟨hrow, hcomponent, (onFrozenTargets_iff hfrozen _).mpr hnames⟩
    have hcall := mem_runResticRetentionSweep.mpr ⟨hruns, target, htarget, row, hvisited, layout,
      hlayout, mem_layoutCalls.mpr ⟨hruns.2.2.2, repository, hlisting,
        List.ne_nil_of_mem hforget, rfl⟩⟩
    rw [hnil] at hcall
    cases hcall
  · intro hnothing
    by_contra hne
    obtain ⟨call, hcall⟩ := List.exists_mem_of_ne_nil _ hne
    obtain ⟨hruns, target, -, row, ⟨hrow, hcomponent, hunfrozen⟩, layout, hlayout, hmem⟩ :=
      mem_runResticRetentionSweep.mp hcall
    obtain ⟨-, repository, hlisting, hforget, -⟩ := mem_layoutCalls.mp hmem
    obtain ⟨id, hid⟩ := List.exists_mem_of_ne_nil _ hforget
    obtain ⟨hhistory, s, hs, -, hnot, t, ht, hold⟩ := mem_repoPlan_forget.mp hid
    exact hnot (hnothing hruns row hrow hcomponent ((onFrozenTargets_iff hfrozen _).mp hunfrozen)
      layout hlayout repository hlisting hhistory s hs t ht hold)

/-- A sweep without forgets hands the prune pass the rows that were due when it began. -/
theorem prunable_of_no_forgets
    (h : (runResticRetentionSweep out args db.toResticDatabase stateRows).2 = []) :
    prunable args db prunes (runResticRetentionSweep out args db.toResticDatabase stateRows).1 =
      prunable args db prunes db.toResticDatabase := by
  have hkeys : pendingKeys (runResticRetentionSweep out args db.toResticDatabase stateRows).1 =
      pendingKeys db.toResticDatabase := by
    unfold runResticRetentionSweep at h ⊢
    split
    · rfl
    · rename_i hon
      rw [if_neg hon] at h
      cases htarget : out.target with
      | none => rfl
      | some target =>
        rw [htarget] at h
        simp only at h ⊢
        split
        · rfl
        · rename_i hbound
          rw [if_neg hbound] at h
          exact pendingKeys_sweepRows out args _ h
  unfold prunable
  rw [dueRows_eq, dueRows_eq, hkeys]

theorem prunes_eq_nil_iff
    (h : (runResticRetentionSweep out args db.toResticDatabase stateRows).2 = []) :
    sweepPrunes out args db stateRows prunes = [] ↔
      (SweepRuns out args db.toResticDatabase → NothingDue args db stateRows prunes) := by
  unfold sweepPrunes SweepRuns NothingDue
  by_cases hoff : (forgetDisabled out args db.toResticDatabase || stateRows.rows.isEmpty) = true
  · rw [if_pos hoff]
    simp only [Bool.or_eq_true, List.isEmpty_iff] at hoff
    rcases hoff with hoff | hoff
    · simp [hoff]
    · simp [hoff]
  · rw [if_neg hoff]
    simp only [Bool.or_eq_true, not_or, Bool.not_eq_true, List.isEmpty_eq_false_iff] at hoff
    cases htarget : out.target with
    | none => simp
    | some target =>
      by_cases hbound : out.bound = .switching
      · simp [hbound]
      · simp only [if_neg hbound]
        by_cases hreturn : sweepRowsReturn out args (minAgeCutoff out db.toResticDatabase) target
            db.toResticDatabase stateRows.rows = true
        · have hpass := (sweepRowsReturn_iff out args _).mp hreturn
          cases hdry : args.dryRun with
          | true => simp
          | false =>
            simp only [hreturn, Bool.true_eq_false, Bool.false_eq_true, if_false,
              prunable_of_no_forgets h, prunePass_calls_eq_nil_iff]
            constructor
            · intro hnone _ _ _
              exact hnone
            · intro hdue
              exact hdue ⟨hoff.1, by simp, hbound, trivial⟩ hoff.2 hpass
        · have hstops : ¬ ∀ row ∈ stateRows.rows, Passable db.toResticDatabase row :=
            fun hall => hreturn ((sweepRowsReturn_iff out args _).mpr hall)
          rw [if_pos (by simpa using hreturn)]
          simp only [true_iff]
          intro _ _ hall
          exact absurd hall hstops

end Frozen

/-- With the bound target frozen, a sweep writes nothing exactly when it does not run, or there is
nothing to forget for the tenants that have bundles elsewhere, and no prune is due. -/
theorem sweep_writes_nothing_iff (out : Surroundings) (args : ResticRetentionArgs)
    (db : PruneDatabase) (stateRows : db.StateRows args) (prunes : PruneSurroundings)
    (hfrozen : BoundIsFrozen out db) : WritesNothing out args db stateRows prunes ↔
      (SweepRuns out args db.toResticDatabase →
        NothingToForget out args db stateRows ∧ NothingDue args db stateRows prunes) := by
  unfold WritesNothing
  constructor
  · rintro ⟨hforgets, hprunes⟩ hruns
    exact ⟨(forgets_eq_nil_iff hfrozen).mp hforgets hruns,
      (prunes_eq_nil_iff hforgets).mp hprunes hruns⟩
  · intro hnothing
    have hforgets := (forgets_eq_nil_iff hfrozen).mpr fun hruns => (hnothing hruns).1
    exact ⟨hforgets, (prunes_eq_nil_iff hforgets).mpr fun hruns => (hnothing hruns).2⟩

section Replica

instance : DecidableRel PrunedFirst := fun a b =>
  match ha : a.lastPruneAt, hb : b.lastPruneAt with
  | none, _ => isTrue (by simp [PrunedFirst, ha])
  | some _, none => isFalse (by simp [PrunedFirst, ha, hb])
  | some x, some y => decidable_of_iff (x ≤ y) (by simp [PrunedFirst, ha, hb])

instance : Std.Total PrunedFirst where
  total a b := by
    unfold PrunedFirst
    cases a.lastPruneAt with
    | none => exact .inl trivial
    | some x =>
      cases b.lastPruneAt with
      | none => exact .inr trivial
      | some y => exact Int.le_total x y

instance : IsTrans DueRow PrunedFirst where
  trans a b c hab hbc := by
    unfold PrunedFirst at *
    cases ha : a.lastPruneAt with
    | none => trivial
    | some x =>
      cases hb : b.lastPruneAt with
      | none => simp [ha, hb] at hab
      | some y =>
        cases hc : c.lastPruneAt with
        | none => simp [hb, hc] at hbc
        | some z =>
          simp only [ha, hb, hc] at hab hbc ⊢
          exact Int.le_trans hab hbc

def tableOrder : DueOrder where
  arrange := List.insertionSort PrunedFirst
  perm := List.perm_insertionSort PrunedFirst
  ordered := List.pairwise_insertionSort PrunedFirst

def plainPrunes : PruneSurroundings where
  maxPrunes := none
  now := 1782864000000
  order := tableOrder
  prune _ := .pruned

/-- A tenant with a bundle on the frozen target `dr` and an expired one on another. -/
def replicaDb (target : String) (pending : Bool) : PruneDatabase where
  collation := .codePoint
  tenants := [{ id := "acme", status := .active }]
  backupJobs :=
    [{ id := "bkp-may", tenantId := "acme", initiator := .system, systemTrigger := some .scheduled,
       status := .expired, targetConfigId := some target, repoLayout := none, retentionDays := 14,
       expiresAt := some 1778803200000000, startedAt := none, createdAt := 1777593600000000 },
     { id := "bkp-june", tenantId := "acme", initiator := .admin, systemTrigger := none,
       status := .completed, targetConfigId := some "dr", repoLayout := none, retentionDays := 0,
       expiresAt := none, startedAt := none, createdAt := 1780272000000000 }]
  backupComponents :=
    [{ id := "1", backupJobId := "bkp-may", component := .files, status := .completed,
       sha256 := some "5e3ab01f", snapshotReclaimedAt := none }]
  backupConfigurations := [{ id := "dr", readOnly := true }, { id := "old", readOnly := false }]
  jobKeys := by simp
  componentKeys := by simp
  tenantResticRepoState := []
  resticRepoReclaimState :=
    [{ tenantId := "acme", component := "files", lastSweepAt := none, prunePending := pending }]
  tenantBackupV2Settings := none
  lastPruneAt _ _ := none
  pruneMinIntervalHours := none
  neverPruned _ _ _ := rfl

theorem replica_perm (target : String) (pending : Bool) :
    [({ tenantId := "acme", component := "files" } : RepoRow)].Perm
      ((replicaDb target pending).toResticDatabase.repoPairs.filter fun p =>
        truthy plainArgs.tenantId = false ∨ plainArgs.tenantId = some p.tenantId) :=
  List.Perm.refl _

def replicaRows (target : String) (pending : Bool) :
    (replicaDb target pending).StateRows plainArgs where
  arrangement := [{ tenantId := "acme", component := "files" }]
  perm := replica_perm target pending
  ordered := List.pairwise_singleton _ _

def replicaSweep : Surroundings := { julySweep borderRepository with bound := .known (some "dr") }

theorem replica_boundIsFrozen (target : String) (pending : Bool) :
    BoundIsFrozen replicaSweep (replicaDb target pending) := by
  refine ⟨"dr", by simp [ResticDatabase.frozenTargets, replicaDb], ?_⟩
  intro boundId hbound
  cases hbound
  rfl

/-- A tenant whose bundles are all on the frozen target, with no prune pending. -/
theorem sweep_writes_nothing_iff_replica :
    WritesNothing replicaSweep plainArgs (replicaDb "dr" false) (replicaRows "dr" false)
      plainPrunes := by
  apply (sweep_writes_nothing_iff _ _ _ _ _ (replica_boundIsFrozen "dr" false)).mpr
  intro _
  constructor
  · intro row hrow _ hnames
    have hin : row ∈ (replicaRows "dr" false).rows := (List.takeWhile_sublist _).mem hrow
    obtain rfl : row = _ := List.mem_singleton.mp hin
    rw [← onFrozenTargets_iff (replica_boundIsFrozen "dr" false)] at hnames
    exact absurd hnames (by decide)
  · intro _ _ row hrow
    have hnil : prunable plainArgs (replicaDb "dr" false) plainPrunes
        (replicaDb "dr" false).toResticDatabase = [] := by rfl
    rw [hnil] at hrow
    cases hrow

/-- One expired bundle on another target lets the sweep forget on the frozen one. And a prune that
was pending before the freeze is carried out. -/
theorem sweep_writes_to_frozen_target : (BoundIsFrozen replicaSweep (replicaDb "old" false) ∧
      ¬ WritesNothing replicaSweep plainArgs (replicaDb "old" false) (replicaRows "old" false)
        plainPrunes) ∧ BoundIsFrozen replicaSweep (replicaDb "dr" true) ∧
      ¬ WritesNothing replicaSweep plainArgs (replicaDb "dr" true) (replicaRows "dr" true)
        plainPrunes := by
  refine ⟨⟨replica_boundIsFrozen "old" false, ?_⟩, replica_boundIsFrozen "dr" true, ?_⟩
  · intro hnothing
    have hcall : filesCall ∈ (runResticRetentionSweep replicaSweep plainArgs
        (replicaDb "old" false).toResticDatabase (replicaRows "old" false)).2 := by decide
    rw [hnothing.1] at hcall
    cases hcall
  · intro hnothing
    have hprunes : sweepPrunes replicaSweep plainArgs (replicaDb "dr" true) (replicaRows "dr" true)
        plainPrunes = ["s3:http://backup-rclone-shim:9000/tenant/restic-files/acme",
          "s3:http://backup-rclone-shim:9000/tenant/restic/acme"] := by rfl
    rw [hnothing.2] at hprunes
    cases hprunes

end Replica

end Insula.TenantBundles
