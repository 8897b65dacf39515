import Insula.Redeploys
import Insula.VersionChangeRuns

/-!
# What the redeploys render

Four operations put together what they pass to `deployCatalogEntry`. Each passes what the row that
it leaves, its entry and its tenant determine, but for two things: a version change passes no extra
mounts, and an edit of the resources passes a request that is the empty string, which it does not
store.
-/

namespace Insula.Deployments

open Program

/-! ## Running alone -/

structure Snapshot where
  row : Deployment
  entry : Option CatalogEntry
  /-- The versions of the entry. -/
  versions : String → Option CatalogVersion
  tenant : Option Tenant
  plan : Option Plan
  others : List Deployment
  diskLimits : TenantDiskLimits
  routes : List SiteRoute
  inputs : List DeployCatalogEntryInput

namespace Snapshot

variable (c : Snapshot)

def writes (id : String) (guard : Guard) (set : Changes) : Bool × Snapshot :=
  if c.row.id = id && guard.holds c.row then (true, { c with row := set.applyTo c.row }) else (false, c)

def cleared : Snapshot :=
  { c with
    row := { c.row with
      lastError := none, statusMessage := none
      status := if c.row.status = .failed then .pending else c.row.status } }

def answer : (o : Op) → Val o × Snapshot
  | .selectDeployment tenantId id =>
    (if c.row.id = id && c.row.tenantId = tenantId then some c.row else none, c)
  | .selectUpdated id => (if c.row.id = id then some c.row else none, c)
  | .selectEntry _ => (c.entry, c)
  | .selectVersion _ version => (c.versions version, c)
  | .selectTenant _ => (c.tenant, c)
  | .selectPlan _ => (c.plan, c)
  | .selectOthers _ _ => (c.others, c)
  | .selectDiskLimits => (c.diskLimits, c)
  | .selectSiteRoutes _ => (c.routes, c)
  | .update id guard set => c.writes id guard set
  | .clearError _ => ((), c.cleared)
  | .deployCatalogEntry _ input => ((), { c with inputs := c.inputs ++ [input] })
  | .deletePods _ _ => ((), c)
  | .ensureTieredQuotaRoom _ _ => ((), c)
  | .dispatchCustomResources _ _ _ => ((), c)
  | .dispatchCustomRedeploy _ => ((), c)

def respond (o : Op) : Except Thrown (Val o) × Snapshot := (.ok (c.answer o).1, (c.answer o).2)

end Snapshot

inductive Redeploy
  | upgrade (input : UpgradeVersionInput)
  | rollback
  | resources (input : ResourcesInput)
  | current

def Redeploy.task (arith : Quantities.Arithmetic) (row : Deployment) : Redeploy → Task Unit
  | .upgrade input => do
      let _ ← upgradeDeploymentVersion row.tenantId row.id input
      return ()
  | .rollback => do
      let _ ← rollbackDeploymentVersion row.tenantId row.id
      return ()
  | .resources input => do
      let _ ← updateDeploymentResources arith row.tenantId row.id input true
      return ()
  | .current => redeployWithCurrentConfig row .default

/-- The operation ends well, has passed `x`, and leaves `e`. -/
def Passes (arith : Quantities.Arithmetic) (op : Redeploy) (c : Snapshot)
    (x : DeployCatalogEntryInput) (e : Snapshot) : Prop :=
  c.inputs = [] ∧ c.row.source = .catalog ∧
    runAlone Snapshot.respond (op.task arith c.row).run c = (.ok (), e) ∧ e.inputs = [x]

/-! ## What is compared -/

structure Shape where
  name : String
  installedVersion : Option String
  cpuRequest : String
  memoryRequest : String
  configuration : Option Record
  extraMounts : Option (List ExtraMount)
  multihostEnabled : Bool
  deriving DecidableEq

def Deployment.shape (row : Deployment) : Shape where
  name := row.name
  installedVersion := row.installedVersion
  cpuRequest := row.cpuRequest
  memoryRequest := row.memoryRequest
  configuration := row.configuration
  extraMounts := row.extraMounts
  multihostEnabled := row.multihostEnabled

structure Template where
  volumes : List Volume
  extraMounts : List ExtraMount
  multihost : Option MultihostMounts
  placement : TenantPlacement
  cpuRequest : String
  memoryRequest : String
  configuration : Record
  fixedEnvVars : Record
  configurableEnvKeys : List String
  firewall : Option ManifestFirewall
  hostPorts : List ManifestHostPort
  deriving DecidableEq

def DeployCatalogEntryInput.template (x : DeployCatalogEntryInput) : Template where
  volumes := x.volumes
  extraMounts := x.extraMounts.getD []
  multihost := x.multihost
  placement := x.placement
  cpuRequest := x.cpuRequest
  memoryRequest := x.memoryRequest
  configuration := x.configuration
  fixedEnvVars := x.fixedEnvVars
  configurableEnvKeys := x.configurableEnvKeys
  firewall := x.firewall
  hostPorts := x.hostPorts

def Snapshot.resolved (c : Snapshot) (entry : CatalogEntry) (version : Option String) :
    ResolvedDeploymentConfig :=
  resolveConfig entry ((effectiveVersion entry version).bind c.versions)

def Snapshot.render (c : Snapshot) (entry : CatalogEntry) (row : Shape) : Template :=
  let resolved := c.resolved entry row.installedVersion
  { volumes := resolved.volumes
    extraMounts := row.extraMounts.getD []
    multihost := multihostMountsFor row.name row.multihostEnabled entry (siteFoldersOf c.routes)
    placement := tenantPlacementOf c.tenant
    cpuRequest := row.cpuRequest
    memoryRequest := row.memoryRequest
    configuration := row.configuration.getD []
    fixedEnvVars := resolved.fixedEnvVars
    configurableEnvKeys := resolved.configurableEnvKeys
    firewall := readEntryFirewall entry
    hostPorts := readEntryHostPorts entry }

def Redeploy.changesVersion : Redeploy → Bool
  | .upgrade _ => true
  | .rollback => true
  | _ => false

/-- The operation hands on the empty string for the CPU, which it does not store. -/
def Redeploy.emptiesCpu (op : Redeploy) (c : Snapshot) : Bool :=
  match op with
  | .resources input =>
    input.cpuRequest = some "" && c.tenant.all fun t => t.cpuSchedulingMode = .legacy
  | _ => false

def Redeploy.emptiesMemory : Redeploy → Bool
  | .resources input => input.memoryRequest = some ""
  | _ => false

def Redeploy.expected (op : Redeploy) (c : Snapshot) (entry : CatalogEntry) (row : Shape) : Template :=
  { c.render entry row with
    extraMounts := if op.changesVersion then [] else row.extraMounts.getD []
    cpuRequest := if op.emptiesCpu c then "" else row.cpuRequest
    memoryRequest := if op.emptiesMemory then "" else row.memoryRequest }

/-! ## What a task leaves -/

/-- A task that runs alone ends in a snapshot that satisfies `R`, or throws in one that satisfies
`E`. -/
def Gives {α : Type} (R : Snapshot → α → Prop) (E : Snapshot → Prop) (x : Task α) (c : Snapshot) :
    Prop :=
  match (runAlone Snapshot.respond x.run c).1 with
  | .ok a => R (runAlone Snapshot.respond x.run c).2 a
  | .error _ => E (runAlone Snapshot.respond x.run c).2

section Gives

variable {α γ : Type} {R : Snapshot → α → Prop} {S : Snapshot → γ → Prop} {E : Snapshot → Prop}
  {c : Snapshot} {x : Task α} {P : α → Prop}

theorem return_gives {a : α} (h : R c a) : Gives R E (Pure.pure a) c := h

theorem fail_gives {code message : String} {status : ℕ} (h : E c) :
    Gives R E (fail code message status : Task α) c := h

theorem ask_gives {o : Op} {R : Snapshot → Val o → Prop} (h : R (c.answer o).2 (c.answer o).1) :
    Gives R E (ask o) c := h

theorem bind_gives {f : α → Task γ} (hx : Gives R E x c) (hf : ∀ e a, R e a → Gives S E (f a) e) :
    Gives S E (x >>= f) c := by
  have hrun : runAlone Snapshot.respond (x >>= f).run c =
      runAlone Snapshot.respond (ExceptT.bindCont f (runAlone Snapshot.respond x.run c).1)
        (runAlone Snapshot.respond x.run c).2 := runAlone_bind _
  unfold Gives at hx ⊢
  rw [hrun]
  generalize runAlone Snapshot.respond x.run c = result at hx ⊢
  obtain ⟨r, e⟩ := result
  cases r with
  | ok a => exact hf e a hx
  | error err => exact hx

theorem tryCatch_gives {F : Snapshot → Prop} {g : Thrown → Task α} (hx : Gives R F x c)
    (hg : ∀ e err, F e → Gives R E (g err) e) : Gives R E (tryCatch x g) c := by
  have hrun : runAlone Snapshot.respond (tryCatch x g).run c = _ :=
    runAlone_bind (p := x.run) Snapshot.respond
  unfold Gives at hx ⊢
  rw [hrun]
  generalize runAlone Snapshot.respond x.run c = result at hx ⊢
  obtain ⟨r, e⟩ := result
  cases r with
  | ok a => exact hx
  | error err => exact hg e err hx

theorem gives_mono {R' : Snapshot → α → Prop} {F : Snapshot → Prop} (hx : Gives R E x c)
    (hR : ∀ e a, R e a → R' e a) (hE : ∀ e, E e → F e) : Gives R' F x c := by
  unfold Gives at hx ⊢
  split
  · rename_i hrun
    rw [hrun] at hx
    exact hR _ _ hx
  · rename_i hrun
    rw [hrun] at hx
    exact hE _ hx

def Reads (P : α → Prop) (x : Task α) (c : Snapshot) : Prop :=
  Gives (fun e a => e = c ∧ P a) (· = c) x c

theorem reads_bind {f : α → Task γ} (hE : E c) (hx : Reads P x c)
    (hf : ∀ a, P a → Gives S E (f a) c) : Gives S E (x >>= f) c := by
  refine bind_gives (gives_mono hx (fun _ _ h => h) ?_) ?_
  · rintro _ rfl
    exact hE
  · rintro _ a ⟨rfl, ha⟩
    exact hf a ha

theorem reads_ask {o : Op} (h : (c.answer o).2 = c) : Reads (· = (c.answer o).1) (ask o) c :=
  ask_gives ⟨h, rfl⟩

theorem reads_return {a : α} (h : P a) : Reads P (Pure.pure a) c := return_gives ⟨rfl, h⟩

theorem reads_fail {code message : String} {status : ℕ} :
    Reads P (fail code message status : Task α) c := fail_gives rfl

end Gives

section Reading

variable {c : Snapshot} {d : Deployment} {tenantId : String}

theorem reads_refuseDeleted {action : String} :
    Reads (fun _ => True) (refuseDeleted d action) c := by
  unfold refuseDeleted
  split
  · exact reads_fail
  · exact reads_return trivial

theorem reads_assertCatalogSourced : Reads (fun _ => True) (assertCatalogSourced d) c := by
  unfold assertCatalogSourced
  split
  · exact reads_fail
  · exact reads_return trivial

theorem reads_loadDeployment :
    Reads (fun d => d = c.row) (loadDeployment c.row.tenantId c.row.id) c := by
  unfold loadDeployment
  refine reads_bind rfl (reads_ask rfl) ?_
  rintro found rfl
  have hfound : (c.answer (.selectDeployment c.row.tenantId c.row.id)).1 = some c.row := by
    simp [Snapshot.answer]
  rw [hfound]
  exact reads_bind rfl reads_assertCatalogSourced fun _ _ => reads_return rfl

theorem reads_getDeploymentById :
    Reads (fun d => d = c.row) (getDeploymentById c.row.tenantId c.row.id) c := by
  unfold getDeploymentById
  refine reads_bind rfl (reads_ask rfl) ?_
  rintro found rfl
  have hfound : (c.answer (.selectDeployment c.row.tenantId c.row.id)).1 = some c.row := by
    simp [Snapshot.answer]
  rw [hfound]
  exact reads_return rfl

theorem reads_loadEntry : Reads (fun entry => c.entry = some entry) (loadEntry d) c := by
  unfold loadEntry
  refine reads_bind rfl (reads_ask rfl) ?_
  intro found hfound
  cases found with
  | none => exact reads_fail
  | some entry => exact reads_return hfound.symm

theorem reads_loadTenant :
    Reads (fun tenant => c.tenant = some tenant) (loadTenant tenantId) c := by
  unfold loadTenant
  refine reads_bind rfl (reads_ask rfl) ?_
  intro found hfound
  cases found with
  | none => exact reads_fail
  | some tenant => exact reads_return hfound.symm

theorem reads_loadTenantPlacement :
    Reads (fun placement => placement = tenantPlacementOf c.tenant)
    (loadTenantPlacement tenantId) c := by
  unfold loadTenantPlacement
  refine reads_bind rfl reads_loadTenant ?_
  intro tenant htenant
  rw [htenant]
  exact reads_return rfl

theorem reads_getTenantNamespace : Reads (fun _ => True) (getTenantNamespace tenantId) c := by
  unfold getTenantNamespace
  exact reads_bind rfl reads_loadTenant fun _ _ => reads_return trivial

theorem reads_resolve {entry : CatalogEntry} {version : Option String} :
    Reads (fun resolved => resolved = c.resolved entry version)
      (resolveVersionAwareDeploymentConfig entry version) c := by
  unfold resolveVersionAwareDeploymentConfig Snapshot.resolved
  cases effectiveVersion entry version with
  | none => exact reads_return rfl
  | some v =>
    refine reads_bind rfl (reads_ask rfl) ?_
    rintro found rfl
    exact reads_return rfl

theorem reads_assertUpgradePath {entry : CatalogEntry} {target : CatalogVersion}
    {input : UpgradeVersionInput} :
    Reads (fun _ => True) (assertUpgradePath d entry target input) c := by
  unfold assertUpgradePath
  dsimp only
  split
  · exact reads_return trivial
  · split
    · exact reads_return trivial
    · split
      · exact reads_fail
      · split
        · exact reads_return trivial
        · exact reads_fail

theorem reads_loadNamespace {tenant : Option Tenant} :
    Reads (fun _ => True) (loadNamespace tenant) c := by
  unfold loadNamespace
  split
  · exact reads_fail
  · exact reads_return trivial

theorem reads_checkLimits {arith : Quantities.Arithmetic} {input : ResourcesInput}
    {tenant : Tenant} {plan : Option Plan} {others : List Deployment} :
    Reads (fun _ => True) (checkLimits arith d input tenant plan others) c := by
  unfold checkLimits
  dsimp only
  split
  · exact reads_fail
  · split
    · exact reads_fail
    · exact reads_return trivial

theorem reads_assertExtraMountsDoNotCollide {mounts : Option (List ExtraMount)}
    {volumes : List Volume} : Reads (fun _ => True)
    (assertExtraMountsDoNotCollide mounts volumes) c := by
  unfold assertExtraMountsDoNotCollide
  split
  · exact reads_return trivial
  · exact reads_fail

/-- A call that does not change the snapshot, and does not fail. -/
theorem reads_bestEffort {o : Op} (h : (c.answer o).2 = c) :
    Gives (fun e _ => e = c) (fun _ => False) (bestEffort o) c := by
  unfold bestEffort
  refine tryCatch_gives (F := fun _ => False) ?_ fun _ _ hfalse => hfalse.elim
  apply bind_gives (R := fun e _ => e = c) (ask_gives h)
  rintro _ _ rfl
  exact return_gives rfl

end Reading

/-! ## What each operation passes -/

/-- What an operation that began in `c` has passed, if it has passed one input. -/
def Expects (op : Redeploy) (c e : Snapshot) : Prop :=
  ∀ x, c.inputs = [] → e.inputs = [x] →
    ∃ entry, c.entry = some entry ∧ x.template = op.expected c entry e.row.shape

section Operations

variable {c e : Snapshot} {op : Redeploy} {entry : CatalogEntry} {d : Deployment}
  {input : ResourcesInput} {plan : Option Plan} {tenant : Tenant}

theorem expects_of_same (h : e.inputs = c.inputs) : Expects op c e := by
  intro x hnil hone
  rw [h, hnil] at hone
  cases hone

theorem expects_of_passed {y : DeployCatalogEntryInput} (hentry : c.entry = some entry)
    (h : e.inputs = c.inputs ++ [y]) (hy : y.template = op.expected c entry e.row.shape) :
    Expects op c e := by
  intro x hnil hone
  rw [h, hnil] at hone
  cases hone
  exact ⟨entry, hentry, hy⟩

theorem current_expects (hcatalog : c.row.source = .catalog) :
    Gives (fun e _ => Expects .current c e) (fun _ => True)
      (redeployWithCurrentConfig c.row .default) c := by
  unfold redeployWithCurrentConfig
  apply bind_gives (R := fun e _ => e = c.cleared) (ask_gives (o := .clearError c.row.id) rfl)
  rintro _ - rfl
  rw [if_neg (by rw [hcatalog]; exact nofun)]
  apply reads_bind trivial (reads_ask rfl)
  intro found hfound
  cases found with
  | none => exact fail_gives trivial
  | some entry =>
    apply reads_bind trivial reads_getTenantNamespace
    intro kubernetesNamespace _
    apply reads_bind trivial reads_resolve
    rintro _ rfl
    apply reads_bind trivial (reads_ask rfl)
    rintro _ rfl
    apply reads_bind trivial reads_loadTenantPlacement
    rintro _ rfl
    apply reads_bind trivial (reads_ask rfl)
    rintro _ rfl
    refine bind_gives (R := fun e _ => Expects .current c e)
      (ask_gives (o := .deployCatalogEntry _ _) (expects_of_passed hfound.symm rfl rfl)) ?_
    intro e _ he
    refine gives_mono (reads_bestEffort rfl) ?_ fun _ _ => trivial
    rintro _ _ rfl
    exact he

theorem changeVersion_gives {tenantId version code : String} {resolved : ResolvedDeploymentConfig}
    {finish : Changes} {revert : String → Changes} :
    Gives (fun e _ => ∃ kubernetesNamespace, e.row = finish.applyTo c.row ∧
        e.inputs = c.inputs ++
          [versionInput d entry c.tenant kubernetesNamespace resolved c.diskLimits c.routes])
      (fun _ => True)
      (changeVersion tenantId c.row.id version d entry resolved finish revert code) c := by
  unfold changeVersion
  apply reads_bind trivial (reads_ask rfl)
  rintro _ rfl
  apply reads_bind trivial reads_loadNamespace
  intro kubernetesNamespace _
  refine bind_gives (R := fun e _ => e.row = finish.applyTo c.row ∧ e.inputs = c.inputs ++
      [versionInput d entry c.tenant kubernetesNamespace resolved c.diskLimits c.routes])
    (tryCatch_gives (F := fun _ => True) ?_ ?_) ?_
  · unfold deployVersion
    refine bind_gives (R := fun e _ => e = { c with inputs := c.inputs ++
      [versionInput d entry c.tenant kubernetesNamespace resolved c.diskLimits c.routes] }) ?_ ?_
    · apply reads_bind trivial (reads_ask rfl)
      rintro _ rfl
      apply reads_bind trivial (reads_ask rfl)
      rintro _ rfl
      exact ask_gives (o := .deployCatalogEntry _ _) rfl
    · rintro _ - rfl
      refine bind_gives (R := fun e _ => e.row = finish.applyTo c.row ∧ e.inputs = c.inputs ++
        [versionInput d entry c.tenant kubernetesNamespace resolved c.diskLimits c.routes])
        (ask_gives ?_) fun _ _ he => return_gives he
      simp [Snapshot.answer, Snapshot.writes, Guard.holds]
  · intro e err _
    apply bind_gives (R := fun _ _ => True) (ask_gives trivial)
    intro _ _ _
    exact fail_gives trivial
  · rintro e - ⟨hrow, hinputs⟩
    exact ask_gives (o := .selectUpdated _) ⟨kubernetesNamespace, hrow, hinputs⟩

theorem lock_gives {guard : Guard} {lock : Changes} :
    Gives (fun e locked => locked = true → e = { c with row := lock.applyTo c.row }) (fun _ => True)
      (ask (.update c.row.id guard lock)) c := by
  apply ask_gives (o := .update c.row.id guard lock)
  change (c.writes c.row.id guard lock).1 = true → (c.writes c.row.id guard lock).2 = _
  unfold Snapshot.writes
  split
  · intro _
    rfl
  · intro hfalse
    cases hfalse

theorem upgrade_expects {input : UpgradeVersionInput} :
    Gives (fun e _ => Expects (.upgrade input) c e) (fun _ => True)
      (upgradeDeploymentVersion c.row.tenantId c.row.id input) c := by
  unfold upgradeDeploymentVersion
  apply reads_bind trivial reads_loadDeployment
  rintro _ rfl
  apply reads_bind trivial reads_refuseDeleted
  intro _ _
  apply reads_bind trivial reads_loadEntry
  intro entry hentry
  apply reads_bind trivial (reads_ask rfl)
  intro found _
  cases found with
  | none => exact fail_gives trivial
  | some target =>
    dsimp only
    split
    · exact return_gives (expects_of_same rfl)
    · apply reads_bind trivial reads_assertUpgradePath
      intro _ _
      unfold upgradeLocked
      apply reads_bind trivial reads_resolve
      rintro _ rfl
      apply bind_gives lock_gives
      intro e locked hlocked
      cases locked with
      | false => exact fail_gives trivial
      | true =>
        cases hlocked rfl
        rw [if_pos rfl]
        refine gives_mono
          (changeVersion_gives (c := { c with row := (upgradeLock c.row input.targetVersion).applyTo c.row })) ?_
          fun _ _ => trivial
        rintro e - ⟨kubernetesNamespace, hrow, hinputs⟩
        apply expects_of_passed hentry hinputs
        rw [hrow]
        rfl

theorem rollback_expects : Gives (fun e _ => Expects .rollback c e) (fun _ => True)
      (rollbackDeploymentVersion c.row.tenantId c.row.id) c := by
  unfold rollbackDeploymentVersion
  apply reads_bind trivial reads_loadDeployment
  rintro _ rfl
  split
  · exact fail_gives trivial
  · rename_i toVersion _
    apply reads_bind trivial reads_loadEntry
    intro entry hentry
    apply reads_bind trivial (reads_ask rfl)
    intro found _
    cases found with
    | none => exact fail_gives trivial
    | some target =>
      change Gives _ _ (rollbackLocked c.row.tenantId c.row.id toVersion c.row entry) _
      unfold rollbackLocked
      apply reads_bind trivial reads_resolve
      rintro _ rfl
      apply bind_gives lock_gives
      intro e locked hlocked
      cases locked with
      | false => exact fail_gives trivial
      | true =>
        cases hlocked rfl
        rw [if_pos rfl]
        refine gives_mono
          (changeVersion_gives (c := { c with row := (rollbackLock toVersion).applyTo c.row })) ?_
          fun _ _ => trivial
        rintro e - ⟨kubernetesNamespace, hrow, hinputs⟩
        apply expects_of_passed hentry hinputs
        rw [hrow]
        rfl

theorem reads_found {tenantId id : String} :
    Reads (fun _ => True) (getDeploymentById tenantId id) c := by
  unfold getDeploymentById
  refine reads_bind rfl (reads_ask rfl) ?_
  intro found _
  cases found with
  | none => exact reads_fail
  | some d => exact reads_return trivial

theorem applyResources_gives {kubernetesNamespace : String} {resolved : ResolvedDeploymentConfig} :
    Gives (fun e _ => e.inputs = c.inputs ∨ e.row = c.row ∧ e.inputs = c.inputs ++
        [editedInput d input entry (tenantPlacementOf c.tenant) kubernetesNamespace resolved
          c.diskLimits
          c.routes])
      (fun _ => True) (applyResources d input entry kubernetesNamespace resolved) c := by
  unfold applyResources
  apply tryCatch_gives (F := fun e => e.inputs = c.inputs)
  · refine reads_bind rfl reads_assertExtraMountsDoNotCollide ?_
    intro _ _
    refine reads_bind rfl (reads_ask rfl) ?_
    rintro _ rfl
    refine reads_bind rfl reads_loadTenantPlacement ?_
    rintro _ rfl
    refine reads_bind rfl (reads_ask rfl) ?_
    rintro _ rfl
    refine bind_gives (R := fun e _ => e.row = c.row ∧ e.inputs = c.inputs ++
        [editedInput d input entry (tenantPlacementOf c.tenant) kubernetesNamespace resolved
          c.diskLimits
          c.routes])
      (ask_gives (o := .deployCatalogEntry _ _) ⟨rfl, rfl⟩) ?_
    intro e _ he
    refine gives_mono (reads_bestEffort rfl) ?_ fun _ hfalse => hfalse.elim
    rintro _ _ rfl
    exact .inr he
  · intro e err hsame
    refine bind_gives (R := fun e _ => e.inputs = c.inputs) (ask_gives ?_) ?_
    · change (e.writes d.id _ _).2.inputs = _
      unfold Snapshot.writes
      split
      · exact hsame
      · exact hsame
    · intro e' _ hsame'
      split
      · exact fail_gives trivial
      · exact return_gives (.inl hsame')

theorem notAppliable_gives {R : Snapshot → Unit → Prop} {detail : String} :
    Gives R (fun _ => True) (notAppliable d detail) c := by
  unfold notAppliable
  apply bind_gives (R := fun _ _ => True) (ask_gives trivial)
  intro _ _ _
  exact fail_gives trivial

theorem redeployResources_gives :
    Gives (fun e _ => e.inputs = c.inputs ∨ ∃ entry kubernetesNamespace, c.entry = some entry ∧
        e.row = c.row ∧ e.inputs = c.inputs ++
          [editedInput d input entry (tenantPlacementOf c.tenant) kubernetesNamespace
            (c.resolved entry d.installedVersion) c.diskLimits c.routes])
      (fun _ => True) (redeployResources d input) c := by
  unfold redeployResources
  apply reads_bind trivial reads_getTenantNamespace
  intro kubernetesNamespace _
  apply reads_bind trivial (reads_ask rfl)
  intro found hfound
  cases found with
  | none => exact notAppliable_gives
  | some entry =>
    dsimp only
    split
    · exact notAppliable_gives
    · apply reads_bind trivial reads_resolve
      rintro _ rfl
      refine gives_mono applyResources_gives ?_ fun _ _ => trivial
      rintro e - (hsame | ⟨hrow, hinputs⟩)
      · exact .inl hsame
      · exact .inr ⟨entry, kubernetesNamespace, hfound.symm, hrow, hinputs⟩

theorem millicores_ne (tier : CpuTier) : tier.millicores ≠ "" := by
  cases tier with
  | _ => decide

theorem present_getD (s : Option String) (row : String) :
    s.getD row = if s = some "" then "" else (present s).getD row := by
  cases s with
  | none => rfl
  | some t =>
    by_cases ht : t = ""
    · subst ht
      rfl
    · have hpresent : present (some t) = some t :=
        Option.filter_eq_some_iff.mpr ⟨rfl, by simpa using ht⟩
      rw [hpresent, if_neg (fun heq => ht (Option.some.inj heq))]

theorem normalised_cpu (htenant : c.tenant = some tenant) :
    (normalisedInput plan tenant input).cpuRequest = some "" ↔
      (Redeploy.resources input).emptiesCpu c = true := by
  unfold normalisedInput Redeploy.emptiesCpu newWorkloadCpuFor
  rw [htenant]
  cases hmode : tenant.cpuSchedulingMode with
  | legacy => simp [hmode]
  | tiered =>
    simp only [hmode, Option.all_some]
    constructor
    · intro hsome
      obtain ⟨s, -, hs⟩ := Option.map_eq_some_iff.mp hsome
      exact (millicores_ne _ hs).elim
    · simp

theorem normalised_memory :
    (normalisedInput plan tenant input).memoryRequest = input.memoryRequest := by
  unfold normalisedInput
  split
  · rfl
  · rfl

theorem edited_template {kubernetesNamespace : String} (htenant : c.tenant = some tenant) :
    (editedInput c.row (normalisedInput plan tenant input) entry (tenantPlacementOf c.tenant)
        kubernetesNamespace (c.resolved entry c.row.installedVersion) c.diskLimits c.routes).template =
      (Redeploy.resources input).expected c entry
        ((resourceChanges (normalisedInput plan tenant input)).applyTo c.row).shape := by
  have hcpu := present_getD (normalisedInput plan tenant input).cpuRequest c.row.cpuRequest
  have hmemory := present_getD (normalisedInput plan tenant input).memoryRequest c.row.memoryRequest
  rw [if_congr (normalised_cpu htenant) rfl rfl] at hcpu
  rw [normalised_memory] at hmemory
  have hempties : (if input.memoryRequest = some "" then "" else
      (present input.memoryRequest).getD c.row.memoryRequest) =
      if (Redeploy.resources input).emptiesMemory then "" else
        (present input.memoryRequest).getD c.row.memoryRequest := by
    simp [Redeploy.emptiesMemory]
  rw [hempties] at hmemory
  unfold DeployCatalogEntryInput.template Redeploy.expected
  simp only [editedInput, hcpu, normalised_memory, hmemory]
  simp [Snapshot.render, Deployment.shape, Changes.applyTo, resourceChanges, Redeploy.changesVersion,
    normalised_memory]

theorem stored_expects (hcatalog : c.row.source = .catalog) (htenant : c.tenant = some tenant) :
    Gives (fun e _ => Expects (.resources input) c e) (fun _ => True)
      (storeResources c.row (normalisedInput plan tenant input) true) c := by
  unfold storeResources
  rw [if_neg (by rw [hcatalog]; exact nofun)]
  refine bind_gives (R := fun e _ =>
    e = { c with row := (resourceChanges (normalisedInput plan tenant input)).applyTo c.row }) ?_ ?_
  · apply ask_gives (o := .update c.row.id {} _)
    simp [Snapshot.answer, Snapshot.writes, Guard.holds]
  · rintro _ - rfl
    rw [if_pos rfl]
    refine gives_mono redeployResources_gives ?_ fun _ _ => trivial
    rintro e - (hsame | ⟨entry, kubernetesNamespace, hentry, hrow, hinputs⟩)
    · exact expects_of_same hsame
    · apply expects_of_passed hentry hinputs
      rw [hrow]
      exact edited_template htenant

theorem resources_expects {arith : Quantities.Arithmetic} (hcatalog : c.row.source = .catalog) :
    Gives (fun e _ => Expects (.resources input) c e) (fun _ => True)
      (updateDeploymentResources arith c.row.tenantId c.row.id input true) c := by
  unfold updateDeploymentResources
  apply reads_bind trivial reads_getDeploymentById
  rintro _ rfl
  apply reads_bind trivial reads_refuseDeleted
  intro _ _
  apply reads_bind trivial reads_loadTenant
  intro tenant htenant
  apply reads_bind trivial (reads_ask rfl)
  intro plan _
  apply reads_bind trivial (reads_ask rfl)
  intro others _
  apply reads_bind trivial reads_checkLimits
  intro _ _
  have hrest : Gives (fun e _ => Expects (.resources input) c e) (fun _ => True)
      (do
        storeResources c.row (normalisedInput plan tenant input) true
        getDeploymentById c.row.tenantId c.row.id) c := by
    apply bind_gives (stored_expects hcatalog htenant)
    intro e _ he
    exact gives_mono reads_found (fun _ _ hsame => by rw [hsame.1]; exact he) fun _ _ => trivial
  dsimp only
  split
  · apply bind_gives (gives_mono (reads_bestEffort rfl) (fun _ _ h => h) fun _ _ => trivial)
    rintro _ - rfl
    split
    · exact return_gives (expects_of_same rfl)
    · exact hrest
  · split
    · exact return_gives (expects_of_same rfl)
    · exact hrest

end Operations

/-! ## Two operations -/

variable {c : Snapshot}

theorem passes_expected {arith : Quantities.Arithmetic} {op : Redeploy} {e : Snapshot}
    {x : DeployCatalogEntryInput} (h : Passes arith op c x e) :
    ∃ entry, c.entry = some entry ∧ x.template = op.expected c entry e.row.shape := by
  obtain ⟨hnil, hcatalog, hrun, hone⟩ := h
  have hgives : Gives (fun e _ => Expects op c e) (fun _ => True) (op.task arith c.row) c := by
    cases op with
    | upgrade input => exact bind_gives upgrade_expects fun _ _ he => return_gives he
    | rollback => exact bind_gives rollback_expects fun _ _ he => return_gives he
    | resources input => exact bind_gives (resources_expects hcatalog) fun _ _ he => return_gives he
    | current => exact current_expects hcatalog
  unfold Gives at hgives
  rw [hrun] at hgives
  exact hgives x hnil hone

/-- Two snapshots around one deployment: the entry, the tenant and the sites are the same. -/
structure Alike (c c' : Snapshot) : Prop where
  entry : c.entry = c'.entry
  versions : c.versions = c'.versions
  tenant : c.tenant = c'.tenant
  routes : c.routes = c'.routes

theorem render_eq_of_alike {c' : Snapshot} (h : Alike c c') (entry : CatalogEntry) (row : Shape) :
    c.render entry row = c'.render entry row := by
  unfold Snapshot.render Snapshot.resolved
  rw [h.versions, h.tenant, h.routes]

/-- A default that one flag or the other puts in the place of a value. -/
theorem ite_eq_ite_iff_flags {α : Type} {a b : Bool} {d m : α} :
    (if a then d else m) = (if b then d else m) ↔ m = d ∨ a = b := by
  cases a with
  | true =>
    cases b with
    | true => simp
    | false => simp [eq_comm]
  | false =>
    cases b with
    | true => simp
    | false => simp

theorem redeploys_agree_iff (arith : Quantities.Arithmetic) {op op' : Redeploy}
    {c c' e e' : Snapshot} {x x' : DeployCatalogEntryInput} (halike : Alike c c')
    (h : Passes arith op c x e) (h' : Passes arith op' c' x' e')
    (hrow : e.row.shape = e'.row.shape) : x.template = x'.template ↔
      (e.row.extraMounts.getD [] = [] ∨ op.changesVersion = op'.changesVersion) ∧
        (e.row.cpuRequest = "" ∨ op.emptiesCpu c = op'.emptiesCpu c') ∧
        (e.row.memoryRequest = "" ∨ op.emptiesMemory = op'.emptiesMemory) := by
  obtain ⟨entry, hentry, hx⟩ := passes_expected h
  obtain ⟨entry', hentry', hx'⟩ := passes_expected h'
  cases Option.some.inj (hentry.symm.trans (halike.entry.trans hentry'))
  rw [hx, hx', ← hrow]
  unfold Redeploy.expected
  rw [render_eq_of_alike halike]
  simp only [Template.mk.injEq, ite_eq_ite_iff_flags, true_and, and_true]
  rfl

/-! ### An upgrade and a redeploy -/

theorem passes_of_run {arith : Quantities.Arithmetic} {op : Redeploy}
    {x : DeployCatalogEntryInput} (hnil : c.inputs = []) (hcatalog : c.row.source = .catalog)
    (hok : (runAlone Snapshot.respond (op.task arith c.row).run c).1.isOk = true)
    (hone : (runAlone Snapshot.respond (op.task arith c.row).run c).2.inputs = [x]) :
    Passes arith op c x (runAlone Snapshot.respond (op.task arith c.row).run c).2 := by
  refine ⟨hnil, hcatalog, ?_, hone⟩
  generalize runAlone Snapshot.respond (op.task arith c.row).run c = result at hok ⊢
  obtain ⟨r, e⟩ := result
  cases r with
  | ok _ => rfl
  | error err => cases hok

def snapshotOf (row : Deployment) : Snapshot where
  row := row
  entry := some anEntry
  versions v := some (aVersion v)
  tenant := some aTenant
  plan := none
  others := []
  diskLimits := { appMb := 1024, databaseMb := 2048 }
  routes := []
  inputs := []

def anUpgradeTo2 : Redeploy := .upgrade { targetVersion := "2", force := false }

def upgraded (row : Deployment) : Deployment :=
  { row with installedVersion := some "2", targetVersion := some "2", previousVersion := some "1" }

def inputOf (op : Redeploy) (row : Deployment) : DeployCatalogEntryInput :=
  match op with
  | .current => currentInput row anEntry (tenantPlacementOf (some aTenant)) "tenant-t"
      (resolveConfig anEntry (some (aVersion "2"))) { appMb := 1024, databaseMb := 2048 } [] .default
  | _ => versionInput row anEntry (some aTenant) "tenant-t"
      (resolveConfig anEntry (some (aVersion "2"))) { appMb := 1024, databaseMb := 2048 } []

def endOf (row : Deployment) (op : Redeploy) : Snapshot :=
  (runAlone Snapshot.respond (op.task Quantities.exactArithmetic row).run (snapshotOf row)).2

def mounted : Deployment :=
  { aDeployment with
    extraMounts := some [{ folder := "media", mountPath := "/var/www/media", readOnly := false }] }

theorem upgrade_passes (row : Deployment) (hrow : row = aDeployment ∨ row = mounted) :
    Passes Quantities.exactArithmetic anUpgradeTo2 (snapshotOf row) (inputOf anUpgradeTo2 row)
      (endOf row anUpgradeTo2) := by
  rcases hrow with rfl | rfl
  · exact passes_of_run rfl rfl (by rfl) (by rfl)
  · exact passes_of_run rfl rfl (by rfl) (by rfl)

theorem current_passes (row : Deployment) (hrow : row = aDeployment ∨ row = mounted) :
    Passes Quantities.exactArithmetic .current (snapshotOf (upgraded row))
      (inputOf .current (upgraded row)) (endOf (upgraded row) .current) := by
  rcases hrow with rfl | rfl
  · exact passes_of_run rfl rfl (by rfl) (by rfl)
  · exact passes_of_run rfl rfl (by rfl) (by rfl)

theorem alike_upgraded (row : Deployment) : Alike (snapshotOf row) (snapshotOf (upgraded row)) where
  entry := rfl
  versions := rfl
  tenant := rfl
  routes := rfl

/-- Without extra mounts the two agree. -/
theorem unmounted_agree :
    (inputOf anUpgradeTo2 aDeployment).template = (inputOf .current (upgraded aDeployment)).template :=
  (redeploys_agree_iff Quantities.exactArithmetic (alike_upgraded aDeployment)
    (upgrade_passes aDeployment (.inl rfl)) (current_passes aDeployment (.inl rfl))
    (by rfl)).mpr ⟨.inl (by rfl), .inr rfl, .inr rfl⟩

theorem upgrade_drops_mounts : ¬ ∀ (arith : Quantities.Arithmetic) (op op' : Redeploy)
    (c c' e e' : Snapshot) (x x' : DeployCatalogEntryInput), Alike c c' → Passes arith op c x e →
    Passes arith op' c' x' e' → e.row.shape = e'.row.shape → x.template = x'.template := by
  intro hall
  have heq := hall Quantities.exactArithmetic anUpgradeTo2 .current (snapshotOf mounted)
    (snapshotOf (upgraded mounted)) (endOf mounted anUpgradeTo2) (endOf (upgraded mounted) .current)
    (inputOf anUpgradeTo2 mounted) (inputOf .current (upgraded mounted)) (alike_upgraded mounted)
    (upgrade_passes mounted (.inr rfl)) (current_passes mounted (.inr rfl)) (by rfl)
  have hmounts : (inputOf anUpgradeTo2 mounted).template.extraMounts ≠
      (inputOf .current (upgraded mounted)).template.extraMounts := by decide
  exact hmounts (congrArg Template.extraMounts heq)

end Insula.Deployments
