import Insula.DeploymentStatements

/-!
# Version changes of a deployment

`upgradeDeploymentVersion` and `rollbackDeploymentVersion`: the row is locked by an update that its
installed version must match, the version is deployed, and then the row is written again.
-/

namespace Insula.Deployments

structure UpgradeVersionInput where
  targetVersion : String
  force : Bool
  deriving DecidableEq

def assertCatalogSourced (deployment : Deployment) : Task Unit :=
  if deployment.source ≠ .catalog then
    fail "NOT_SUPPORTED_FOR_CUSTOM" ("Catalog upgrade flow is not applicable to custom deployments — " ++
      "use the /upgrade-tag endpoint instead.") 400
  else return ()

def loadDeployment (tenantId deploymentId : String) : Task Deployment := do
  match ← ask (.selectDeployment tenantId deploymentId) with
  | none => fail "DEPLOYMENT_NOT_FOUND" ("Deployment " ++ deploymentId ++ " not found") 404
  | some deployment =>
    assertCatalogSourced deployment
    return deployment

def loadEntry (deployment : Deployment) : Task CatalogEntry := do
  match ← ask (.selectEntry (deployment.catalogEntryId.getD "")) with
  | none => fail "CATALOG_ENTRY_GONE" "Catalog entry no longer exists" 410
  | some entry => return entry

def assertUpgradePath (deployment : Deployment) (entry : CatalogEntry) (target : CatalogVersion)
    (input : UpgradeVersionInput) : Task Unit :=
  let lockMode := entry.versionLockMode.getD .advisory
  let upgradeFrom := target.upgradeFrom.getD []
  match deployment.installedVersion.filter (· ≠ "") with
  | none => return ()
  | some installed =>
    if lockMode = .open || installed ∈ upgradeFrom then return ()
    else if lockMode = .strict then
      fail "UPGRADE_PATH_NOT_SUPPORTED" (entry.code ++ " requires one-major-at-a-time upgrades. " ++
        installed ++ " → " ++ input.targetVersion ++
        " is not in the allowed upgrade path. Allowed source versions for " ++ input.targetVersion ++
        ": " ++ (if upgradeFrom.isEmpty then "(none — fresh install only)"
          else ", ".intercalate upgradeFrom) ++ ".") 409
    else if input.force then return ()
    else fail "UPGRADE_PATH_UNCONFIRMED" ("Upgrade " ++ installed ++ " → " ++ input.targetVersion ++
      " is not in the recommended path. Pass force=true to proceed.") 409

def loadNamespace (tenant : Option Tenant) : Task String :=
  match (tenant.bind Tenant.kubernetesNamespace).filter (· ≠ "") with
  | none => fail "TENANT_NOT_PROVISIONED" "Tenant namespace is missing" 500
  | some name => return name

def versionInput (deployment : Deployment) (entry : CatalogEntry) (tenant : Option Tenant)
    (kubernetesNamespace : String) (resolved : ResolvedDeploymentConfig) (diskLimits : TenantDiskLimits)
    (routes : List SiteRoute) : DeployCatalogEntryInput where
  diskLimits := diskLimits
  placement := tenantPlacementOf tenant
  deploymentName := deployment.name
  storagePath := deployment.storagePath.getD ""
  kubernetesNamespace := kubernetesNamespace
  components := resolved.components
  volumes := resolved.volumes
  extraMounts := none
  replicaCount := deployment.replicaCount
  cpuRequest := deployment.cpuRequest
  memoryRequest := deployment.memoryRequest
  storageRequest := storageRequestOf entry
  configuration := deployment.configuration.getD []
  fixedEnvVars := resolved.fixedEnvVars
  configurableEnvKeys := resolved.configurableEnvKeys
  firewall := readEntryFirewall entry
  multihost := multihostMountsFor deployment.name deployment.multihostEnabled entry
    (siteFoldersOf routes)
  hostPorts := readEntryHostPorts entry
  reuseExistingData := none
  catalogCode := none
  passwordEnvVar := none
  timezone := none

def deployVersion (version : String) (deployment : Deployment) (entry : CatalogEntry)
    (tenant : Option Tenant) (kubernetesNamespace : String) (resolved : ResolvedDeploymentConfig) :
    Task Unit := do
  let diskLimits ← ask .selectDiskLimits
  let routes ← ask (.selectSiteRoutes deployment.id)
  ask (.deployCatalogEntry (some version)
    (versionInput deployment entry tenant kubernetesNamespace resolved diskLimits routes))

def changeVersion (tenantId deploymentId version : String) (deployment : Deployment)
    (entry : CatalogEntry) (resolved : ResolvedDeploymentConfig) (finish : Changes)
    (revert : String → Changes) (code : String) : Task (Option Deployment) := do
  let tenant ← ask (.selectTenant tenantId)
  let kubernetesNamespace ← loadNamespace tenant
  tryCatch
    (do
      deployVersion version deployment entry tenant kubernetesNamespace resolved
      let _ ← ask (.update deploymentId {} finish)
      return ())
    fun err => do
      let _ ← ask (.update deploymentId {} (revert err.message))
      fail code err.message 500
  ask (.selectUpdated deploymentId)

section Changes

variable (deployment : Deployment)

def upgradeGuard : Guard := { installedVersion := some deployment.installedVersion }

def upgradeLock (targetVersion : String) : Changes where
  targetVersion := some (some targetVersion)
  previousVersion := some deployment.installedVersion
  status := some .pending
  lastError := some none

def upgradeFinish (targetVersion : String) : Changes where
  installedVersion := some (some targetVersion)

def upgradeRevert (targetVersion message : String) : Changes where
  status := some .failed
  targetVersion := some deployment.installedVersion
  previousVersion := some deployment.previousVersion
  lastError := some (some ("Upgrade to " ++ targetVersion ++ " failed: " ++ message))

def rollbackGuard (toVersion : String) : Guard where
  installedVersion := some deployment.installedVersion
  previousVersion := some toVersion

def rollbackLock (toVersion : String) : Changes where
  targetVersion := some (some toVersion)
  status := some .pending
  lastError := some none

def rollbackFinish (toVersion : String) : Changes where
  installedVersion := some (some toVersion)
  previousVersion := some none

def rollbackRevert (toVersion message : String) : Changes where
  status := some .failed
  targetVersion := some deployment.installedVersion
  lastError := some (some ("Rollback to " ++ toVersion ++ " failed: " ++ message))

end Changes

section Programs

variable (tenantId deploymentId : String)

def upgradeLocked (input : UpgradeVersionInput) (deployment : Deployment) (entry : CatalogEntry) :
    Task (Option Deployment) := do
  let resolved ← resolveVersionAwareDeploymentConfig entry (some input.targetVersion)
  let locked ← ask (.update deploymentId (upgradeGuard deployment)
    (upgradeLock deployment input.targetVersion))
  if locked then
    changeVersion tenantId deploymentId input.targetVersion deployment entry resolved
      (upgradeFinish input.targetVersion) (upgradeRevert deployment input.targetVersion) "UPGRADE_FAILED"
  else
    fail "UPGRADE_RACE_DETECTED" ("Another upgrade was already in progress for this deployment. " ++
      "Refresh and retry.") 409

def upgradeDeploymentVersion (input : UpgradeVersionInput) : Task (Option Deployment) := do
  let deployment ← loadDeployment tenantId deploymentId
  refuseDeleted deployment "upgrade"
  let entry ← loadEntry deployment
  match ← ask (.selectVersion entry.id input.targetVersion) with
  | none =>
    fail "CATALOG_VERSION_UNKNOWN" ("Version " ++ input.targetVersion ++
      " not declared in catalog for " ++ entry.code) 404
  | some target =>
    if deployment.installedVersion = some input.targetVersion then return some deployment
    else do
      assertUpgradePath deployment entry target input
      upgradeLocked tenantId deploymentId input deployment entry

def rollbackLocked (toVersion : String) (deployment : Deployment) (entry : CatalogEntry) :
    Task (Option Deployment) := do
  let resolved ← resolveVersionAwareDeploymentConfig entry (some toVersion)
  let locked ← ask (.update deploymentId (rollbackGuard deployment toVersion) (rollbackLock toVersion))
  if locked then
    changeVersion tenantId deploymentId toVersion deployment entry resolved
      (rollbackFinish toVersion) (rollbackRevert deployment toVersion) "ROLLBACK_FAILED"
  else
    fail "ROLLBACK_RACE_DETECTED" ("Another rollback or upgrade was already in progress for this " ++
      "deployment. Refresh and retry.") 409

def rollbackDeploymentVersion : Task (Option Deployment) := do
  let deployment ← loadDeployment tenantId deploymentId
  match deployment.previousVersion.filter (· ≠ "") with
  | none =>
    fail "ROLLBACK_NOT_AVAILABLE" ("No previous version to roll back to. Rollback is only available " ++
      "for the most recent upgrade.") 409
  | some toVersion =>
    let entry ← loadEntry deployment
    match ← ask (.selectVersion entry.id toVersion) with
    | none =>
      fail "ROLLBACK_VERSION_REMOVED" ("Version " ++ toVersion ++
        " is no longer in the catalog. Cannot roll back.") 410
    | some _ => rollbackLocked tenantId deploymentId toVersion deployment entry

end Programs

end Insula.Deployments
