import Insula.DeploymentStatements
import Insula.Quantities

/-!
# Redeploys with the row's own configuration

`redeployWithCurrentConfig` and `updateDeploymentResources`.
-/

namespace Insula.Deployments

open Quantities

/-! ## Mounts -/

/-- The segments of a path after its first slash; a slash at its end does not count. -/
def pathSegments (path : String) : List (List Char) :=
  let parts := (path.toList.splitOn '/').drop 1
  if 1 < parts.length && parts.getLast? = some [] then parts.dropLast else parts

def badSegment (segment : List Char) : Bool :=
  segment.isEmpty || segment = ['.'] || segment = ['.', '.']

def hasDoubleSlash : List Char → Bool
  | '/' :: '/' :: _ => true
  | _ :: t => hasDoubleSlash t
  | [] => false

def normalizeMountPath (input : String) : Option String :=
  if input.toList.head? ≠ some '/' then none
  else if hasDoubleSlash input.toList || input.toList.contains '\x00' then none
  else if input = "/" then some "/"
  else if (pathSegments input).any badSegment then none
  else some (String.ofList ('/' :: ['/'].intercalate (pathSegments input)))

def mountKey (path : String) : String := (normalizeMountPath path).getD path

def clashOf (volumes : List Volume) (mountPath : String) : Option String :=
  ((volumes.filter fun v => mountKey v.containerPath = mountKey mountPath).getLast?).map
    Volume.containerPath

def assertExtraMountsDoNotCollide (extraMounts : Option (List ExtraMount)) (volumes : List Volume) :
    Task Unit :=
  match (extraMounts.getD []).findSome? fun m => clashOf volumes m.mountPath with
  | none => return ()
  | some clash =>
    fail "MOUNT_PATH_CONFLICT" ("This application already mounts " ++ clash ++
      ", so an extra mount cannot use the same path.") 409

/-! ## The admin password of a database -/

def isAdminPasswordKey (key : String) : Bool :=
  endsWith key.toList "_ROOT_PASSWORD".toList || key = "POSTGRES_PASSWORD"

def findAdminPasswordEnvVar (keys : List String) : Option String := keys.find? isAdminPasswordKey

/-! ## Redeploying -/

structure RedeployOptions where
  armPasswordReset : Bool
  replicas : Option ℕ
  deriving DecidableEq

def RedeployOptions.default : RedeployOptions where
  armPasswordReset := false
  replicas := none

def currentInput (deployment : Deployment) (entry : CatalogEntry) (placement : TenantPlacement)
    (kubernetesNamespace : String) (resolved : ResolvedDeploymentConfig) (diskLimits : TenantDiskLimits)
    (routes : List SiteRoute) (opts : RedeployOptions) : DeployCatalogEntryInput where
  diskLimits := diskLimits
  placement := placement
  deploymentName := deployment.name
  storagePath := deployment.storagePath.getD ""
  kubernetesNamespace := kubernetesNamespace
  components := resolved.components
  volumes := resolved.volumes
  replicaCount := opts.replicas.getD deployment.replicaCount
  cpuRequest := deployment.cpuRequest
  memoryRequest := deployment.memoryRequest
  storageRequest := storageRequestOf entry
  configuration := deployment.configuration.getD []
  fixedEnvVars := resolved.fixedEnvVars
  configurableEnvKeys := resolved.configurableEnvKeys
  extraMounts := deployment.extraMounts
  multihost := multihostMountsFor deployment.name deployment.multihostEnabled entry
    (siteFoldersOf routes)
  reuseExistingData := some opts.armPasswordReset
  catalogCode := some entry.code
  passwordEnvVar :=
    if opts.armPasswordReset then
      findAdminPasswordEnvVar ((deployment.configuration.getD []).map Prod.fst)
    else none
  timezone := none
  firewall := readEntryFirewall entry
  hostPorts := readEntryHostPorts entry

def redeployWithCurrentConfig (deployment : Deployment) (opts : RedeployOptions) : Task Unit := do
  ask (.clearError deployment.id)
  if deployment.source = .custom then ask (.dispatchCustomRedeploy deployment.id)
  else
    match ← ask (.selectEntry (deployment.catalogEntryId.getD "")) with
    | none =>
      fail "CATALOG_ENTRY_NOT_FOUND" ("Catalog entry '" ++ deployment.catalogEntryId.getD "" ++
        "' not found") 404
    | some entry => do
        let kubernetesNamespace ← getTenantNamespace deployment.tenantId
        let resolved ← resolveVersionAwareDeploymentConfig entry deployment.installedVersion
        let diskLimits ← ask .selectDiskLimits
        let placement ← loadTenantPlacement deployment.tenantId
        let routes ← ask (.selectSiteRoutes deployment.id)
        ask (.deployCatalogEntry deployment.installedVersion
          (currentInput deployment entry placement kubernetesNamespace resolved diskLimits routes opts))
        bestEffort (.deletePods kubernetesNamespace deployment.name)

/-! ## Editing resources -/

structure ResourcesInput where
  cpuRequest : Option String
  memoryRequest : Option String
  deriving DecidableEq

def CpuTier.millicores : CpuTier → String
  | .normal => "5m"
  | .high => "30m"
  | .highest => "100m"

def newWorkloadCpuFor (plan : Option Plan) (tenant : Tenant) (requested : String) : String :=
  match tenant.cpuSchedulingMode with
  | .legacy => requested
  | .tiered => ((tenant.cpuTierOverride.or (plan.bind Plan.cpuTier)).getD .high).millicores

def normalisedInput (plan : Option Plan) (tenant : Tenant) (input : ResourcesInput) : ResourcesInput :=
  match tenant.cpuSchedulingMode with
  | .legacy => input
  | .tiered => { input with cpuRequest := input.cpuRequest.map (newWorkloadCpuFor plan tenant) }

def editedInput (deployment : Deployment) (input : ResourcesInput) (entry : CatalogEntry)
    (placement : TenantPlacement) (kubernetesNamespace : String) (resolved : ResolvedDeploymentConfig)
    (diskLimits : TenantDiskLimits) (routes : List SiteRoute) : DeployCatalogEntryInput where
  diskLimits := diskLimits
  placement := placement
  deploymentName := deployment.name
  storagePath := deployment.storagePath.getD ""
  kubernetesNamespace := kubernetesNamespace
  components := resolved.components
  volumes := resolved.volumes
  replicaCount := deployment.replicaCount
  cpuRequest := input.cpuRequest.getD deployment.cpuRequest
  memoryRequest := input.memoryRequest.getD deployment.memoryRequest
  storageRequest := storageRequestOf entry
  configuration := deployment.configuration.getD []
  fixedEnvVars := resolved.fixedEnvVars
  configurableEnvKeys := resolved.configurableEnvKeys
  extraMounts := deployment.extraMounts
  multihost := multihostMountsFor deployment.name deployment.multihostEnabled entry
    (siteFoldersOf routes)
  reuseExistingData := none
  catalogCode := none
  passwordEnvVar := none
  timezone := none
  firewall := readEntryFirewall entry
  hostPorts := readEntryHostPorts entry

def present (s : Option String) : Option String := s.filter (· ≠ "")

def orZero (s : String) : String := if s = "" then "0" else s

section Limits

variable (arith : Arithmetic)

def requestFigure (input : Option String) (row : String) (unit : ResourceUnit) : Number :=
  parseResourceValue arith ((present input).getD (orZero row)).toList unit

def sumFigures (requests : List String) (unit : ResourceUnit) : Number :=
  requests.foldl (fun sum r => sum.add arith (parseResourceValue arith (orZero r).toList unit)) (.fin 0)

def limitFigure (tenantOverride planLimit : Option String) (default : String) : Number :=
  number arith ((tenantOverride.or planLimit).getD default).toList

/-- `Math.round(x * scale)`, for a message. -/
def roundedText (x : Number) (scale : ℚ) (divisor : ℚ) : String :=
  match x.times arith scale with
  | .fin q => arith.text ((Number.fin ⌊q + 1 / 2⌋).times arith (1 / divisor))
  | y => arith.text y

def checkLimits (deployment : Deployment) (input : ResourcesInput) (tenant : Tenant)
    (plan : Option Plan) (others : List Deployment) : Task Unit :=
  let cpuLimit := limitFigure arith tenant.cpuLimitOverride (plan.map Plan.cpuLimit) "2"
  let memoryLimitGi := limitFigure arith tenant.memoryLimitOverride (plan.map Plan.memoryLimit) "4"
  let otherCpu := sumFigures arith (others.map Deployment.cpuRequest) .cpu
  let otherMemoryGi := sumFigures arith (others.map Deployment.memoryRequest) .memory
  let newCpu := requestFigure arith input.cpuRequest deployment.cpuRequest .cpu
  let newMemoryGi := requestFigure arith input.memoryRequest deployment.memoryRequest .memory
  if tenant.cpuSchedulingMode ≠ .tiered ∧ (newCpu.add arith otherCpu).gt cpuLimit = true then
    fail "RESOURCE_LIMIT_EXCEEDED" ("CPU request " ++ input.cpuRequest.getD "undefined" ++
      " exceeds available capacity. Maximum: " ++ roundedText arith (cpuLimit.sub arith otherCpu) 100 100 ++
      " cores (plan limit: " ++ arith.text cpuLimit ++ " cores)") 400
  else if (newMemoryGi.add arith otherMemoryGi).gt memoryLimitGi = true then
    fail "RESOURCE_LIMIT_EXCEEDED" ("Memory request " ++ input.memoryRequest.getD "undefined" ++
      " exceeds available capacity. Maximum: " ++
      roundedText arith (memoryLimitGi.sub arith otherMemoryGi) 1024 1 ++ "Mi (plan limit: " ++
      arith.text memoryLimitGi ++ "Gi)") 400
  else return ()

end Limits

def applyResources (deployment : Deployment) (input : ResourcesInput) (entry : CatalogEntry)
    (kubernetesNamespace : String) (resolved : ResolvedDeploymentConfig) : Task Unit :=
  tryCatch
    (do
      assertExtraMountsDoNotCollide deployment.extraMounts resolved.volumes
      let diskLimits ← ask .selectDiskLimits
      let placement ← loadTenantPlacement deployment.tenantId
      let routes ← ask (.selectSiteRoutes deployment.id)
      ask (.deployCatalogEntry deployment.installedVersion
        (editedInput deployment input entry placement kubernetesNamespace resolved diskLimits routes))
      bestEffort (.deletePods kubernetesNamespace deployment.name))
    fun err => do
      let _ ← ask (.update deployment.id {} { lastError := some (some err.message) })
      match err with
      | .insufficientBudget message => fail "INSUFFICIENT_RESOURCE_BUDGET" message 400
      | _ => return ()

def notAppliable (deployment : Deployment) (detail : String) : Task Unit := do
  let _ ← ask (.update deployment.id {}
    { status := some .failed, lastError := some (some ("Resource change not applied: " ++ detail)) })
  fail "DEPLOYMENT_NOT_APPLIABLE" ("Resource change could not be applied to '" ++ deployment.name ++
    "': " ++ detail ++ ".") 409

def redeployResources (deployment : Deployment) (input : ResourcesInput) : Task Unit := do
  let kubernetesNamespace ← getTenantNamespace deployment.tenantId
  match ← ask (.selectEntry (deployment.catalogEntryId.getD "")) with
  | none =>
    notAppliable deployment
      (if kubernetesNamespace = "" then "tenant has no Kubernetes namespace"
        else "catalog entry '" ++ deployment.catalogEntryId.getD "" ++ "' no longer exists")
  | some entry =>
    if kubernetesNamespace = "" then notAppliable deployment "tenant has no Kubernetes namespace"
    else do
      let resolved ← resolveVersionAwareDeploymentConfig entry deployment.installedVersion
      applyResources deployment input entry kubernetesNamespace resolved

def resourceChanges (input : ResourcesInput) : Changes where
  cpuRequest := present input.cpuRequest
  memoryRequest := present input.memoryRequest
  status := some .pending
  lastError := some none

def storeResources (deployment : Deployment) (input : ResourcesInput) (k8s : Bool) : Task Unit :=
  if deployment.source = .custom then
    if k8s then
      ask (.dispatchCustomResources deployment.id (present input.cpuRequest)
        (present input.memoryRequest))
    else
      fail "K8S_UNAVAILABLE" ("Kubernetes cluster is not reachable; resource changes cannot be " ++
        "applied.") 503
  else do
    let _ ← ask (.update deployment.id {} (resourceChanges input))
    if k8s then redeployResources deployment input

def updateDeploymentResources (arith : Arithmetic) (tenantId deploymentId : String)
    (input : ResourcesInput) (k8s : Bool) : Task Deployment := do
  let deployment ← getDeploymentById tenantId deploymentId
  refuseDeleted deployment "resize"
  let tenant ← loadTenant tenantId
  let plan ← ask (.selectPlan tenant.planId)
  let others ← ask (.selectOthers tenantId deploymentId)
  let input := normalisedInput plan tenant input
  checkLimits arith deployment input tenant plan others
  if (present input.cpuRequest).isSome ∧ tenant.cpuSchedulingMode = .tiered ∧ k8s = true ∧
      (present tenant.kubernetesNamespace).isSome then
    bestEffort (.ensureTieredQuotaRoom (tenant.kubernetesNamespace.getD "")
      (input.cpuRequest.getD ""))
  if (present input.cpuRequest).isNone ∧ (present input.memoryRequest).isNone then return deployment
  else
    storeResources deployment input k8s
    getDeploymentById tenantId deploymentId

end Insula.Deployments
