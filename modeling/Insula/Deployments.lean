import Mathlib.Data.Int.Basic
import Mathlib.Data.List.Basic

/-!
# Deployments of catalog entries

Rows of `deployments`, catalog entries with their versions, and what a row, its entry and its tenant
make of a call of `deployCatalogEntry`. A column with JSON is what `parseJsonField` reads of it.
-/

namespace Insula.Deployments

structure ApiError where
  code : String
  message : String
  status : ℕ
  deriving DecidableEq

/-- What is thrown: an error of the API, an `Error` of a statement or a call, or a budget that the
components of an application do not fit in. -/
inductive Thrown
  | api (e : ApiError)
  | error (message : String)
  | insufficientBudget (message : String)
  deriving DecidableEq

def Thrown.message : Thrown → String
  | .api e => e.message
  | .error message => message
  | .insufficientBudget message => message

inductive Status
  | deploying | running | stopped | failed | deleting | upgrading | pending | deleted
  deriving DecidableEq

inductive Source
  | catalog | custom
  deriving DecidableEq

structure ExtraMount where
  folder : String
  mountPath : String
  readOnly : Bool
  deriving DecidableEq

abbrev Record := List (String × String)

structure Deployment where
  id : String
  tenantId : String
  catalogEntryId : Option String
  source : Source
  name : String
  replicaCount : ℕ
  cpuRequest : String
  memoryRequest : String
  configuration : Option Record
  storagePath : Option String
  extraMounts : Option (List ExtraMount)
  installedVersion : Option String
  targetVersion : Option String
  previousVersion : Option String
  multihostEnabled : Bool
  lastError : Option String
  statusMessage : Option String
  currentNodeName : Option String
  /-- The time of the deletion is not read. -/
  deletedAt : Bool
  status : Status
  deriving DecidableEq

/-! ## The catalog -/

inductive ComponentType
  | deployment | statefulset | cronjob | job
  deriving DecidableEq

structure Port where
  port : ℕ
  protocol : String
  ingress : Option Bool
  deriving DecidableEq

structure ComponentResources where
  cpu : Option String
  memory : Option String
  deriving DecidableEq

structure ResourceShare where
  weight : ℕ
  minCpu : Option String
  minMemory : Option String
  deriving DecidableEq

structure CatalogComponent where
  name : String
  type : ComponentType
  image : String
  ports : Option (List Port)
  optional : Option Bool
  schedule : Option String
  volumes : Option (List String)
  command : Option (List String)
  args : Option (List String)
  resources : Option ComponentResources
  resourceShare : Option ResourceShare
  database : Option String
  deriving DecidableEq

structure Volume where
  containerPath : String
  localPath : Option String
  deriving DecidableEq

structure EnvVars where
  generated : Option (List String)
  fixed : Option Record
  configurable : Option (List String)
  deriving DecidableEq

/-- A UDP port, or a range such as `16384-32768`. -/
inductive UdpPort
  | port (n : ℕ)
  | range (s : String)
  deriving DecidableEq

structure DeclaredFirewall where
  tcp : Option (List ℕ)
  udp : Option (List UdpPort)
  deriving DecidableEq

structure DeclaredHostPort where
  component : Option String
  port : Option ℕ
  protocol : Option String
  deriving DecidableEq

structure Networking where
  ingressPorts : Option (List Port)
  firewall : Option DeclaredFirewall
  hostPorts : Option (List DeclaredHostPort)
  deriving DecidableEq

structure ResourceFigures where
  cpu : Option String
  memory : Option String
  storage : Option String
  deriving DecidableEq

structure EntryResources where
  recommended : Option ResourceFigures
  minimum : Option ResourceFigures
  deriving DecidableEq

structure MultihostCapability where
  sitesRoot : String
  configDir : String
  deriving DecidableEq

inductive LockMode
  | strict | advisory | «open»
  deriving DecidableEq

structure CatalogEntry where
  id : String
  code : String
  name : String
  type : String
  image : Option String
  components : Option (List CatalogComponent)
  volumes : Option (List Volume)
  envVars : Option EnvVars
  networking : Option Networking
  resources : Option EntryResources
  /-- What `capabilityOf` makes of the column. -/
  multihost : Option MultihostCapability
  defaultVersion : Option String
  versionLockMode : Option LockMode
  disabled : Bool
  removedFromSourceAt : Bool
  deriving DecidableEq

structure VersionComponent where
  name : String
  image : String
  deriving DecidableEq

structure CatalogVersion where
  version : String
  components : Option (List VersionComponent)
  upgradeFrom : Option (List String)
  volumes : Option (List Volume)
  envVars : Option EnvVars
  deriving DecidableEq

/-! ## The configuration of a version -/

inductive DiskClass
  | app | database
  deriving DecidableEq

structure DeployComponentInput where
  name : String
  type : ComponentType
  image : String
  ports : List Port
  optional : Bool
  schedule : Option String
  volumes : Option (List String)
  command : Option (List String)
  args : Option (List String)
  resources : Option ComponentResources
  resourceShare : Option ResourceShare
  diskClass : DiskClass
  deriving DecidableEq

structure ResolvedDeploymentConfig where
  components : List DeployComponentInput
  volumes : List Volume
  fixedEnvVars : Record
  generatedEnvKeys : List String
  configurableEnvKeys : List String
  installedVersion : Option String
  deriving DecidableEq

def isTruthy (s : Option String) : Bool := s.any (· ≠ "")

def componentDiskClass (entryType : String) (componentDatabase : Option String) : DiskClass :=
  if isTruthy componentDatabase || entryType = "database" then .database else .app

/-- A list that is present and not empty, or else the other one. -/
def nonemptyOr {α : Type} (l : Option (List α)) (default : List α) : List α :=
  match l with
  | some (a :: l) => a :: l
  | _ => default

section Entry

variable (entry : CatalogEntry)

def resolveIngressPorts : List Port :=
  nonemptyOr
    ((entry.networking.bind Networking.ingressPorts).map fun ports =>
      ports.map fun p => { p with ingress := some true })
    [{ port := 8080, protocol := "tcp", ingress := some true }]

def resolveComponent (versionComponents : Option (List VersionComponent)) (c : CatalogComponent) :
    DeployComponentInput where
  name := c.name
  type := c.type
  image := (((versionComponents.getD []).find? fun vc => vc.name = c.name).map
    VersionComponent.image).getD c.image
  ports := c.ports.getD []
  optional := c.optional.getD false
  schedule := c.schedule
  volumes := c.volumes
  command := c.command
  args := c.args
  resources := c.resources
  resourceShare := c.resourceShare
  diskClass := componentDiskClass entry.type c.database

def soleComponent (versionComponents : Option (List VersionComponent)) : DeployComponentInput where
  name := entry.code
  type := .deployment
  image := (((versionComponents.getD []).head?.map VersionComponent.image).or entry.image).getD
    (entry.code ++ ":latest")
  ports := resolveIngressPorts entry
  optional := false
  schedule := none
  volumes := none
  command := none
  args := none
  resources := none
  resourceShare := none
  diskClass := componentDiskClass entry.type none

def resolveComponents (versionComponents : Option (List VersionComponent)) :
    List DeployComponentInput :=
  match entry.components.getD [] with
  | [] => [soleComponent entry versionComponents]
  | components => components.map (resolveComponent entry versionComponents)

def spread (a b : Record) : Record :=
  a.map (fun kv => (kv.1, (b.lookup kv.1).getD kv.2)) ++ b.filter fun kv => (a.lookup kv.1).isNone

def effectiveVersion (targetVersion : Option String) : Option String :=
  (targetVersion.or entry.defaultVersion).filter (· ≠ "")

def resolveConfig (version : Option CatalogVersion) : ResolvedDeploymentConfig where
  components := resolveComponents entry (version.bind CatalogVersion.components)
  volumes := nonemptyOr (version.bind CatalogVersion.volumes) (entry.volumes.getD [])
  fixedEnvVars := spread ((entry.envVars.bind EnvVars.fixed).getD [])
    (((version.bind CatalogVersion.envVars).bind EnvVars.fixed).getD [])
  generatedEnvKeys := (entry.envVars.bind EnvVars.generated).getD []
  configurableEnvKeys :=
    (nonemptyOr ((version.bind CatalogVersion.envVars).bind EnvVars.configurable)
        ((entry.envVars.bind EnvVars.configurable).getD []) ++
      (entry.envVars.bind EnvVars.generated).getD []).eraseDups
  installedVersion := version.map CatalogVersion.version

structure ManifestFirewall where
  tcp : List ℕ
  udp : List UdpPort
  deriving DecidableEq

def readEntryFirewall : Option ManifestFirewall :=
  match entry.networking.bind Networking.firewall with
  | none => none
  | some fw =>
    let tcp := fw.tcp.getD []
    let udp := fw.udp.getD []
    if tcp.isEmpty && udp.isEmpty then none else some { tcp := tcp, udp := udp }

inductive Protocol
  | tcp | udp
  deriving DecidableEq

structure ManifestHostPort where
  component : String
  port : ℕ
  protocol : Protocol
  deriving DecidableEq

def readHostPort (hp : DeclaredHostPort) : Option ManifestHostPort :=
  match hp.component, hp.port with
  | some component, some port =>
    let protocol := if (hp.protocol.getD "TCP").toUpper = "UDP" then .udp else .tcp
    some { component := component, port := port, protocol := protocol }
  | _, _ => none

def readEntryHostPorts : List ManifestHostPort :=
  ((entry.networking.bind Networking.hostPorts).getD []).filterMap readHostPort

def storageRequestOf : String :=
  (((entry.resources.bind EntryResources.recommended).bind ResourceFigures.storage).or
    ((entry.resources.bind EntryResources.minimum).bind ResourceFigures.storage)).getD "1Gi"

end Entry

/-! ## The tenant and the sites -/

inductive StorageTier
  | «local» | ha
  deriving DecidableEq

structure TenantPlacement where
  nodeName : Option String
  storageTier : Option StorageTier
  deriving DecidableEq

inductive CpuTier
  | normal | high | highest
  deriving DecidableEq

structure Plan where
  id : String
  cpuLimit : String
  memoryLimit : String
  cpuTier : Option CpuTier
  maxApplications : ℕ
  deriving DecidableEq

inductive CpuSchedulingMode
  | legacy | tiered
  deriving DecidableEq

structure Tenant where
  id : String
  status : String
  kubernetesNamespace : Option String
  nodeName : Option String
  storageTier : Option String
  timezone : Option String
  planId : String
  cpuSchedulingMode : CpuSchedulingMode
  cpuLimitOverride : Option String
  memoryLimitOverride : Option String
  cpuTierOverride : Option CpuTier
  maxApplicationsOverride : Option ℤ
  deriving DecidableEq

def readStorageTier : String → Option StorageTier
  | "local" => some .local
  | "ha" => some .ha
  | _ => none

def tenantPlacementOf (tenant : Option Tenant) : TenantPlacement where
  nodeName := tenant.bind Tenant.nodeName
  storageTier := (tenant.bind Tenant.storageTier).bind readStorageTier

structure MultihostMounts where
  configDir : String
  sitesRoot : String
  configMapName : String
  siteFolders : List String
  deriving DecidableEq

def vhostConfigMapName (deploymentName : String) : String := deploymentName ++ "-vhosts"

def multihostMountsFor (name : String) (multihostEnabled : Bool) (entry : CatalogEntry)
    (siteFolders : List String) : Option MultihostMounts :=
  if multihostEnabled then
    entry.multihost.map fun cap =>
      { configDir := cap.configDir, sitesRoot := cap.sitesRoot
        configMapName := vhostConfigMapName name, siteFolders := siteFolders }
  else none

structure SiteRoute where
  appRoot : Option String
  siteFolder : Option String
  deriving DecidableEq

def siteFoldersOf (routes : List SiteRoute) : List String :=
  (routes.filter fun r => r.siteFolder.isSome).filterMap fun r =>
    (r.appRoot.or r.siteFolder).filter (· ≠ "")

structure TenantDiskLimits where
  appMb : ℕ
  databaseMb : ℕ
  deriving DecidableEq

structure DeployCatalogEntryInput where
  diskLimits : TenantDiskLimits
  deploymentName : String
  storagePath : String
  kubernetesNamespace : String
  components : List DeployComponentInput
  volumes : List Volume
  extraMounts : Option (List ExtraMount)
  multihost : Option MultihostMounts
  replicaCount : ℕ
  cpuRequest : String
  memoryRequest : String
  storageRequest : String
  configuration : Record
  fixedEnvVars : Record
  configurableEnvKeys : List String
  reuseExistingData : Option Bool
  catalogCode : Option String
  passwordEnvVar : Option String
  timezone : Option String
  placement : TenantPlacement
  firewall : Option ManifestFirewall
  hostPorts : List ManifestHostPort
  deriving DecidableEq

end Insula.Deployments
