import Insula.Deployments
import Insula.Program

/-!
# Statements about deployments

The statements and the calls of the cluster that the operations on deployments make, and the parts
that several operations share.
-/

namespace Insula.Deployments

open Program (request Attempt)

structure Changes where
  name : Option String := none
  replicaCount : Option ℕ := none
  cpuRequest : Option String := none
  memoryRequest : Option String := none
  configuration : Option Record := none
  extraMounts : Option (List ExtraMount) := none
  storagePath : Option String := none
  installedVersion : Option (Option String) := none
  targetVersion : Option (Option String) := none
  previousVersion : Option (Option String) := none
  lastError : Option (Option String) := none
  statusMessage : Option (Option String) := none
  currentNodeName : Option (Option String) := none
  deletedAt : Option Bool := none
  status : Option Status := none
  deriving DecidableEq

def Changes.applyTo (c : Changes) (row : Deployment) : Deployment :=
  { row with
    name := c.name.getD row.name
    replicaCount := c.replicaCount.getD row.replicaCount
    cpuRequest := c.cpuRequest.getD row.cpuRequest
    memoryRequest := c.memoryRequest.getD row.memoryRequest
    configuration := c.configuration.or row.configuration
    extraMounts := c.extraMounts.or row.extraMounts
    storagePath := c.storagePath.or row.storagePath
    installedVersion := c.installedVersion.getD row.installedVersion
    targetVersion := c.targetVersion.getD row.targetVersion
    previousVersion := c.previousVersion.getD row.previousVersion
    lastError := c.lastError.getD row.lastError
    statusMessage := c.statusMessage.getD row.statusMessage
    currentNodeName := c.currentNodeName.getD row.currentNodeName
    deletedAt := c.deletedAt.getD row.deletedAt
    status := c.status.getD row.status }

/-- What an update asks of the row besides its id; an installed version of null is asked for by
`IS NULL`. -/
structure Guard where
  installedVersion : Option (Option String) := none
  previousVersion : Option String := none
  deriving DecidableEq

def Guard.holds (g : Guard) (row : Deployment) : Bool :=
  g.installedVersion.all (fun v => row.installedVersion = v) &&
    g.previousVersion.all fun v => row.previousVersion = some v

inductive Op
  | selectDeployment (tenantId id : String)
  | selectUpdated (id : String)
  | selectEntry (id : String)
  | selectVersion (entryId version : String)
  | selectTenant (id : String)
  | selectPlan (id : String)
  -- The deployments of a tenant that are not deleted, but for one.
  | selectOthers (tenantId id : String)
  | selectDiskLimits
  | selectSiteRoutes (deploymentId : String)
  | update (id : String) (guard : Guard) (set : Changes)
  -- Also moves a row off `failed`.
  | clearError (id : String)
  -- The version is the one that the input was made for.
  | deployCatalogEntry (version : Option String) (input : DeployCatalogEntryInput)
  | deletePods (kubernetesNamespace app : String)
  | ensureTieredQuotaRoom (kubernetesNamespace cpuRequest : String)
  -- What the custom deployments' own functions do for a row.
  | dispatchCustomResources (id : String) (cpuRequest memoryRequest : Option String)
  | dispatchCustomRedeploy (id : String)
  deriving DecidableEq

abbrev Val : Op → Type
  | .selectDeployment _ _ => Option Deployment
  | .selectUpdated _ => Option Deployment
  | .selectEntry _ => Option CatalogEntry
  | .selectVersion _ _ => Option CatalogVersion
  | .selectTenant _ => Option Tenant
  | .selectPlan _ => Option Plan
  | .selectOthers _ _ => List Deployment
  | .selectDiskLimits => TenantDiskLimits
  | .selectSiteRoutes _ => List SiteRoute
  -- Was there a row?
  | .update _ _ _ => Bool
  | .clearError _ => Unit
  | .deployCatalogEntry _ _ => Unit
  | .deletePods _ _ => Unit
  | .ensureTieredQuotaRoom _ _ => Unit
  | .dispatchCustomResources _ _ _ => Unit
  | .dispatchCustomRedeploy _ => Unit

abbrev Task (α : Type) := Attempt Thrown Op Val α

def ask (o : Op) : Task (Val o) := request o

def fail {α : Type} (code message : String) (status : ℕ) : Task α :=
  throw (.api { code := code, message := message, status := status })

def resolveVersionAwareDeploymentConfig (entry : CatalogEntry) (targetVersion : Option String) :
    Task ResolvedDeploymentConfig :=
  match effectiveVersion entry targetVersion with
  | none => return resolveConfig entry none
  | some v => do
      let version ← ask (.selectVersion entry.id v)
      return resolveConfig entry version

def refuseDeleted (row : Deployment) (action : String) : Task Unit :=
  if row.status = .deleted then
    fail "DEPLOYMENT_DELETED" ("'" ++ row.name ++
      "' is deleted. Restore it from Recently Deleted on the Applications page before you " ++ action ++
      " it.") 409
  else return ()

def getDeploymentById (tenantId deploymentId : String) : Task Deployment := do
  match ← ask (.selectDeployment tenantId deploymentId) with
  | none => fail "DEPLOYMENT_NOT_FOUND" ("Deployment '" ++ deploymentId ++ "' not found") 404
  | some deployment => return deployment

def loadTenant (tenantId : String) : Task Tenant := do
  match ← ask (.selectTenant tenantId) with
  | none => fail "TENANT_NOT_FOUND" ("Tenant '" ++ tenantId ++ "' not found") 404
  | some tenant => return tenant

def loadTenantPlacement (tenantId : String) : Task TenantPlacement := do
  let tenant ← loadTenant tenantId
  return tenantPlacementOf (some tenant)

def getTenantNamespace (tenantId : String) : Task String := do
  let tenant ← loadTenant tenantId
  return tenant.kubernetesNamespace.getD ""

def bestEffort (o : Op) : Task Unit :=
  tryCatch (do let _ ← ask o; return ()) fun _ => return ()

/-! ## Parts that keep to a discipline -/

section Follows

variable {B : Type} {E : Program.Discipline Op (fun o => Except Thrown (Val o)) B} {X : B → Prop}
  {b : B}

theorem ends_ask {o : Op} {R : B → Val o → Prop} (ho : E.allowed b o)
    (hok : ∀ a b', E.next b o (.ok a) = some b' → R b' a)
    (herror : ∀ e b', E.next b o (.error e) = some b' → X b') :
    Program.Follows E (Program.Ends R X) (ask o).run b :=
  Program.ends_request ho hok herror

theorem ends_refuseDeleted {row : Deployment} {action : String} (hb : X b) :
    Program.Follows E (Program.Ends (fun b' _ => b' = b ∧ row.status ≠ .deleted) X)
      (refuseDeleted row action).run b := by
  unfold refuseDeleted
  split
  · exact Program.ends_throw hb
  · rename_i hstatus
    exact Program.ends_pure ⟨rfl, hstatus⟩

/-- The row is found in a state that satisfies `R`. -/
theorem ends_getDeploymentById {tenantId id : String} {R : B → Deployment → Prop}
    (ho : E.allowed b (.selectDeployment tenantId id))
    (hfound : ∀ d b', E.next b (.selectDeployment tenantId id) (.ok (some d)) = some b' → R b' d)
    (hX : ∀ r b', E.next b (.selectDeployment tenantId id) r = some b' → X b') :
    Program.Follows E (Program.Ends R X) (getDeploymentById tenantId id).run b := by
  unfold getDeploymentById
  apply Program.ends_bind (R := fun b' found => X b' ∧ ∀ d, found = some d → R b' d)
  · apply ends_ask ho
    · intro found b' hb'
      refine ⟨hX _ b' hb', ?_⟩
      rintro d rfl
      exact hfound d b' hb'
    · intro e b' hb'
      exact hX _ b' hb'
  · intro b' found hb'
    cases found with
    | none => exact Program.ends_throw hb'.1
    | some d => exact Program.ends_pure (hb'.2 d rfl)

theorem ends_loadTenant {tenantId : String} {R : B → Tenant → Prop}
    (ho : E.allowed b (.selectTenant tenantId))
    (hfound : ∀ t b', E.next b (.selectTenant tenantId) (.ok (some t)) = some b' → R b' t)
    (hX : ∀ r b', E.next b (.selectTenant tenantId) r = some b' → X b') :
    Program.Follows E (Program.Ends R X) (loadTenant tenantId).run b := by
  unfold loadTenant
  apply Program.ends_bind (R := fun b' found => X b' ∧ ∀ t, found = some t → R b' t)
  · apply ends_ask ho
    · intro found b' hb'
      refine ⟨hX _ b' hb', ?_⟩
      rintro t rfl
      exact hfound t b' hb'
    · intro e b' hb'
      exact hX _ b' hb'
  · intro b' found hb'
    cases found with
    | none => exact Program.ends_throw hb'.1
    | some t => exact Program.ends_pure (hb'.2 t rfl)

theorem ends_bestEffort {o : Op} (ho : E.allowed b o)
    (hstill : ∀ r b', E.next b o r = some b' → b' = b) :
    Program.Follows E (Program.Ends (fun b' _ => b' = b) X) (bestEffort o).run b := by
  unfold bestEffort
  apply Program.ends_tryCatch (Y := fun b' => b' = b)
  · apply Program.ends_bind (R := fun b' _ => b' = b)
    · apply ends_ask ho
      · intro _ b' hb'
        exact hstill _ b' hb'
      · intro _ b' hb'
        exact hstill _ b' hb'
    · intro b' _ hb'
      exact Program.ends_pure hb'
  · intro b' _ hb'
    exact Program.ends_pure hb'

end Follows

end Insula.Deployments
