import Insula.Program
import Insula.WireFormat

/-!
# DNS records of tenants

`dns-records`: rows of `dns_records` and what is published for them on the servers of the domain.
The service functions and the routes over them, as programs over statements, the domain's lock and
calls of the servers, any of which may throw.
-/

namespace Insula.DnsRecords

open Program (request Attempt)
open DnsServers Javascript

inductive DnsMode
  | primary
  | cname
  | secondary
  deriving DecidableEq

def DnsMode.text : DnsMode → String
  | primary => "primary"
  | cname => "cname"
  | secondary => "secondary"

structure Domain where
  id : String
  tenantId : String
  domainName : DomainName
  dnsMode : DnsMode
  dnsGroupId : Option String

structure Tenant where
  id : String
  isSystem : Bool
  deriving DecidableEq

inductive ServerRole
  | primary
  | secondary
  deriving DecidableEq

structure DnsServer where
  id : String
  displayName : String
  enabled : Bool
  role : ServerRole
  groupId : Option String
  /-- Can its adapter remove one value? -/
  deletesValues : Bool
  deriving DecidableEq

structure DnsRecord where
  id : String
  domainId : String
  recordType : Text
  recordName : Option Text
  recordValue : Option Text
  ttl : ℕ
  priority : Option ℕ
  weight : Option ℕ
  port : Option ℕ
  managedBy : Option String
  deriving DecidableEq

structure RemoteRecord where
  id : Text
  type : Text
  name : Text
  content : Text
  ttl : ℕ
  priority : Option ℕ
  deriving DecidableEq

structure RecordValues where
  recordValue : Option (Option Text)
  ttl : Option ℕ
  priority : Option (Option ℕ)
  weight : Option (Option ℕ)
  port : Option (Option ℕ)
  deriving DecidableEq

def RecordValues.isEmpty (v : RecordValues) : Bool :=
  v.recordValue.isNone && v.ttl.isNone && v.priority.isNone && v.weight.isNone && v.port.isNone

def RecordValues.applyTo (v : RecordValues) (row : DnsRecord) : DnsRecord :=
  { row with
    recordValue := v.recordValue.getD row.recordValue
    ttl := v.ttl.getD row.ttl
    priority := v.priority.getD row.priority
    weight := v.weight.getD row.weight
    port := v.port.getD row.port }

structure ApiError where
  code : String
  message : String
  status : ℕ
  deriving DecidableEq

/-- An `Error` that a provider or a statement throws. -/
def plainError (message : String) : ApiError := { code := "", message := message, status := 500 }

inductive Op
  | selectDomain (id : String)
  | selectDomainOf (id tenantId : String)
  | selectTenant (id : String)
  | reservedPlatformHostnames
  | activeServersForDomain (domainId : String)
  | activeServers
  | selectRecord (id : String)
  | selectRecordOf (id domainId : String)
  | selectRecords (domainId : String)
  | randomUUID
  | lockDomain (domainId : String)
  | insertRecord (row : DnsRecord)
  | updateRecord (id : String) (values : RecordValues)
  | deleteRecord (id : String)
  | deleteRecordOf (id domainId : String)
  | createUpstream (server : DnsServer) (zone : Text) (record : DnsRecordInput)
  | removeUpstream (server : DnsServer) (zone : Text) (record : DnsRecordInput)
  | deleteUpstream (server : DnsServer) (zone : Text) (record : RemoteRecord)
  | listUpstream (server : DnsServer) (zone : Text)

def Val : Op → Type
  | .selectDomain _ => Option Domain
  | .selectDomainOf _ _ => Option Domain
  | .selectTenant _ => Option Tenant
  | .reservedPlatformHostnames => List (Text × String)
  | .activeServersForDomain _ => List DnsServer
  | .activeServers => List DnsServer
  | .selectRecord _ => Option DnsRecord
  | .selectRecordOf _ _ => Option DnsRecord
  | .selectRecords _ => List DnsRecord
  | .randomUUID => String
  | .lockDomain _ => Unit
  | .insertRecord _ => Unit
  | .updateRecord _ _ => Unit
  | .deleteRecord _ => Unit
  -- The number of rows deleted.
  | .deleteRecordOf _ _ => ℕ
  | .createUpstream _ _ _ => Unit
  | .removeUpstream _ _ _ => Unit
  | .deleteUpstream _ _ _ => Unit
  | .listUpstream _ _ => List RemoteRecord

abbrev Task (α : Type) := Attempt ApiError Op Val α

abbrev ask (o : Op) : Task (Val o) := request o

def lockDomain (domainId : String) : Task Unit := ask (.lockDomain domainId)

def insertRecord (row : DnsRecord) : Task Unit := ask (.insertRecord row)

def updateRecord (id : String) (values : RecordValues) : Task Unit := ask (.updateRecord id values)

def deleteRecord (id : String) : Task Unit := ask (.deleteRecord id)

def createUpstream (server : DnsServer) (zone : Text) (record : DnsRecordInput) : Task Unit :=
  ask (.createUpstream server zone record)

def removeUpstream (server : DnsServer) (zone : Text) (record : DnsRecordInput) : Task Unit :=
  ask (.removeUpstream server zone record)

def deleteUpstream (server : DnsServer) (zone : Text) (record : RemoteRecord) : Task Unit :=
  ask (.deleteUpstream server zone record)

/-! ## Publishing -/

inductive DnsSyncOutcome
  | published (servers : ℕ)
  | skipped (reason : String)
  | failed (errors : List (String × String))

def describeSyncFailure (errors : List (String × String)) : String :=
  match errors with
  | [(_, message)] => message
  | _ => "; ".intercalate (errors.map fun e => e.1 ++ ": " ++ e.2)

structure SyncRecord where
  type : Text
  name : Text
  content : Text
  ttl : Option ℕ
  priority : Option ℕ
  weight : Option ℕ
  port : Option ℕ

def toRecordInput (r : SyncRecord) : DnsRecordInput where
  type := r.type
  name := r.name
  content := r.content
  ttl := some (r.ttl.getD 3600)
  priority := r.priority
  weight := r.weight
  port := r.port

inductive RecordChange
  | create (record : DnsRecordInput)
  | delete (record : DnsRecordInput)
  | update (record : DnsRecordInput) (previous : Option DnsRecordInput) (withdrawOnFailure : Bool)

def canManageDnsZone (dnsMode : DnsMode) (servers : List DnsServer) : Bool :=
  dnsMode = .primary && servers.any fun s => s.enabled && s.role = .primary

section Functions

variable (lib : Builtins)

def singleValueTypes : List Text := ["CNAME".toList, "DNAME".toList]

def sameValue (a b : DnsRecordInput) : Bool :=
  match canonicalContent lib a, canonicalContent lib b with
  | .ok x, .ok y => lib.toUpperCase a.type = lib.toUpperCase b.type && x = y
  | _, _ => false

def listedValue (zone type name wanted : Text) (records : List RemoteRecord) : Option RemoteRecord :=
  records.find? fun r =>
    lib.toUpperCase r.type = type && qualifyName lib.lowering zone r.name = name &&
      match canonicalContent lib { bareRecord type r.name r.content with priority := r.priority } with
      | .ok content => content = wanted
      | .error _ => false

def removeRecordValue (server : DnsServer) (zone : Text) (record : DnsRecordInput) : Task Unit :=
  match canonicalContent lib record with
  -- A value that cannot be sent was refused when it was written.
  | .error _ => pure ()
  | .ok wanted =>
    if server.deletesValues then removeUpstream server zone record
    else do
      let records ← ask (.listUpstream server zone)
      match listedValue lib zone (lib.toUpperCase record.type)
          (qualifyName lib.lowering zone record.name) wanted records with
      | none => pure ()
      | some hit => deleteUpstream server zone hit

def replaceSingleValue (server : DnsServer) (zone : Text) (previous next : DnsRecordInput) :
    Task Unit := do
  removeRecordValue lib server zone previous
  tryCatch (createUpstream server zone next) fun err => do
    tryCatch (createUpstream server zone previous) fun restoreErr =>
      throw (plainError (err.message ++ " — and the previous value could not be restored either (" ++
        restoreErr.message ++ "); the name has no " ++ String.ofList next.type ++
        " record until one is published"))
    throw err

def applyRecordChange (server : DnsServer) (zone : Text) : RecordChange → Task Unit
  | .delete record => removeRecordValue lib server zone record
  | .create record => createUpstream server zone record
  | .update record none _ => createUpstream server zone record
  | .update record (some previous) withdrawOnFailure =>
    if sameValue lib previous record then createUpstream server zone record
    else if lib.toUpperCase record.type ∈ singleValueTypes then
      replaceSingleValue lib server zone previous record
    else do
      createUpstream server zone record
      tryCatch (removeRecordValue lib server zone previous) fun err =>
        if withdrawOnFailure = false then throw err
        else do
          tryCatch (removeRecordValue lib server zone record) fun rollbackErr =>
            throw (plainError (err.message ++
              " — and the new value could not be withdrawn either (" ++ rollbackErr.message ++
              "); both values are published until one is removed"))
          throw err

def pushToEach (zone : Text) (change : RecordChange) : List DnsServer → Task (List (String × String))
  | [] => pure []
  | server :: servers => do
      let failure ← tryCatch
        (do
          applyRecordChange lib server zone change
          return none)
        fun err => pure (some (server.displayName, err.message))
      let failures ← pushToEach zone change servers
      return failure.toList ++ failures

def pushToServers (servers : List DnsServer) (zone : Text) (change : RecordChange) :
    Task DnsSyncOutcome :=
  if servers.isEmpty then pure (.skipped "no DNS servers are configured for this domain")
  else do
    let errors ← pushToEach lib zone change servers
    return if errors.isEmpty then .published servers.length else .failed errors

def syncRecordToProviders (zone : Text) (change : RecordChange) (domainId : String) :
    Task DnsSyncOutcome :=
  tryCatch
    (do
      match ← ask (.selectDomain domainId) with
      | some domain =>
        let servers ← ask (.activeServersForDomain domainId)
        if canManageDnsZone domain.dnsMode servers then pushToServers lib servers zone change
        else return .skipped ("platform is not authoritative for this zone (dnsMode=" ++
          domain.dnsMode.text ++ ")")
      | none =>
        let servers ← ask .activeServers
        pushToServers lib servers zone change)
    fun err => pure (.failed [("(resolution)", err.message)])

def recordKey (zone : Text) (r : SyncRecord) : Text :=
  let value :=
    match canonicalContent lib { toRecordInput r with ttl := none } with
    | .ok content => content
    | .error _ => r.content
  ['|'].intercalate [lib.toUpperCase r.type, qualifyName lib.lowering zone r.name, value]

def DnsRecord.toSync (row : DnsRecord) : SyncRecord where
  type := row.recordType
  name := row.recordName.getD ['@']
  content := row.recordValue.getD []
  ttl := some row.ttl
  priority := row.priority
  weight := row.weight
  port := row.port

/-- Other rows of the domain that publish the value that `row` would with those values. -/
def rowsPublishingSameValue (zone : Text) (row value : DnsRecord) (rows : List DnsRecord) :
    List DnsRecord :=
  let key := recordKey lib zone { value.toSync with
    type := row.recordType, name := row.recordName.getD ['@'] }
  rows.filter fun r =>
    r.recordType = row.recordType && r.id ≠ row.id && recordKey lib zone r.toSync = key

end Functions

end Insula.DnsRecords
