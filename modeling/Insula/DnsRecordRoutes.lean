import Insula.DnsRecords

/-!
# The operations on DNS records and their routes

The functions that the routes of a tenant's records call, and the routes: creating, changing and
deleting a record, and the actions that bring the rows and a server together.
-/

namespace Insula.DnsRecords

open Program (request Attempt)
open DnsServers Javascript Lowercase

def domainNotFound (domainId : String) : ApiError where
  code := "DOMAIN_NOT_FOUND"
  message := "Domain '" ++ domainId ++ "' not found for tenant"
  status := 404

def noDomain : ApiError := { code := "DOMAIN_NOT_FOUND", message := "Domain not found", status := 404 }

def recordNotFound (recordId : String) : ApiError where
  code := "DNS_RECORD_NOT_FOUND"
  message := "DNS record '" ++ recordId ++ "' not found"
  status := 404

def publishFailed (what : String) (errors : List (String × String)) : ApiError where
  code := "DNS_PUBLISH_FAILED"
  message := "The DNS server rejected this " ++ what ++ ": " ++ describeSyncFailure errors
  status := 502

def providerError : ApiError where
  code := "DNS_PROVIDER_ERROR"
  message := "Failed to fetch records from DNS server"
  status := 503

def noDnsServers : ApiError where
  code := "NO_DNS_SERVERS"
  message := "No DNS servers configured"
  status := 400

def reservedHostname (fqdn : Text) (reason : String) : ApiError where
  code := "RESERVED_PLATFORM_HOSTNAME"
  message := "DNS record '" ++ String.ofList fqdn ++ "' collides with a platform-reserved hostname (" ++
    reason ++ ")."
  status := 409

def readOnly : ApiError where
  code := "DNS_READONLY"
  message := "Secondary DNS zones are read-only"
  status := 403

def stillLocal : ApiError where
  code := "DNS_RECORD_STILL_LOCAL"
  message := "A record in this list publishes that value. Delete the record instead, or it would " ++
    "stay listed while no longer resolving."
  status := 409

def notAuthoritative (action reason : String) : ApiError where
  code := "DNS_NOT_AUTHORITATIVE"
  message := "Cannot " ++ action ++ " this record — " ++ reason ++ "."
  status := 409

structure CreateDnsRecordInput where
  record_type : Text
  record_name : Option Text
  record_value : Text
  ttl : ℕ
  priority : Option ℕ
  weight : Option ℕ
  port : Option ℕ

structure UpdateDnsRecordInput where
  record_value : Option Text
  ttl : Option ℕ
  priority : Option ℕ
  weight : Option ℕ
  port : Option ℕ

def UpdateDnsRecordInput.values (input : UpdateDnsRecordInput) : RecordValues where
  recordValue := input.record_value.map some
  ttl := input.ttl
  priority := input.priority.map some
  weight := input.weight.map some
  port := input.port.map some

def DnsRecord.values (row : DnsRecord) : RecordValues where
  recordValue := some row.recordValue
  ttl := some row.ttl
  priority := some row.priority
  weight := some row.weight
  port := some row.port

def CreateDnsRecordInput.row (input : CreateDnsRecordInput) (id domainId : String) : DnsRecord where
  id := id
  domainId := domainId
  recordType := input.record_type
  recordName := input.record_name
  recordValue := some input.record_value
  ttl := input.ttl
  priority := input.priority
  weight := input.weight
  port := input.port
  managedBy := none

def CreateDnsRecordInput.toSync (input : CreateDnsRecordInput) : SyncRecord where
  type := input.record_type
  name := input.record_name.getD ['@']
  content := input.record_value
  ttl := some input.ttl
  priority := input.priority
  weight := input.weight
  port := input.port

section Service

variable (lib : Builtins)

def verifyDomainOwnership (tenantId domainId : String) : Task Domain := do
  match ← ask (.selectDomainOf domainId tenantId) with
  | some domain => return domain
  | none => throw (domainNotFound domainId)

def lower (s : Text) : Text := lib.lowering.toLowerCase ((trim s).rdropWhile (· = '.'))

def effectiveFqdn (domainName : Text) (recordName : Option Text) : Text :=
  let parentDomain := lower lib domainName
  let name := (recordName.filter (· ≠ [])).elim [] (lower lib)
  if name = [] ∨ name = ['@'] then parentDomain else name ++ '.' :: parentDomain

def refuseReserved (fqdn : Text) : Task Unit := do
  let reserved ← ask .reservedPlatformHostnames
  match reserved.find? fun r => r.1 = fqdn with
  | some r => throw (reservedHostname fqdn r.2)
  | none => return ()

def assertNotReservedHostname (domainId tenantId : String) (input : CreateDnsRecordInput) :
    Task Unit := do
  match ← ask (.selectDomain domainId) with
  | none => return ()
  | some parent =>
    match ← ask (.selectTenant tenantId) with
    | some { isSystem := true, .. } => return ()
    | _ => refuseReserved (effectiveFqdn lib parent.domainName.text input.record_name)

def createDnsRecord (tenantId domainId : String) (input : CreateDnsRecordInput) :
    Task (Option DnsRecord) := do
  let _ ← verifyDomainOwnership tenantId domainId
  assertNotReservedHostname lib domainId tenantId input
  let id ← ask .randomUUID
  insertRecord (input.row id domainId)
  let created ← ask (.selectRecord id)
  match ← ask (.selectDomain domainId) with
  | none => return created
  | some domain =>
    match ← syncRecordToProviders lib domain.domainName.text (.create (toRecordInput input.toSync))
        domainId with
    | .failed errors =>
      deleteRecord id
      throw (publishFailed "record" errors)
    | _ => return created

def setColumns (recordId : String) (values : RecordValues) : Task Unit :=
  if values.isEmpty then pure () else updateRecord recordId values

def updateDnsRecordLocked (domainId recordId : String) (input : UpdateDnsRecordInput) :
    Task (Option DnsRecord) := do
  match ← ask (.selectRecordOf recordId domainId) with
  | none => throw (recordNotFound recordId)
  | some record =>
    setColumns recordId input.values
    let updated ← ask (.selectRecord recordId)
    let domain ← ask (.selectDomain domainId)
    match domain, updated with
    | some domain, some row =>
      let zone := domain.domainName.text
      let siblings ← ask (.selectRecords domainId)
      let oldValueShared := rowsPublishingSameValue lib zone row record siblings ≠ []
      let siblings ← ask (.selectRecords domainId)
      let newValueShared := rowsPublishingSameValue lib zone row row siblings ≠ []
      let previous :=
        if oldValueShared then none else some (toRecordInput { record.toSync with ttl := none })
      match ← syncRecordToProviders lib zone
          (.update (toRecordInput row.toSync) previous (! decide newValueShared)) domainId with
      | .failed errors =>
        updateRecord recordId record.values
        throw (publishFailed "change" errors)
      | _ => return updated
    | _, _ => return updated

def updateDnsRecord (tenantId domainId recordId : String) (input : UpdateDnsRecordInput) :
    Task (Option DnsRecord) := do
  let _ ← verifyDomainOwnership tenantId domainId
  lockDomain domainId
  updateDnsRecordLocked lib domainId recordId input

def withdrawUnshared (domainId : String) (record : DnsRecord) : Task Unit := do
  match ← ask (.selectDomain domainId) with
  | none => pure ()
  | some domain =>
    let zone := domain.domainName.text
    let siblings ← ask (.selectRecords domainId)
    if record.recordType ≠ [] ∧ record.recordValue.getD [] ≠ [] ∧
        rowsPublishingSameValue lib zone record record siblings = [] then
      match ← syncRecordToProviders lib zone
          (.delete (toRecordInput { record.toSync with ttl := none })) domainId with
      | .failed errors => throw (publishFailed "deletion" errors)
      | _ => pure ()
    else pure ()

def deleteDnsRecordLocked (domainId recordId : String) : Task Unit := do
  match ← ask (.selectRecordOf recordId domainId) with
  | none => throw (recordNotFound recordId)
  | some record =>
    withdrawUnshared lib domainId record
    deleteRecord recordId

def deleteDnsRecord (tenantId domainId recordId : String) : Task Unit := do
  let _ ← verifyDomainOwnership tenantId domainId
  lockDomain domainId
  deleteDnsRecordLocked lib domainId recordId

def updateDnsRecordLocalOnly (tenantId domainId recordId : String) (input : UpdateDnsRecordInput) :
    Task (Option DnsRecord) := do
  let _ ← verifyDomainOwnership tenantId domainId
  match ← ask (.selectRecordOf recordId domainId) with
  | none => throw (recordNotFound recordId)
  | some _ =>
    setColumns recordId input.values
    ask (.selectRecord recordId)

def createDnsRecordLocalOnly (tenantId domainId : String) (input : CreateDnsRecordInput) :
    Task (Option DnsRecord) := do
  let _ ← verifyDomainOwnership tenantId domainId
  let id ← ask .randomUUID
  insertRecord (input.row id domainId)
  ask (.selectRecord id)

def serversForDomain (domainId : String) : Task (List DnsServer) := do
  let servers ← ask (.activeServersForDomain domainId)
  if ! servers.isEmpty then pure servers
  else do
    let all ← ask .activeServers
    if all.isEmpty then throw noDnsServers else pure all

/-! ### Records that only a server has -/

def mapSet {α : Type} (entries : List (Text × α)) (key : Text) (value : α) : List (Text × α) :=
  if entries.any fun e => e.1 = key then entries.map fun e => if e.1 = key then (key, value) else e
  else entries ++ [(key, value)]

def comparable (type : Text) : Bool := lib.toUpperCase type ≠ "SOA".toList

def localMap (zone : Text) (rows : List DnsRecord) : List (Text × DnsRecord) :=
  (rows.filter fun r => comparable lib r.recordType).foldl
    (fun entries r => mapSet entries (recordKey lib zone r.toSync) r) []

def RemoteRecord.toSync (r : RemoteRecord) : SyncRecord where
  type := r.type
  name := r.name
  content := r.content
  ttl := none
  priority := none
  weight := none
  port := none

def remoteMap (zone : Text) (records : List RemoteRecord) : List (Text × RemoteRecord) :=
  (records.filter fun r => comparable lib r.type).foldl
    (fun entries r => mapSet entries (recordKey lib zone r.toSync) r) []

def takePartner (unmatchedRemote : List (Text × RemoteRecord)) (key : Text) :
    List (Text × RemoteRecord) :=
  let typeNamePrefix := ['|'].intercalate ((key.splitOn '|').take 2)
  match unmatchedRemote.find? fun e => (typeNamePrefix ++ ['|']).isPrefixOf e.1 with
  | some partner => unmatchedRemote.filter fun e => e.1 ≠ partner.1
  | none => unmatchedRemote

def remoteOnly (zone : Text) (rows : List DnsRecord) (records : List RemoteRecord) :
    List RemoteRecord :=
  let local' := localMap lib zone rows
  let remote := remoteMap lib zone records
  let unmatchedLocal := local'.filter fun e => ! remote.any fun r => r.1 = e.1
  let unmatchedRemote := remote.filter fun e => ! local'.any fun l => l.1 = e.1
  (unmatchedLocal.foldl (fun unmatched e => takePartner unmatched e.1) unmatchedRemote).map Prod.snd

def remoteRecordsToImport (zone : Text) (rows : List DnsRecord) (records : List RemoteRecord) :
    List RemoteRecord :=
  let name := qualifyName lib.lowering zone
  let localSoaNames := (rows.filter fun r => lib.toUpperCase r.recordType = "SOA".toList).map
    fun r => name (r.recordName.getD [])
  (records.filter fun r => lib.toUpperCase r.type = "SOA".toList && name r.name ∉ localSoaNames) ++
    remoteOnly lib zone rows records

def RemoteRecord.row (r : RemoteRecord) (id domainId : String) : DnsRecord where
  id := id
  domainId := domainId
  recordType := r.type
  recordName := some r.name
  recordValue := some r.content
  ttl := r.ttl
  priority := r.priority
  weight := none
  port := none
  managedBy := none

def insertEach (domainId : String) : List RemoteRecord → Task Unit
  | [] => pure ()
  | r :: rest => do
      let id ← ask .randomUUID
      insertRecord (r.row id domainId)
      insertEach domainId rest

def importRemoteOnlyRecords (tenantId domainId : String) : Task (List DnsRecord) := do
  let _ ← verifyDomainOwnership tenantId domainId
  match ← ask (.selectDomain domainId) with
  | none => throw noDomain
  | some domain =>
    let servers ← serversForDomain domainId
    match servers with
    | [] => throw noDnsServers
    | server :: _ =>
      let zone := domain.domainName.text
      let records ← tryCatch (ask (.listUpstream server zone)) fun _ => throw providerError
      lockDomain domainId
      let rows ← ask (.selectRecords domainId)
      insertEach domainId (remoteRecordsToImport lib zone rows records)
      ask (.selectRecords domainId)

def removeLocalDnsRecord (tenantId domainId recordId : String) : Task Unit := do
  let _ ← verifyDomainOwnership tenantId domainId
  lockDomain domainId
  let deleted : ℕ ← ask (.deleteRecordOf recordId domainId)
  if deleted = 0 then throw (recordNotFound recordId) else pure ()

def publishedLocally (zone : Text) (rows : List DnsRecord) (record : SyncRecord) : Bool :=
  rows.any fun r => recordKey lib zone r.toSync = recordKey lib zone record

def removeRemoteDnsRecord (tenantId domainId : String) (record : SyncRecord) : Task Unit := do
  let _ ← verifyDomainOwnership tenantId domainId
  match ← ask (.selectDomain domainId) with
  | none => throw noDomain
  | some domain =>
    let zone := domain.domainName.text
    lockDomain domainId
    let rows ← ask (.selectRecords domainId)
    if publishedLocally lib zone rows record then throw stillLocal
    else do
      match ← syncRecordToProviders lib zone (.delete (toRecordInput record)) domainId with
      | .failed errors => throw (publishFailed "deletion" errors)
      | .skipped reason => throw (notAuthoritative "remove" reason)
      | .published _ => pure ()

end Service

/-! ## Routes -/

structure PullDnsRecord where
  type : Text
  name : Text
  value : Text
  ttl : Option ℕ
  /-- Not the empty string. -/
  local_id : Option String

structure PushDnsRecord where
  type : Text
  name : Text
  value : Text
  ttl : Option ℕ
  priority : Option ℕ
  weight : Option ℕ
  port : Option ℕ
  replaces : Option Text

inductive DnsRequest
  | create (input : CreateDnsRecordInput)
  | update (recordId : String) (input : UpdateDnsRecordInput)
  | delete (recordId : String)
  | sync
  | removeLocal (localId : String)
  | removeRemote (record : SyncRecord)
  | pull (body : PullDnsRecord)
  | push (body : PushDnsRecord)

section Routes

variable (lib : Builtins)

def assertNotSecondaryDns (tenantId domainId : String) : Task Unit := do
  match ← ask (.selectDomainOf domainId tenantId) with
  | some domain => if domain.dnsMode = .secondary then throw readOnly else pure ()
  | none => pure ()

def PullDnsRecord.update (body : PullDnsRecord) : UpdateDnsRecordInput where
  record_value := some body.value
  ttl := body.ttl
  priority := none
  weight := none
  port := none

def PullDnsRecord.create (body : PullDnsRecord) : CreateDnsRecordInput where
  record_type := body.type
  record_name := some body.name
  record_value := body.value
  ttl := body.ttl.getD 3600
  priority := none
  weight := none
  port := none

def PushDnsRecord.toSync (body : PushDnsRecord) : SyncRecord where
  type := body.type
  name := body.name
  content := body.value
  ttl := some (body.ttl.getD 3600)
  priority := body.priority
  weight := body.weight
  port := body.port

def PushDnsRecord.change (body : PushDnsRecord) : RecordChange :=
  match body.replaces with
  | some replaced =>
    .update (toRecordInput body.toSync)
      (some (toRecordInput { bareSync with type := body.type, name := body.name, content := replaced }))
      true
  | none => .create (toRecordInput body.toSync)
where
  bareSync : SyncRecord :=
    { type := [], name := [], content := [], ttl := none, priority := none, weight := none,
      port := none }

def pushRoute (domainId : String) (body : PushDnsRecord) : Task Unit := do
  match ← ask (.selectDomain domainId) with
  | none => throw noDomain
  | some domain =>
    match ← syncRecordToProviders lib domain.domainName.text body.change domainId with
    | .failed errors => throw (publishFailed "record" errors)
    | .skipped reason => throw (notAuthoritative "push" reason)
    | .published _ => pure ()

def pullRoute (tenantId domainId : String) (body : PullDnsRecord) : Task Unit :=
  if truthy body.local_id then do
    let _ ← updateDnsRecordLocalOnly tenantId domainId (body.local_id.getD "") body.update
  else do
    let _ ← createDnsRecordLocalOnly tenantId domainId body.create

def dnsRecordRoutes (tenantId domainId : String) : DnsRequest → Task Unit
  | .create input => do
      assertNotSecondaryDns tenantId domainId
      let _ ← createDnsRecord lib tenantId domainId input
  | .update recordId input => do
      assertNotSecondaryDns tenantId domainId
      let _ ← updateDnsRecord lib tenantId domainId recordId input
  | .delete recordId => do
      assertNotSecondaryDns tenantId domainId
      deleteDnsRecord lib tenantId domainId recordId
  | .sync => do
      assertNotSecondaryDns tenantId domainId
      let _ ← importRemoteOnlyRecords lib tenantId domainId
  | .removeLocal localId => do
      assertNotSecondaryDns tenantId domainId
      removeLocalDnsRecord tenantId domainId localId
  | .removeRemote record => do
      assertNotSecondaryDns tenantId domainId
      removeRemoteDnsRecord lib tenantId domainId record
  | .pull body => pullRoute tenantId domainId body
  | .push body => pushRoute lib domainId body

end Routes

end Insula.DnsRecords
