import Insula.DnsDiff
import Insula.HostMigrationRuns
import Insula.KeyGrowth
import Insula.Paths
import Insula.SplitProviders

/-!
# Importing what only the server has

`importRemoteOnlyRecords` adds a row for each record that a listing has and the table has not. The
rows keep the preference of a record, which the identity of a listed record does not have.
-/

namespace Insula.DnsRecords

open Program (runAlone)
open DnsServers Javascript KeyPairing
open HostMigrations (Collation)

/-! ## The diff -/

inductive DiffStatus
  | conflict | remoteOnly | localOnly | inSync
  deriving DecidableEq

/-- `{ conflict: 0, remote_only: 1, local_only: 2, in_sync: 3 }`. -/
def DiffStatus.order : DiffStatus → ℕ
  | conflict => 0
  | remoteOnly => 1
  | localOnly => 2
  | inSync => 3

structure LocalSide where
  value : Text
  ttl : ℕ
  id : String
  priority : Option ℕ
  weight : Option ℕ
  port : Option ℕ

structure RemoteSide where
  value : Text
  ttl : ℕ

structure DnsRecordDiffEntry where
  type : Text
  name : Text
  localSide : Option LocalSide
  remoteSide : Option RemoteSide
  status : DiffStatus

def DnsRecord.side (l : DnsRecord) : LocalSide :=
  ⟨l.recordValue.getD [], l.ttl, l.id, l.priority, l.weight, l.port⟩

def RemoteRecord.side (r : RemoteRecord) : RemoteSide := ⟨r.content, r.ttl⟩

section Diff

variable (lib : Builtins) (c : Collation) (zone : Text)

/-- `@` at the apex, a relative name below it. -/
def displayName (name : Text) : Text :=
  let zoneFqdn := qualifyName lib.lowering zone ['@']
  let abs := qualifyName lib.lowering zone name
  if abs = zoneFqdn then ['@']
  else if ('.' :: zoneFqdn).isSuffixOf abs then abs.take (abs.length - (zoneFqdn.length + 1))
  else if abs.getLast? = some '.' then abs.dropLast
  else abs

def localEntry (status : DiffStatus) (l : DnsRecord) (r : Option RemoteRecord) : DnsRecordDiffEntry :=
  ⟨l.recordType, displayName lib zone (l.recordName.getD []), some l.side, r.map RemoteRecord.side,
    status⟩

def remoteEntry (r : RemoteRecord) : DnsRecordDiffEntry :=
  ⟨r.type, displayName lib zone r.name, none, some r.side, .remoteOnly⟩

def entryComesFirst (a b : DnsRecordDiffEntry) : Bool :=
  ((compare a.status.order b.status.order).then
    ((c.localeCompare a.type b.type).then (c.localeCompare a.name b.name))).isLE

def computeRecordDiff (localRecords : List DnsRecord) (remoteRecords : List RemoteRecord) :
    List DnsRecordDiffEntry :=
  let pairing := pairRecords lib zone id localRecords remoteRecords
  let diff := pairing.inSync.map (fun p => localEntry lib zone .inSync p.1 (some p.2)) ++
    pairing.conflicts.map (fun p => localEntry lib zone .conflict p.1 (some p.2)) ++
    pairing.localOnly.map (fun l => localEntry lib zone .localOnly l none) ++
    pairing.remoteOnly.map (remoteEntry lib zone)
  diff.insertionSort fun a b => entryComesFirst c a b = true

theorem remoteOnly_notMem_iff (localRecords : List DnsRecord) (remoteRecords : List RemoteRecord) :
    (∀ e ∈ computeRecordDiff lib c zone localRecords remoteRecords, e.status ≠ .remoteOnly) ↔
      (pairRecords lib zone id localRecords remoteRecords).remoteOnly = [] := by
  simp only [computeRecordDiff, List.mem_insertionSort, List.mem_append, List.mem_map]
  constructor
  · intro h
    rw [List.eq_nil_iff_forall_not_mem]
    intro r hr
    exact h _ (.inr ⟨r, hr, rfl⟩) rfl
  · rintro hnil e (((⟨p, -, rfl⟩ | ⟨p, -, rfl⟩) | ⟨l, -, rfl⟩) | ⟨r, hr, -⟩)
    · exact fun h => nomatch h
    · exact fun h => nomatch h
    · exact fun h => nomatch h
    · rw [hnil] at hr
      cases hr

end Diff

/-! ## The beginning of a key -/

theorem splitOn_key (type name value : Text) : (type ++ '|' :: (name ++ '|' :: value)).splitOn '|' =
      type.splitOn '|' ++ (name.splitOn '|' ++ value.splitOn '|') := by
  rw [List.splitOn_append_cons_self, List.splitOn_append_cons_self]

/-- What two keys begin with does not depend on the value. -/
theorem typeNamePrefix_congr (type name value value' : Text) :
    typeNamePrefix (type ++ '|' :: (name ++ '|' :: value)) =
      typeNamePrefix (type ++ '|' :: (name ++ '|' :: value')) := by
  obtain ⟨s, types, htype⟩ := List.exists_cons_of_ne_nil (List.splitOn_ne_nil '|' type)
  obtain ⟨t, names, hname⟩ := List.exists_cons_of_ne_nil (List.splitOn_ne_nil '|' name)
  unfold typeNamePrefix
  rw [splitOn_key, splitOn_key, htype, hname]
  cases types with
  | nil => rfl
  | cons u types => rfl

/-- A key is its beginning, which is two parts without bars, and a rest. -/
theorem exists_parts (type name value : Text) : ∃ s t rest, '|' ∉ s ∧ '|' ∉ t ∧
    typeNamePrefix (type ++ '|' :: (name ++ '|' :: value)) = s ++ '|' :: t ∧
    type ++ '|' :: (name ++ '|' :: value) = s ++ '|' :: (t ++ '|' :: rest) := by
  obtain ⟨s, types, htype⟩ := List.exists_cons_of_ne_nil (List.splitOn_ne_nil '|' type)
  obtain ⟨v, values, hvalue⟩ := List.exists_cons_of_ne_nil (List.splitOn_ne_nil '|' value)
  have hparts : ∃ t u rest, types ++ (name.splitOn '|' ++ value.splitOn '|') = t :: u :: rest := by
    obtain ⟨t, names, hname⟩ := List.exists_cons_of_ne_nil (List.splitOn_ne_nil '|' name)
    rw [hname, hvalue]
    cases types with
    | nil =>
      cases names with
      | nil => exact ⟨t, v, values, rfl⟩
      | cons u names => exact ⟨t, u, names ++ v :: values, rfl⟩
    | cons u types =>
      cases types with
      | nil => exact ⟨u, t, names ++ v :: values, rfl⟩
      | cons w types => exact ⟨u, w, types ++ (t :: names ++ v :: values), rfl⟩
  obtain ⟨t, u, rest, hparts⟩ := hparts
  have hsplit : (type ++ '|' :: (name ++ '|' :: value)).splitOn '|' = s :: t :: u :: rest := by
    rw [splitOn_key, htype, List.cons_append, hparts]
  have hbar := Paths.notMem_of_mem_splitOn (c := '|') (type ++ '|' :: (name ++ '|' :: value))
  rw [hsplit] at hbar
  refine ⟨s, t, ['|'].intercalate (u :: rest), hbar s (by simp), hbar t (by simp), ?_, ?_⟩
  · rw [typeNamePrefix, hsplit]
    simp [List.intercalate_cons_cons]
  · have hjoin : ['|'].intercalate ((type ++ '|' :: (name ++ '|' :: value)).splitOn '|') =
        type ++ '|' :: (name ++ '|' :: value) := List.intercalate_splitOn '|'
    rw [hsplit, List.intercalate_cons_cons, List.intercalate_cons_cons] at hjoin
    rw [← hjoin]
    simp

section Keys

variable {lib : Builtins} {zone : Text} {R : Type*} {record : R → RemoteRecord}

/-- A row fits the records whose keys begin as its own does. -/
theorem partners_iff (l : DnsRecord) (r : R) : partners lib zone record l r = true ↔
      typeNamePrefix (localKey lib zone l) = typeNamePrefix (remoteKey lib zone record r) := by
  obtain ⟨value, hlocal⟩ := recordKey_eq lib zone l.toSync
  obtain ⟨value', hremote⟩ := recordKey_eq lib zone (record r).toSync
  obtain ⟨s, t, rest, hs, ht, hbegin, -⟩ := exists_parts (typeAndName lib zone l.toSync).1
    (typeAndName lib zone l.toSync).2 value
  obtain ⟨s', t', rest', hs', ht', hbegin', hwhole'⟩ := exists_parts
    (typeAndName lib zone (record r).toSync).1 (typeAndName lib zone (record r).toSync).2 value'
  rw [partners, List.isPrefixOf_iff_prefix, localKey, remoteKey, hlocal, hremote, hbegin, hbegin']
  constructor
  · rintro ⟨more, hmore⟩
    have hsame : s ++ '|' :: (t ++ '|' :: more) = s' ++ '|' :: (t' ++ '|' :: rest') := by
      rw [← hwhole', ← hmore]
      simp
    have hparts := congrArg (List.splitOn '|') hsame
    rw [List.splitOn_append_cons_self_of_not_mem hs, List.splitOn_append_cons_self_of_not_mem ht,
      List.splitOn_append_cons_self_of_not_mem hs', List.splitOn_append_cons_self_of_not_mem ht']
      at hparts
    injection hparts with hfirst hrest
    injection hrest with hsecond
    rw [hfirst, hsecond]
  · intro heq
    rw [hwhole', heq]
    exact ⟨rest', by simp⟩

def rowKey (lib : Builtins) (zone : Text) (r : RemoteRecord) : Text := localKey lib zone (r.row "" "")

theorem localKey_row (r : RemoteRecord) (id domainId : String) :
    localKey lib zone (r.row id domainId) = rowKey lib zone r := rfl

theorem typeNamePrefix_rowKey (r : RemoteRecord) :
    typeNamePrefix (rowKey lib zone r) = typeNamePrefix (remoteKey lib zone id r) := by
  obtain ⟨value, hlocal⟩ := recordKey_eq lib zone (r.row "" "").toSync
  obtain ⟨value', hremote⟩ := recordKey_eq lib zone r.toSync
  rw [rowKey, localKey, remoteKey, hlocal, id, hremote]
  exact typeNamePrefix_congr _ _ value value'

end Keys

/-! ## The table after an import -/

def importedRows (ids : ℕ → String) (domainId : String) : ℕ → List RemoteRecord → List DnsRecord
  | _, [] => []
  | n, r :: rest => r.row (ids n) domainId :: importedRows ids domainId (n + 1) rest

structure ImportWorld where
  domain : Domain
  servers : List DnsServer
  dnsRecords : List DnsRecord
  listed : List RemoteRecord
  ids : ℕ → String
  issued : ℕ

namespace ImportWorld

variable (w : ImportWorld)

def zone : Text := w.domain.domainName.text

def rows : List DnsRecord := w.dnsRecords.filter fun r => r.domainId = w.domain.id

def selectDomain (id : String) : Option Domain := if w.domain.id = id then some w.domain else none

def selectDomainOf (id tenantId : String) : Option Domain :=
  if w.domain.id = id ∧ w.domain.tenantId = tenantId then some w.domain else none

def respond (w : ImportWorld) : (o : Op) → Except ApiError (Val o) × ImportWorld
  | .selectDomainOf id tenantId => (.ok (w.selectDomainOf id tenantId), w)
  | .selectDomain id => (.ok (w.selectDomain id), w)
  | .activeServersForDomain _ => (.ok w.servers, w)
  | .activeServers => (.ok w.servers, w)
  | .listUpstream _ _ => (.ok w.listed, w)
  | .lockDomain _ => (.ok (), w)
  | .selectRecords id => (.ok (w.dnsRecords.filter fun r => r.domainId = id), w)
  | .randomUUID => (.ok (w.ids w.issued), { w with issued := w.issued + 1 })
  | .insertRecord row => (.ok (), { w with dnsRecords := w.dnsRecords ++ [row] })
  | _ => (.error (plainError "no statement of an import"), w)

def imported (records : List RemoteRecord) : ImportWorld :=
  { w with
    dnsRecords := w.dnsRecords ++ importedRows w.ids w.domain.id w.issued records
    issued := w.issued + records.length }

variable {w}

theorem run_insertEach (records : List RemoteRecord) (next : Task (List DnsRecord)) :
    runAlone respond (insertEach w.domain.id records >>= fun _ => next).run w =
      runAlone respond next.run (w.imported records) := by
  induction records generalizing w with
  | nil =>
    have hnone : w.imported [] = w := by simp [imported, importedRows]
    rw [hnone]
    rfl
  | cons r rest ih =>
    have hrest := ih (w := { w with
      dnsRecords := w.dnsRecords ++ [r.row (w.ids w.issued) w.domain.id]
      issued := w.issued + 1 })
    have hworld : ({ w with
        dnsRecords := w.dnsRecords ++ [r.row (w.ids w.issued) w.domain.id]
        issued := w.issued + 1 } : ImportWorld).imported rest = w.imported (r :: rest) := by
      have hissued : w.issued + 1 + rest.length = w.issued + (rest.length + 1) := by omega
      simp [imported, importedRows, hissued]
    rw [← hworld, ← hrest]
    rfl

theorem runAlone_run_bind {α β : Type} (x : Task α) (f : α → Task β) :
    runAlone respond (x >>= f).run w =
      match (runAlone respond x.run w).1 with
      | .ok a => runAlone respond (f a).run (runAlone respond x.run w).2
      | .error e => (.error e, (runAlone respond x.run w).2) := by
  have hrun : (x >>= f).run = x.run >>= ExceptT.bindCont f := rfl
  rw [hrun, Program.runAlone_bind]
  cases (runAlone respond x.run w).1 <;> rfl

theorem run_verifyDomainOwnership (tenantId domainId : String) :
    runAlone respond (verifyDomainOwnership tenantId domainId).run w =
      (if w.domain.id = domainId ∧ w.domain.tenantId = tenantId then .ok w.domain
        else .error (domainNotFound domainId), w) := by
  unfold verifyDomainOwnership
  rw [Program.runAlone_request_bind, respond]
  by_cases h : w.domain.id = domainId ∧ w.domain.tenantId = tenantId
  · have hselected : w.selectDomainOf domainId tenantId = some w.domain := if_pos h
    rw [if_pos h]
    dsimp only
    rw [hselected]
    rfl
  · have hselected : w.selectDomainOf domainId tenantId = none := if_neg h
    rw [if_neg h]
    dsimp only
    rw [hselected]
    rfl

theorem run_serversForDomain (domainId : String) :
    runAlone respond (serversForDomain domainId).run w =
      (if w.servers = [] then .error noDnsServers else .ok w.servers, w) := by
  unfold serversForDomain
  rw [Program.runAlone_request_bind, respond]
  cases hservers : w.servers with
  | nil =>
    simp only [List.isEmpty_nil, Bool.not_true, Bool.false_eq_true, if_false, if_true]
    rw [Program.runAlone_request_bind, respond, hservers]
    rfl
  | cons server servers => rfl

theorem run_import (lib : Builtins) (hservers : w.servers ≠ []) : ∃ rows,
    runAlone respond (importRemoteOnlyRecords lib w.domain.tenantId w.domain.id).run w =
      (.ok rows, w.imported (remoteRecordsToImport lib w.zone w.rows w.listed)) := by
  have hselected : w.selectDomain w.domain.id = some w.domain := if_pos rfl
  unfold importRemoteOnlyRecords
  rw [runAlone_run_bind, run_verifyDomainOwnership]
  simp only [and_self, if_true]
  rw [Program.runAlone_request_bind, respond]
  dsimp only
  rw [hselected]
  dsimp only
  rw [runAlone_run_bind, run_serversForDomain]
  cases hlist : w.servers with
  | nil => exact absurd hlist hservers
  | cons server servers =>
    simp only [reduceCtorEq, if_false]
    -- What is left of the program after the listing, the lock and the rows.
    exact ⟨_, run_insertEach (remoteRecordsToImport lib w.zone w.rows w.listed)
      (ask (.selectRecords w.domain.id))⟩

theorem of_run_import {lib : Builtins} {tenantId domainId : String} {rows : List DnsRecord}
    {w' : ImportWorld}
    (h : runAlone respond (importRemoteOnlyRecords lib tenantId domainId).run w = (.ok rows, w')) :
    (w.domain.id = domainId ∧ w.domain.tenantId = tenantId) ∧ w.servers ≠ [] := by
  unfold importRemoteOnlyRecords at h
  rw [runAlone_run_bind, run_verifyDomainOwnership] at h
  by_cases hdomain : w.domain.id = domainId ∧ w.domain.tenantId = tenantId
  · refine ⟨hdomain, fun hservers => ?_⟩
    have hselected : w.selectDomain domainId = some w.domain := if_pos hdomain.1
    simp only [if_pos hdomain] at h
    rw [Program.runAlone_request_bind, respond] at h
    dsimp only at h
    rw [hselected] at h
    dsimp only at h
    rw [runAlone_run_bind, run_serversForDomain] at h
    simp only [hservers, if_true] at h
    cases congrArg Prod.fst h
  · simp only [if_neg hdomain] at h
    cases congrArg Prod.fst h

end ImportWorld

/-! ## A second import -/

section Once

variable {lib : Builtins} {zone : Text} {rows rows' : List DnsRecord} {listed : List RemoteRecord}

variable (lib zone) in
theorem map_key_importedRows (ids : ℕ → String) (domainId : String) (n : ℕ)
    (records : List RemoteRecord) :
    (comparableLocals lib (importedRows ids domainId n records)).map (localKey lib zone) =
      (records.filter fun r => comparable lib r.type).map (rowKey lib zone) := by
  induction records generalizing n with
  | nil => rfl
  | cons r rest ih =>
    have hrest := ih (n + 1)
    unfold comparableLocals at hrest ⊢
    rw [importedRows, List.filter_cons, List.filter_cons]
    have htype : (r.row (ids n) domainId).recordType = r.type := rfl
    rw [htype]
    by_cases h : comparable lib r.type = true
    · rw [if_pos h, if_pos h, List.map_cons, List.map_cons, hrest, localKey_row]
    · rw [if_neg h, if_neg h, hrest]

theorem domainId_importedRows {ids : ℕ → String} {domainId : String} {n : ℕ}
    {records : List RemoteRecord} : ∀ row ∈ importedRows ids domainId n records,
    row.domainId = domainId := by
  induction records generalizing n with
  | nil => exact fun _ h => absurd h List.not_mem_nil
  | cons r rest ih =>
    intro row hrow
    rcases List.mem_cons.mp hrow with rfl | hrow
    · rfl
    · exact ih row hrow

theorem mem_importedRows (ids : ℕ → String) (domainId : String) (n : ℕ)
    {records : List RemoteRecord} {r : RemoteRecord} (h : r ∈ records) :
    ∃ id, r.row id domainId ∈ importedRows ids domainId n records := by
  induction records generalizing n with
  | nil => cases h
  | cons x rest ih =>
    rcases List.mem_cons.mp h with rfl | h
    · exact ⟨ids n, List.mem_cons_self⟩
    · obtain ⟨id, hid⟩ := ih (n + 1) h
      exact ⟨id, List.mem_cons_of_mem _ hid⟩

theorem comparable_remoteOnly {r : RemoteRecord}
    (h : r ∈ (pairRecords lib zone id rows listed).remoteOnly) : comparable lib r.type = true := by
  have hmem := (matched_pairUp (localKey lib zone) (remoteKey lib zone id) (partners lib zone id)
    (comparableLocals lib rows) (comparableRemotes lib id listed)).remote_perm.mem_iff.mp
      (List.mem_append_right _ h)
  have hlisted := (mem_leftovers hmem).1
  exact (List.mem_filter.mp hlisted).2

/-- What is imported beside the SOA is what is on the server only. -/
theorem filter_remoteRecordsToImport :
    (remoteRecordsToImport lib zone rows listed).filter (fun r => comparable lib r.type) =
      (pairRecords lib zone id rows listed).remoteOnly := by
  unfold remoteRecordsToImport
  rw [remoteOnly_eq]
  dsimp only
  rw [List.filter_append, List.filter_eq_self.mpr fun r hr => comparable_remoteOnly hr,
    List.filter_eq_nil_iff.mpr, List.nil_append]
  intro r hr
  have hsoa := (List.mem_filter.mp hr).2
  rw [Bool.and_eq_true, decide_eq_true_eq] at hsoa
  simp [comparable, hsoa.1]

theorem soa_imported {ids : ℕ → String} {domainId : String} {n : ℕ}
    (h : rows'.Perm (rows ++ importedRows ids domainId n (remoteRecordsToImport lib zone rows listed)))
    {r : RemoteRecord} (hr : r ∈ listed) (hsoa : lib.toUpperCase r.type = "SOA".toList) :
    qualifyName lib.lowering zone r.name ∈ (rows'.filter fun row =>
        lib.toUpperCase row.recordType = "SOA".toList).map
      fun row => qualifyName lib.lowering zone (row.recordName.getD []) := by
  by_cases hlocal : qualifyName lib.lowering zone r.name ∈ (rows.filter fun row =>
      lib.toUpperCase row.recordType = "SOA".toList).map
        fun row => qualifyName lib.lowering zone (row.recordName.getD [])
  · obtain ⟨row, hrow, hname⟩ := List.mem_map.mp hlocal
    obtain ⟨hmem, htype⟩ := List.mem_filter.mp hrow
    exact List.mem_map.mpr ⟨row, List.mem_filter.mpr
      ⟨h.mem_iff.mpr (List.mem_append_left _ hmem), htype⟩, hname⟩
  · have himport : r ∈ remoteRecordsToImport lib zone rows listed := by
      unfold remoteRecordsToImport
      dsimp only
      refine List.mem_append_left _ (List.mem_filter.mpr ⟨hr, ?_⟩)
      rw [decide_eq_true hsoa, decide_eq_true hlocal]
      rfl
    obtain ⟨id, hid⟩ := mem_importedRows ids domainId n himport
    exact List.mem_map.mpr ⟨_, List.mem_filter.mpr
      ⟨h.mem_iff.mpr (List.mem_append_right _ hid), decide_eq_true hsoa⟩, rfl⟩

/-- A second import adds nothing exactly when nothing is on the server only. -/
theorem remoteRecordsToImport_eq_nil_iff {ids : ℕ → String} {domainId : String} {n : ℕ}
    (h : rows'.Perm (rows ++ importedRows ids domainId n
      (remoteRecordsToImport lib zone rows listed))) :
    remoteRecordsToImport lib zone rows' listed = [] ↔
      (pairRecords lib zone id rows' listed).remoteOnly = [] := by
  constructor
  · intro hnil
    rw [← filter_remoteRecordsToImport, hnil]
    rfl
  · intro hnil
    unfold remoteRecordsToImport
    rw [remoteOnly_eq, hnil, List.append_nil, List.filter_eq_nil_iff]
    intro r hr hboth
    rw [Bool.and_eq_true, decide_eq_true_eq, decide_eq_true_eq] at hboth
    exact hboth.2 (soa_imported h hr hboth.1)

def ImportsNew (lib : Builtins) (zone : Text) (rows : List DnsRecord) (listed : List RemoteRecord) :
    Prop :=
  OwnKeys (rowKey lib zone) (comparableLocals lib rows) (comparableRemotes lib id listed)
    (localKey lib zone) (remoteKey lib zone id) typeNamePrefix

theorem remoteOnly_again_iff {ids : ℕ → String} {domainId : String} {n : ℕ}
    (h : rows'.Perm (rows ++ importedRows ids domainId n
      (remoteRecordsToImport lib zone rows listed))) :
    (pairRecords lib zone id rows' listed).remoteOnly = [] ↔ ImportsNew lib zone rows listed := by
  apply grown_iff partners_iff typeNamePrefix_rowKey
  have hkeys := ((h.filter fun l => comparable lib l.recordType).map (localKey lib zone))
  rw [List.filter_append, List.map_append] at hkeys
  have hadded := map_key_importedRows lib zone ids domainId n
    (remoteRecordsToImport lib zone rows listed)
  rw [filter_remoteRecordsToImport] at hadded
  unfold comparableLocals at hadded
  rw [hadded] at hkeys
  exact hkeys

end Once

/-- With the table in any order and the same listing, a second import adds nothing, and the diff
shows nothing that is on the server only. -/
def NothingLeft (lib : Builtins) (c : Collation) (w : ImportWorld) : Prop :=
  ∀ again : ImportWorld, again.domain = w.domain → again.servers = w.servers →
    again.listed = w.listed → again.dnsRecords.Perm w.dnsRecords →
    (runAlone ImportWorld.respond
      (importRemoteOnlyRecords lib w.domain.tenantId w.domain.id).run again).2.dnsRecords =
        again.dnsRecords ∧
    ∀ e ∈ computeRecordDiff lib c again.zone again.rows again.listed, e.status ≠ .remoteOnly

/-- Importing twice imports once exactly when the rows of the first import have keys of their
own. -/
theorem import_once_iff {lib : Builtins} {c : Collation} {tenantId domainId : String}
    {w w' : ImportWorld} {rows : List DnsRecord}
    (hrun : runAlone ImportWorld.respond (importRemoteOnlyRecords lib tenantId domainId).run w =
      (.ok rows, w')) : NothingLeft lib c w' ↔ ImportsNew lib w.zone w.rows w.listed := by
  obtain ⟨⟨rfl, rfl⟩, hservers⟩ := ImportWorld.of_run_import hrun
  obtain ⟨rows', hrun'⟩ := ImportWorld.run_import lib hservers
  have hw' : w' = w.imported (remoteRecordsToImport lib w.zone w.rows w.listed) :=
    congrArg Prod.snd (hrun.symm.trans hrun')
  subst hw'
  have hrows : ∀ again : ImportWorld, again.domain = w.domain →
      again.dnsRecords.Perm
        (w.imported (remoteRecordsToImport lib w.zone w.rows w.listed)).dnsRecords →
      again.rows.Perm (w.rows ++ importedRows w.ids w.domain.id w.issued
        (remoteRecordsToImport lib w.zone w.rows w.listed)) := by
    intro again hdomain hperm
    have hfilter := hperm.filter fun r => r.domainId = w.domain.id
    rw [ImportWorld.imported, List.filter_append, List.filter_eq_self.mpr fun row hrow =>
      decide_eq_true (domainId_importedRows row hrow)] at hfilter
    rw [ImportWorld.rows, hdomain]
    exact hfilter
  constructor
  · intro h
    have hself := (h _ rfl rfl rfl (.refl _)).2
    rw [remoteOnly_notMem_iff] at hself
    exact (remoteOnly_again_iff (hrows (w.imported _) rfl (.refl _))).mp hself
  · intro h again hdomain hservers' hlisted hperm
    have hzone : again.zone = w.zone := by rw [ImportWorld.zone, hdomain]; rfl
    have hlisted' : again.listed = w.listed := hlisted
    have hdomain' : again.domain = w.domain := hdomain
    have hempty := (remoteOnly_again_iff (hrows again hdomain hperm)).mpr h
    have hnone := (remoteRecordsToImport_eq_nil_iff (hrows again hdomain hperm)).mpr hempty
    constructor
    · obtain ⟨_, hagain⟩ := ImportWorld.run_import (w := again) lib (by rw [hservers']; exact hservers)
      rw [hzone, hlisted', hnone, hdomain'] at hagain
      have hsame : (again.imported []).dnsRecords = again.dnsRecords := List.append_nil _
      exact (congrArg (fun r => r.2.dnsRecords) hagain).trans hsame
    · rw [remoteOnly_notMem_iff, hzone, hlisted']
      exact hempty

/-! ## The two shapes of a listing -/

variable {lib : Builtins}

theorem canonicalContent_congr {a b : DnsRecordInput} (htype : a.type = b.type)
    (h : formatContent lib a = formatContent lib b) :
    canonicalContent lib a = canonicalContent lib b := by
  unfold canonicalContent
  rw [htype, h]

/-- A preference in its own field matters for an MX with a bare target only, and for an SRV that has
its weight and port. -/
theorem formatContent_priority (input : DnsRecordInput) (hweight : input.weight = none)
    (h : lib.toUpperCase input.type = "MX".toList → hasNumericPrefix (trim input.content) 1 = true) :
    formatContent lib input = formatContent lib { input with priority := none } := by
  unfold formatContent
  dsimp only
  by_cases hmx : lib.toUpperCase input.type = "MX".toList
  · rw [if_pos hmx, if_pos (h hmx), if_pos hmx, if_pos (h hmx)]
  · rw [if_neg hmx, if_neg hmx]
    by_cases hsrv : lib.toUpperCase input.type = "SRV".toList
    · rw [if_pos hsrv, if_pos hsrv, hweight]
      cases input.priority <;> rfl
    · rw [if_neg hsrv, if_neg hsrv]

theorem rowKey_eq {zone : Text} {r : RemoteRecord} (h : r.priority = none ∨
      (lib.toUpperCase r.type = "MX".toList → hasNumericPrefix (trim r.content) 1 = true)) :
    rowKey lib zone r = remoteKey lib zone id r := by
  have hformat : formatContent lib { toRecordInput (r.row "" "").toSync with ttl := none } =
      formatContent lib { toRecordInput r.toSync with ttl := none } := by
    rcases h with hnone | hwire
    · unfold DnsRecord.toSync RemoteRecord.row RemoteRecord.toSync toRecordInput
      rw [hnone]
      rfl
    · exact formatContent_priority _ rfl hwire
  have hcanonical : canonicalContent lib { toRecordInput (r.row "" "").toSync with ttl := none } =
      canonicalContent lib { toRecordInput r.toSync with ttl := none } :=
    canonicalContent_congr rfl hformat
  unfold rowKey localKey remoteKey recordKey
  dsimp only [id]
  rw [hcanonical]
  rfl

/-- A listing with full wire content, as that of PowerDNS, is imported once. -/
theorem importsNew_of_wire {zone : Text} {rows : List DnsRecord} {listed : List RemoteRecord}
    (h : ∀ r ∈ listed, r.priority = none ∨
      (lib.toUpperCase r.type = "MX".toList → hasNumericPrefix (trim r.content) 1 = true)) :
    ImportsNew lib zone rows listed :=
  ownKeys_of_same_key fun r hr => rowKey_eq (h r (List.mem_of_mem_filter hr))

def listedMail (id target : String) (priority : ℕ) : RemoteRecord where
  id := id.toList
  type := "MX".toList
  name := "example.test.".toList
  content := target.toList
  ttl := 300
  priority := some priority

def mailRow : DnsRecord where
  id := "row"
  domainId := "d2"
  recordType := "MX".toList
  recordName := some ['@']
  recordValue := some "a.example.test".toList
  ttl := 3600
  priority := some 10
  weight := none
  port := none
  managedBy := none

def mailDomain : Domain where
  id := "d2"
  tenantId := "tenant"
  domainName := DnsServers.exampleZone
  dnsMode := .primary
  dnsGroupId := none

def mailWorld (rows : List DnsRecord) : ImportWorld where
  domain := mailDomain
  servers := [cloudflareServer]
  dnsRecords := rows
  listed := [listedMail "1" "b.example.test" 20, listedMail "2" "a.example.test" 10]
  ids := toString
  issued := 0

def mailImported (rows : List DnsRecord) : ImportWorld :=
  (mailWorld rows).imported
    (remoteRecordsToImport asciiBuiltins (mailWorld rows).zone (mailWorld rows).rows
      (mailWorld rows).listed)

open HostMigrations (asciiCollation)

theorem mail_imported_once : NothingLeft asciiBuiltins asciiCollation (mailImported []) := by
  obtain ⟨rows, hrun⟩ := ImportWorld.run_import (w := mailWorld []) asciiBuiltins (by decide)
  apply (import_once_iff hrun).mpr
  exact ownKeys_of_leftovers (by decide) (by decide)

/-- One of the two is in the table already, and is paired with the other. -/
theorem mail_imported_again :
    ¬ ∀ (lib : Builtins) (c : Collation) (tenantId domainId : String) (w w' : ImportWorld)
      (rows : List DnsRecord),
      runAlone ImportWorld.respond (importRemoteOnlyRecords lib tenantId domainId).run w =
      (.ok rows, w') →
        NothingLeft lib c w' := by
  intro h
  obtain ⟨rows, hrun⟩ :=
    ImportWorld.run_import (w := mailWorld [mailRow]) asciiBuiltins (by decide)
  have hleft := h asciiBuiltins asciiCollation _ _ _ _ _ hrun (mailImported [mailRow]) rfl rfl rfl
    (.refl _)
  have hnone := (remoteOnly_notMem_iff _ _ _ _ _).mp hleft.2
  revert hnone
  decide

end Insula.DnsRecords
