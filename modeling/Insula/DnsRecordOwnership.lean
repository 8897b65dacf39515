import Insula.DnsRecordRoutes
import Mathlib.Data.List.Nodup

/-!
# Whose zones the record routes write

The statements and calls of a route judged on a state of the tables: each write is to concern a
domain of the tenant that is not in secondary mode, under a name of that domain's zone. A server may
refuse any call, a statement may fail, and a server answers a listing with one of the lists that it
may answer with.
-/

noncomputable section

namespace Insula.DnsRecords

open Program DnsServers Lowercase
open scoped Classical

structure ProviderGroup where
  id : String
  isDefault : Bool

structure DnsDatabase where
  domains : List Domain
  tenants : List Tenant
  dnsRecords : List DnsRecord
  servers : List DnsServer
  groups : List ProviderGroup
  reserved : List (Text × String)
  lists : DnsServer → Text → List RemoteRecord → Prop
  listsSome : ∀ server zone, ∃ records, lists server zone records
  domainKeys : (domains.map Domain.id).Nodup
  domainNames : (domains.map fun d => d.domainName.text).Nodup
  recordKeys : (dnsRecords.map DnsRecord.id).Nodup

namespace DnsDatabase

variable (db : DnsDatabase)

def primaryServersForGroup (groupId : String) : List DnsServer :=
  db.servers.filter fun s => s.groupId = some groupId && s.role = .primary && s.enabled

def activeServers : List DnsServer := db.servers.filter DnsServer.enabled

def activeServersForDomain (domainId : String) : List DnsServer :=
  match db.domains.find? fun d => d.id = domainId with
  | none => []
  | some domain =>
    match domain.dnsGroupId.filter (· ≠ "") with
    | some groupId => db.primaryServersForGroup groupId
    | none =>
      match db.groups.find? ProviderGroup.isDefault with
      | some group => db.primaryServersForGroup group.id
      | none => db.activeServers

def Answers : (o : Op) → Val o → Prop
  | .selectDomain id, a => a = db.domains.find? fun d => d.id = id
  | .selectDomainOf id tenantId, a => a = db.domains.find? fun d => d.id = id && d.tenantId = tenantId
  | .selectTenant id, a => a = db.tenants.find? fun t => t.id = id
  | .reservedPlatformHostnames, a => a = db.reserved
  | .activeServersForDomain domainId, a => a = db.activeServersForDomain domainId
  | .activeServers, a => a = db.activeServers
  | .selectRecord id, a => a = db.dnsRecords.find? fun r => r.id = id
  | .selectRecordOf id domainId, a =>
    a = db.dnsRecords.find? fun r => r.id = id && r.domainId = domainId
  | .selectRecords domainId, a => a = db.dnsRecords.filter fun r => r.domainId = domainId
  | .randomUUID, a => a ∉ db.dnsRecords.map DnsRecord.id
  | .deleteRecordOf id domainId, a =>
    a = (db.dnsRecords.filter fun r => r.id = id && r.domainId = domainId).length
  | .insertRecord row, _ => row.id ∉ db.dnsRecords.map DnsRecord.id
  | .listUpstream server zone, a => db.lists server zone a
  | _, _ => True

def withRecords (rows : List DnsRecord) (h : (rows.map DnsRecord.id).Nodup) : DnsDatabase :=
  { db with dnsRecords := rows, recordKeys := h }

def insert (row : DnsRecord) : DnsDatabase :=
  if h : row.id ∉ db.dnsRecords.map DnsRecord.id then
    db.withRecords (db.dnsRecords ++ [row]) (by
      rw [List.map_append, List.map_singleton]
      exact db.recordKeys.append (List.nodup_singleton _) (by simpa using h))
  else db

def update (id : String) (values : RecordValues) : DnsDatabase :=
  db.withRecords (db.dnsRecords.map fun r => if r.id = id then values.applyTo r else r) (by
    have hkeys : (db.dnsRecords.map fun r => if r.id = id then values.applyTo r else r).map
        DnsRecord.id = db.dnsRecords.map DnsRecord.id := by
      rw [List.map_map]
      apply List.map_congr_left
      intro r _
      by_cases h : r.id = id
      · simp [h, RecordValues.applyTo]
      · simp [h]
    rw [hkeys]
    exact db.recordKeys)

def deleteWhere (p : DnsRecord → Bool) : DnsDatabase :=
  db.withRecords (db.dnsRecords.filter fun r => ! p r)
    (db.recordKeys.sublist (List.filter_sublist.map _))

def after : Op → DnsDatabase
  | .insertRecord row => db.insert row
  | .updateRecord id values => db.update id values
  | .deleteRecord id => db.deleteWhere fun r => r.id = id
  | .deleteRecordOf id domainId => db.deleteWhere fun r => r.id = id && r.domainId = domainId
  | _ => db

end DnsDatabase

def tableWrites (allowed : DnsDatabase → Op → Prop) :
    Discipline Op (fun o => Except ApiError (Val o)) DnsDatabase where
  allowed := allowed
  next db o r :=
    match r with
    | .ok a => if db.Answers o a then some (db.after o) else none
    | .error _ => some db

section Judgement

variable (lib : Builtins) (tenantId : String)

/-- The name is the zone's apex or lies under it. -/
def NameInZone (zone : DomainName) (name : Text) : Prop :=
  let zoneFqdn := foldCase zone.text ++ ['.']
  let qualified := qualifyName lib.lowering zone.text name
  qualified = zoneFqdn ∨ ('.' :: zoneFqdn) <:+ qualified

/-- A write for a domain under a name is one that the tenant may make. -/
structure Own (domain : Domain) (name : Text) : Prop where
  tenant : domain.tenantId = tenantId
  writable : domain.dnsMode ≠ .secondary
  name : NameInZone lib domain.domainName name

def OwnRow (db : DnsDatabase) (row : DnsRecord) : Prop :=
  ∃ d ∈ db.domains, d.id = row.domainId ∧ Own lib tenantId d (row.recordName.getD [])

def OwnZone (db : DnsDatabase) (zone name : Text) : Prop :=
  ∃ d ∈ db.domains, d.domainName.text = zone ∧ Own lib tenantId d name

def Allowed (db : DnsDatabase) : Op → Prop
  | .insertRecord row => OwnRow lib tenantId db row
  | .updateRecord id _ => ∀ row ∈ db.dnsRecords, row.id = id → OwnRow lib tenantId db row
  | .deleteRecord id => ∀ row ∈ db.dnsRecords, row.id = id → OwnRow lib tenantId db row
  | .deleteRecordOf id domainId => ∀ row ∈ db.dnsRecords, row.id = id → row.domainId = domainId →
      OwnRow lib tenantId db row
  | .createUpstream _ zone record => OwnZone lib tenantId db zone record.name
  | .removeUpstream _ zone record => OwnZone lib tenantId db zone record.name
  | .deleteUpstream _ zone record => OwnZone lib tenantId db zone record.name
  | _ => True

abbrev ownWrites := tableWrites (Allowed lib tenantId)

/-- Every write of a program, whatever fails on its way, is the tenant's. -/
def Proper {α : Type} (p : Task α) (db : DnsDatabase) : Prop :=
  Follows (ownWrites lib tenantId) (fun _ _ => True) p.run db

end Judgement

/-! ## Running programs on the tables -/

section Running

variable {A : DnsDatabase → Op → Prop} {α β : Type} {db : DnsDatabase}
  {Q : DnsDatabase → Except ApiError α → Prop} {o : Op}

theorem follows_ask {Q : DnsDatabase → Except ApiError (Val o) → Prop} :
    Follows (tableWrites A) Q (ask o).run db ↔
      A db o ∧ (∀ a, db.Answers o a → Q (db.after o) (.ok a)) ∧ ∀ e, Q db (.error e) := by
  rw [follows_run_request]
  refine and_congr Iff.rfl (and_congr ?_ ?_)
  · refine ⟨fun h a ha => h a _ (if_pos ha), fun h a db' hdb' => ?_⟩
    have hanswer : (if db.Answers o a then some (db.after o) else none) = some db' := hdb'
    by_cases ha : db.Answers o a
    · rw [if_pos ha] at hanswer
      rw [← Option.some.inj hanswer]
      exact h a ha
    · rw [if_neg ha] at hanswer
      cases hanswer
  · exact ⟨fun h e => h e _ rfl, fun h e db' hdb' => by cases hdb'; exact h e⟩

theorem follows_ask_bind {f : Val o → Task α} :
    Follows (tableWrites A) Q (ask o >>= f).run db ↔ A db o ∧
        (∀ a, db.Answers o a → Follows (tableWrites A) Q (f a).run (db.after o)) ∧
        ∀ e, Q db (.error e) := by
  rw [follows_run_bind, follows_ask]
  rfl

theorem follows_read_bind (o : Op) (a : Val o) (hallowed : A db o)
    (hafter : db.after o = db) (hanswer : ∀ b, db.Answers o b ↔ b = a)
    {Q : DnsDatabase → Except ApiError α → Prop} (herror : ∀ e, Q db (.error e)) {f : Val o → Task α} :
    Follows (tableWrites A) Q (ask o >>= f).run db ↔ Follows (tableWrites A) Q (f a).run db := by
  rw [follows_ask_bind, hafter]
  refine ⟨fun h => h.2.1 a ((hanswer a).mpr rfl), fun h => ⟨hallowed, ?_, herror⟩⟩
  intro b hb
  rw [(hanswer b).mp hb]
  exact h

theorem follows_some {p : Task α} (h : Follows (tableWrites A) Q p.run db) : ∃ r, Q db r := by
  have hany : ∀ q : Program Op (fun o => Except ApiError (Val o)) (Except ApiError α),
      Follows (tableWrites A) Q q db → ∃ r, Q db r := by
    intro q hq
    induction q with
    | pure r => exact ⟨r, hq⟩
    | call o next ih => exact ih (.error (plainError "")) (hq.2 _ db rfl)
  exact hany p.run h

/-- Nothing but the tables as they were is left to be said. -/
def Same (db : DnsDatabase) {α : Type} (db' : DnsDatabase) (_ : Except ApiError α) : Prop := db' = db

theorem same_bind {x : Task β} {f : β → Task α} (hx : Follows (tableWrites A) (Same db) x.run db)
    (hf : ∀ b, Follows (tableWrites A) Q (f b).run db) (herror : ∀ e, Q db (.error e)) :
    Follows (tableWrites A) Q (x >>= f).run db := by
  rw [follows_run_bind]
  refine follows_mono ?_ hx
  rintro db' r rfl
  cases r with
  | ok b => exact hf b
  | error e => exact herror e

theorem same_tryCatch {x : Task α} {g : ApiError → Task α}
    (hx : Follows (tableWrites A) (Same db) x.run db)
    (hg : ∀ e, Follows (tableWrites A) (Same db) (g e).run db) :
    Follows (tableWrites A) (Same db) (tryCatch x g).run db := by
  rw [follows_run_tryCatch]
  refine follows_mono ?_ hx
  rintro db' r rfl
  cases r with
  | ok b => rfl
  | error e => exact hg e

theorem same_ask (hallowed : A db o) (hafter : db.after o = db) :
    Follows (tableWrites A) (Same db) (ask o).run db := by
  rw [follows_ask, hafter]
  exact ⟨hallowed, fun _ _ => rfl, fun _ => rfl⟩

end Running

/-! ## Reaching the servers -/

section Servers

variable {lib : Builtins} {A : DnsDatabase → Op → Prop} {db : DnsDatabase} {zone : Text}
  {change : RecordChange} {servers : List DnsServer} {d : Domain}

theorem same_pushToEach (happly : ∀ s ∈ servers, Follows (tableWrites A) (Same db)
      (applyRecordChange lib s zone change).run db) :
    Follows (tableWrites A) (Same db) (pushToEach lib zone change servers).run db := by
  induction servers with
  | nil => rfl
  | cons server servers ih =>
    unfold pushToEach
    refine same_bind (same_tryCatch ?_ fun _ => rfl) ?_ fun _ => rfl
    · exact same_bind (happly server List.mem_cons_self) (fun _ => rfl) fun _ => rfl
    · intro failure
      have hrest := ih fun s hs => happly s (List.mem_cons_of_mem server hs)
      exact same_bind hrest (fun _ => rfl) fun _ => rfl

theorem same_pushToServers (happly : ∀ s ∈ servers, Follows (tableWrites A) (Same db)
      (applyRecordChange lib s zone change).run db) :
    Follows (tableWrites A) (Same db) (pushToServers lib servers zone change).run db := by
  unfold pushToServers
  by_cases hempty : servers.isEmpty = true
  · rw [if_pos hempty]
    rfl
  · rw [if_neg hempty]
    exact same_bind (same_pushToEach happly) (fun _ => rfl) fun _ => rfl

def DnsDatabase.Managed (db : DnsDatabase) (d : Domain) : Prop :=
  canManageDnsZone d.dnsMode (db.activeServersForDomain d.id) = true

/-- Where the keys are distinct, a search by the key, or by more, finds the one member. -/
theorem find?_iff_of_key {α β : Type} {key : α → β} {l : List α} {p : α → Bool} {a : α} {k : β}
    (hkeys : (l.map key).Nodup) (hp : ∀ x, p x = true → key x = k) :
    l.find? p = some a ↔ a ∈ l ∧ p a = true := by
  refine ⟨fun h => ⟨List.mem_of_find?_eq_some h, List.find?_some h⟩, ?_⟩
  rintro ⟨ha, hpa⟩
  cases hfind : l.find? p with
  | none => exact absurd hpa (List.find?_eq_none.mp hfind a ha)
  | some x =>
    have hkey := (hp x (List.find?_some hfind)).trans (hp a hpa).symm
    rw [List.inj_on_of_nodup_map hkeys (List.mem_of_find?_eq_some hfind) ha hkey]

theorem DnsDatabase.find?_domain {db : DnsDatabase} (h : d ∈ db.domains) :
    (db.domains.find? fun d' => d'.id = d.id) = some d :=
  (find?_iff_of_key (k := d.id) db.domainKeys fun _ => of_decide_eq_true).mpr ⟨h, by simp⟩

theorem canManageDnsZone_ne_nil {dnsMode : DnsMode} (h : canManageDnsZone dnsMode servers = true) :
    dnsMode = .primary ∧ servers ≠ [] := by
  unfold canManageDnsZone at h
  simp only [Bool.and_eq_true, decide_eq_true_eq] at h
  refine ⟨h.1, ?_⟩
  rintro rfl
  exact absurd h.2 (by simp)

/-- On a zone that the platform writes, a change leaves what it leaves on every server. -/
theorem same_sync (hd : d ∈ db.domains) (hdomain : A db (.selectDomain d.id))
    (hactive : A db (.activeServersForDomain d.id))
    (happly : db.Managed d → ∀ s ∈ db.activeServersForDomain d.id, Follows (tableWrites A)
      (Same db) (applyRecordChange lib s d.domainName.text change).run db) :
    Follows (tableWrites A) (Same db)
      (syncRecordToProviders lib d.domainName.text change d.id).run db := by
  unfold syncRecordToProviders
  refine same_tryCatch ?_ fun _ => rfl
  rw [follows_ask_bind]
  refine ⟨hdomain, ?_, fun _ => rfl⟩
  intro a ha
  have hfound : a = some d := ha.trans (DnsDatabase.find?_domain hd)
  subst hfound
  dsimp only
  rw [follows_ask_bind]
  refine ⟨hactive, ?_, fun _ => rfl⟩
  intro servers hservers
  have hall : servers = db.activeServersForDomain d.id := hservers
  subst hall
  by_cases hmanage : canManageDnsZone d.dnsMode (db.activeServersForDomain d.id) = true
  · rw [if_pos hmanage]
    exact same_pushToServers (happly hmanage)
  · rw [if_neg hmanage]
    rfl

theorem applyRecordChange_of_pushToEach
    {Q : DnsDatabase → Except ApiError (List (String × String)) → Prop}
    (h : Follows (tableWrites A) Q (pushToEach lib zone change servers).run db) :
    ∀ s ∈ servers, ∃ Q' : DnsDatabase → Except ApiError Unit → Prop,
      Follows (tableWrites A) Q' (applyRecordChange lib s zone change).run db := by
  induction servers generalizing Q with
  | nil => exact fun s hs => nomatch hs
  | cons server servers ih =>
    unfold pushToEach at h
    rw [follows_run_bind, follows_run_tryCatch, follows_run_bind] at h
    intro s hs
    rcases List.mem_cons.mp hs with rfl | hs
    · exact ⟨_, h⟩
    · obtain ⟨r, hr⟩ := follows_some h
      have hrest : ∃ Q', Follows (tableWrites A) Q'
          (pushToEach lib zone change servers).run db := by
        cases r with
        | ok a =>
          have hnext := hr
          simp only [Resumes] at hnext
          have hbind : Follows (tableWrites A) Q
              (pushToEach lib zone change servers >>= fun failures =>
                pure ((none : Option (String × String)).toList ++ failures)).run db := hnext
          rw [follows_run_bind] at hbind
          exact ⟨_, hbind⟩
        | error e =>
          have hbind : Follows (tableWrites A) Q
              (pushToEach lib zone change servers >>= fun failures =>
                pure ((some (server.displayName, e.message)).toList ++ failures)).run db := hr
          rw [follows_run_bind] at hbind
          exact ⟨_, hbind⟩
      obtain ⟨Q', hQ'⟩ := hrest
      exact ih hQ' s hs

theorem applyRecordChange_of_sync (hd : d ∈ db.domains) (hmanaged : db.Managed d)
    {Q : DnsDatabase → Except ApiError DnsSyncOutcome → Prop} (h : Follows (tableWrites A) Q
      (syncRecordToProviders lib d.domainName.text change d.id).run db) :
    ∀ s ∈ db.activeServersForDomain d.id, ∃ Q' : DnsDatabase → Except ApiError Unit → Prop,
      Follows (tableWrites A) Q' (applyRecordChange lib s d.domainName.text change).run db := by
  unfold syncRecordToProviders at h
  rw [follows_run_tryCatch, follows_ask_bind] at h
  have hservers := h.2.1 _ (DnsDatabase.find?_domain hd).symm
  dsimp only at hservers
  rw [follows_ask_bind] at hservers
  have hpush := hservers.2.1 _ rfl
  have hcan : canManageDnsZone d.dnsMode
      ((db.after (.selectDomain d.id)).activeServersForDomain d.id) = true := hmanaged
  have hne := (canManageDnsZone_ne_nil hcan).2
  rw [if_pos hcan] at hpush
  unfold pushToServers at hpush
  rw [if_neg (by simpa using hne), follows_run_bind] at hpush
  exact applyRecordChange_of_pushToEach hpush

end Servers

/-! ## Publishing -/

section Publishing

variable {lib : Builtins} {tenantId : String} {db : DnsDatabase} {server : DnsServer}
  {zone name : Text} {record : DnsRecordInput}

/-- The absolute name decides what lies in a zone. -/
theorem ownZone_of_qualifyName {a b : Text}
    (h : qualifyName lib.lowering zone a = qualifyName lib.lowering zone b)
    (ha : OwnZone lib tenantId db zone a) : OwnZone lib tenantId db zone b := by
  obtain ⟨d, hd, rfl, htenant, hwritable, hname⟩ := ha
  refine ⟨d, hd, rfl, htenant, hwritable, ?_⟩
  unfold NameInZone at *
  dsimp only at *
  rw [← h]
  exact hname

theorem listedValue_name {type wanted : Text} {records : List RemoteRecord} {hit : RemoteRecord}
    (h : listedValue lib zone type name wanted records = some hit) :
    qualifyName lib.lowering zone hit.name = name := by
  have hprop := List.find?_some h
  simp only [Bool.and_eq_true, decide_eq_true_eq] at hprop
  exact hprop.1.2

/-- A removal reaches a server that removes values, or that may list this one. -/
def Withdraws (lib : Builtins) (db : DnsDatabase) (server : DnsServer) (zone : Text)
    (record : DnsRecordInput) : Prop :=
  ∃ wanted, canonicalContent lib record = .ok wanted ∧ (server.deletesValues = true ∨
    ∃ records, db.lists server zone records ∧ listedValue lib zone (lib.toUpperCase record.type)
      (qualifyName lib.lowering zone record.name) wanted records ≠ none)

theorem same_removeRecordValue
    (hown : Withdraws lib db server zone record → OwnZone lib tenantId db zone record.name) :
    Follows (ownWrites lib tenantId) (Same db) (removeRecordValue lib server zone record).run db := by
  unfold removeRecordValue
  cases hcanonical : canonicalContent lib record with
  | error e => rfl
  | ok wanted =>
    dsimp only
    by_cases hdeletes : server.deletesValues = true
    · rw [if_pos hdeletes]
      exact same_ask (hown ⟨wanted, hcanonical, .inl hdeletes⟩) rfl
    · rw [if_neg hdeletes, follows_ask_bind]
      refine ⟨trivial, ?_, fun _ => rfl⟩
      intro records hrecords
      cases hhit : listedValue lib zone (lib.toUpperCase record.type)
          (qualifyName lib.lowering zone record.name) wanted records with
      | none => rfl
      | some hit =>
        have hlisted : OwnZone lib tenantId db zone record.name :=
          hown ⟨wanted, hcanonical, .inr ⟨records, hrecords, by simp [hhit]⟩⟩
        exact same_ask (ownZone_of_qualifyName (listedValue_name hhit).symm hlisted) rfl

def Names (name : Text) : RecordChange → Prop
  | .create record => record.name = name
  | .delete record => record.name = name
  | .update record previous _ => record.name = name ∧ ∀ p ∈ previous, p.name = name

theorem same_applyRecordChange {change : RecordChange} (hnames : Names name change)
    (hown : OwnZone lib tenantId db zone name) :
    Follows (ownWrites lib tenantId) (Same db) (applyRecordChange lib server zone change).run db := by
  have hcreate : ∀ record : DnsRecordInput, record.name = name →
      Follows (ownWrites lib tenantId) (Same db) (ask (.createUpstream server zone record)).run db := by
    rintro record rfl
    exact same_ask hown rfl
  have hremove : ∀ record : DnsRecordInput, record.name = name →
      Follows (ownWrites lib tenantId) (Same db) (removeRecordValue lib server zone record).run db := by
    rintro record rfl
    exact same_removeRecordValue fun _ => hown
  cases change with
  | create record => exact hcreate _ hnames
  | delete record => exact hremove _ hnames
  | update record previous withdrawOnFailure =>
    cases previous with
    | none => exact hcreate _ hnames.1
    | some previous =>
      have hprevious : previous.name = name := hnames.2 previous rfl
      unfold applyRecordChange
      dsimp only
      by_cases hsame : sameValue lib previous record = true
      · rw [if_pos hsame]
        exact hcreate _ hnames.1
      · rw [if_neg hsame]
        by_cases hsingle : lib.toUpperCase record.type ∈ singleValueTypes
        · rw [if_pos hsingle]
          refine same_bind (hremove _ hprevious) ?_ fun _ => rfl
          intro _
          apply same_tryCatch (hcreate _ hnames.1)
          intro err
          exact same_bind (same_tryCatch (hcreate _ hprevious) fun _ => rfl) (fun _ => rfl)
            fun _ => rfl
        · rw [if_neg hsingle]
          refine same_bind (hcreate _ hnames.1) ?_ fun _ => rfl
          intro _
          apply same_tryCatch (hremove _ hprevious)
          intro err
          cases withdrawOnFailure with
          | false => rfl
          | true =>
            rw [if_neg (by decide)]
            exact same_bind (same_tryCatch (hremove _ hnames.1) fun _ => rfl) (fun _ => rfl)
              fun _ => rfl

/-! ### What is written for certain -/

variable {Q : DnsDatabase → Except ApiError Unit → Prop}

theorem removeRecordValue_succeeds
    (h : Follows (ownWrites lib tenantId) Q (removeRecordValue lib server zone record).run db) :
    Q db (.ok ()) := by
  unfold removeRecordValue at h
  cases hcanonical : canonicalContent lib record with
  | error e =>
    rw [hcanonical] at h
    exact h
  | ok wanted =>
    rw [hcanonical] at h
    dsimp only at h
    by_cases hdeletes : server.deletesValues = true
    · rw [if_pos hdeletes] at h
      exact (follows_ask.mp h).2.1 () trivial
    · rw [if_neg hdeletes, follows_ask_bind] at h
      obtain ⟨records, hrecords⟩ := db.listsSome server zone
      have hlisted := h.2.1 records hrecords
      cases hfind : listedValue lib zone (lib.toUpperCase record.type)
          (qualifyName lib.lowering zone record.name) wanted records with
      | none =>
        rw [hfind] at hlisted
        exact hlisted
      | some hit =>
        rw [hfind] at hlisted
        exact (follows_ask.mp hlisted).2.1 () trivial

theorem ownZone_of_withdraws (hwithdraws : Withdraws lib db server zone record)
    (h : Follows (ownWrites lib tenantId) Q (removeRecordValue lib server zone record).run db) :
    OwnZone lib tenantId db zone record.name := by
  obtain ⟨wanted, hcanonical, hreaches⟩ := hwithdraws
  unfold removeRecordValue at h
  rw [hcanonical] at h
  dsimp only at h
  by_cases hdeletes : server.deletesValues = true
  · rw [if_pos hdeletes] at h
    exact (follows_ask.mp h).1
  · obtain ⟨records, hrecords, hsome⟩ := hreaches.resolve_left hdeletes
    rw [if_neg hdeletes, follows_ask_bind] at h
    have hlisted := h.2.1 records hrecords
    cases hfind : listedValue lib zone (lib.toUpperCase record.type)
        (qualifyName lib.lowering zone record.name) wanted records with
    | none => exact absurd hfind hsome
    | some hit =>
      rw [hfind] at hlisted
      exact ownZone_of_qualifyName (listedValue_name hfind) (follows_ask.mp hlisted).1

theorem ownZone_of_applyRecordChange {change : RecordChange} (hnames : Names name change)
    (hpublishes : ∀ record, change ≠ .delete record)
    (h : Follows (ownWrites lib tenantId) Q (applyRecordChange lib server zone change).run db) :
    OwnZone lib tenantId db zone name := by
  cases change with
  | delete record => exact absurd rfl (hpublishes record)
  | create record =>
    have hcall : OwnZone lib tenantId db zone record.name := (follows_ask.mp h).1
    rw [show record.name = name from hnames] at hcall
    exact hcall
  | update record previous withdrawOnFailure =>
    have hname : record.name = name := hnames.1
    have hcreate : ∀ {Q : DnsDatabase → Except ApiError Unit → Prop},
        Follows (ownWrites lib tenantId) Q (createUpstream server zone record).run db →
        OwnZone lib tenantId db zone name := by
      intro Q hcall
      rw [← hname]
      exact (follows_ask.mp hcall).1
    cases previous with
    | none => exact hcreate h
    | some previous =>
      unfold applyRecordChange at h
      dsimp only at h
      by_cases hsame : sameValue lib previous record = true
      · rw [if_pos hsame] at h
        exact hcreate h
      · rw [if_neg hsame] at h
        by_cases hsingle : lib.toUpperCase record.type ∈ singleValueTypes
        · rw [if_pos hsingle] at h
          unfold replaceSingleValue at h
          rw [follows_run_bind] at h
          have hnext := removeRecordValue_succeeds h
          unfold Resumes at hnext
          dsimp only at hnext
          rw [follows_run_tryCatch] at hnext
          exact hcreate hnext
        · rw [if_neg hsingle, follows_run_bind] at h
          exact hcreate h

theorem pushToEach_delete_succeeds {servers : List DnsServer}
    {Q : DnsDatabase → Except ApiError (List (String × String)) → Prop}
    (h : Follows (ownWrites lib tenantId) Q (pushToEach lib zone (.delete record) servers).run db) :
    Q db (.ok []) := by
  induction servers generalizing Q with
  | nil => exact h
  | cons server servers ih =>
    unfold pushToEach at h
    rw [follows_run_bind, follows_run_tryCatch, follows_run_bind] at h
    have hnext := removeRecordValue_succeeds h
    have hbind : Follows (ownWrites lib tenantId) Q
        (pushToEach lib zone (.delete record) servers >>= fun failures =>
          pure ((none : Option (String × String)).toList ++ failures)).run db := hnext
    rw [follows_run_bind] at hbind
    have hrest := ih hbind
    exact hrest

theorem sync_delete_succeeds {d : Domain} (hd : d ∈ db.domains)
    {Q : DnsDatabase → Except ApiError DnsSyncOutcome → Prop}
    (h : Follows (ownWrites lib tenantId) Q
      (syncRecordToProviders lib d.domainName.text (.delete record) d.id).run db) :
    ∃ outcome, (∀ errors, outcome ≠ .failed errors) ∧ Q db (.ok outcome) := by
  unfold syncRecordToProviders at h
  rw [follows_run_tryCatch, follows_ask_bind] at h
  have hservers := h.2.1 _ (DnsDatabase.find?_domain hd).symm
  dsimp only at hservers
  rw [follows_ask_bind] at hservers
  have hpush := hservers.2.1 _ rfl
  by_cases hmanaged : canManageDnsZone d.dnsMode
      ((db.after (.selectDomain d.id)).activeServersForDomain d.id) = true
  · rw [if_pos hmanaged] at hpush
    unfold pushToServers at hpush
    have hne := (canManageDnsZone_ne_nil hmanaged).2
    rw [if_neg (by simpa using hne), follows_run_bind] at hpush
    exact ⟨_, by simp, pushToEach_delete_succeeds hpush⟩
  · rw [if_neg hmanaged] at hpush
    exact ⟨_, by simp, hpush⟩

end Publishing

end Insula.DnsRecords

end
