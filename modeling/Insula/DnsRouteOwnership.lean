import Insula.DnsRecordOwnership
import Mathlib.Data.Fintype.EquivFin

/-!
# Requests that stay in the tenant's zones

Each route is judged from any state of the tables: every write that it may make is the tenant's
exactly when a condition on the request and the tables holds. The condition differs from route to
route, as the checks of the routes do.
-/

noncomputable section

namespace Insula.DnsRecords

open Program DnsServers Lowercase Javascript
open scoped Classical

section Names

variable {lib : Builtins}

def GivenInZone (lc : Lowering) (zone : DomainName) (name : Text) : Prop :=
  let given := lc.toLowerCase (trim name)
  given.getLast? = some '.' →
    given = foldCase zone.text ++ ['.'] ∨ ('.' :: (foldCase zone.text ++ ['.'])) <:+ given

theorem nameInZone_iff (zone : DomainName) (name : Text) :
    NameInZone lib zone name ↔ GivenInZone lib.lowering zone name := by
  unfold NameInZone GivenInZone
  dsimp only
  rw [qualifyName_eq, lib.lowering.getLast?_toLowerCase_dot]
  by_cases hapex : trim name = [] ∨ trim name = ['@']
  · have hdot : ¬ (trim name).getLast? = some '.' := by
      rcases hapex with h | h
      · rw [h]
        exact fun h => nomatch h
      · rw [h]
        decide
    rw [if_pos hapex]
    exact ⟨fun _ h => absurd h hdot, fun _ => .inl rfl⟩
  · rw [if_neg hapex]
    by_cases hdot : (trim name).getLast? = some '.'
    · rw [if_pos hdot]
      exact ⟨fun h _ => h, fun h => h hdot⟩
    · rw [if_neg hdot]
      refine ⟨fun _ h => absurd h hdot, fun _ => ?_⟩
      by_cases hzone : lib.lowering.toLowerCase (trim name) = foldCase zone.text
      · rw [if_pos hzone]
        exact .inl rfl
      · rw [if_neg hzone]
        right
        by_cases hunder : ('.' :: foldCase zone.text) <:+ lib.lowering.toLowerCase (trim name)
        · rw [if_pos hunder]
          obtain ⟨front, hfront⟩ := hunder
          exact ⟨front, by rw [← hfront]; simp⟩
        · rw [if_neg hunder]
          exact ⟨lib.lowering.toLowerCase (trim name), by simp⟩

end Names

theorem qualifyName_nil (lc : Lowering) (zone : Text) :
    qualifyName lc zone [] = qualifyName lc zone ['@'] := by
  have hnil : lc.toLowerCase (trim []) = [] := lc.toLowerCase_eq_nil.mpr rfl
  have hat : lc.toLowerCase (trim ['@']) = ['@'] := lc.toLowerCase_eq_at.mpr (by decide)
  unfold qualifyName
  dsimp only
  rw [hnil, hat, if_pos (.inl rfl), if_pos (.inr rfl)]

/-! ## Tables -/

namespace DnsDatabase

variable {db : DnsDatabase} {d : Domain} {tenantId domainId : String}

def Owned (db : DnsDatabase) (tenantId domainId : String) (d : Domain) : Prop :=
  d ∈ db.domains ∧ d.id = domainId ∧ d.tenantId = tenantId

theorem domain_eq {d' : Domain} (hd : d ∈ db.domains) (hd' : d' ∈ db.domains) (h : d'.id = d.id) :
    d' = d :=
  List.inj_on_of_nodup_map db.domainKeys hd' hd h

theorem find?_eq_some_iff : (db.domains.find? fun d => d.id = domainId) = some d ↔
    d ∈ db.domains ∧ d.id = domainId := by
  rw [find?_iff_of_key (k := domainId) db.domainKeys fun _ => of_decide_eq_true, decide_eq_true_iff]

theorem owned_iff : (db.domains.find? fun d => d.id = domainId && d.tenantId = tenantId) = some d ↔
    db.Owned tenantId domainId d := by
  rw [find?_iff_of_key (k := domainId) db.domainKeys (by simp +contextual)]
  simp [Owned]

theorem after_tables (db : DnsDatabase) (o : Op) :
    (db.after o).domains = db.domains ∧ (db.after o).servers = db.servers ∧
      (db.after o).groups = db.groups := by
  cases o with
  | insertRecord row =>
    change (db.insert row).domains = _ ∧ (db.insert row).servers = _ ∧ (db.insert row).groups = _
    unfold insert
    by_cases h : row.id ∉ db.dnsRecords.map DnsRecord.id
    · rw [dif_pos h]
      exact ⟨rfl, rfl, rfl⟩
    · rw [dif_neg h]
      exact ⟨rfl, rfl, rfl⟩
  | _ => exact ⟨rfl, rfl, rfl⟩

theorem insert_dnsRecords {row : DnsRecord} (h : row.id ∉ db.dnsRecords.map DnsRecord.id) :
    (db.after (.insertRecord row)).dnsRecords = db.dnsRecords ++ [row] := by
  change (db.insert row).dnsRecords = _
  unfold insert
  rw [dif_pos h]
  rfl

theorem activeServersForDomain_after (o : Op) (id : String) :
    (db.after o).activeServersForDomain id = db.activeServersForDomain id := by
  obtain ⟨hdomains, hservers, hgroups⟩ := db.after_tables o
  unfold activeServersForDomain activeServers primaryServersForGroup
  rw [hdomains, hservers, hgroups]

end DnsDatabase

section Own

variable {lib : Builtins} {tenantId : String} {db : DnsDatabase} {d : Domain} {row : DnsRecord}

theorem ownRow_after {o : Op} : OwnRow lib tenantId (db.after o) row ↔ OwnRow lib tenantId db row := by
  unfold OwnRow
  rw [(db.after_tables o).1]

theorem ownRow_iff (hd : d ∈ db.domains) (hrow : d.id = row.domainId) :
    OwnRow lib tenantId db row ↔ Own lib tenantId d (row.recordName.getD []) := by
  refine ⟨?_, fun h => ⟨d, hd, hrow, h⟩⟩
  rintro ⟨d', hd', hid', hown⟩
  rw [← DnsDatabase.domain_eq hd hd' (hid'.trans hrow.symm)]
  exact hown

theorem ownZone_iff (hd : d ∈ db.domains) {name : Text} :
    OwnZone lib tenantId db d.domainName.text name ↔ Own lib tenantId d name := by
  refine ⟨?_, fun h => ⟨d, hd, rfl, h⟩⟩
  rintro ⟨d', hd', hname', hown⟩
  rw [← List.inj_on_of_nodup_map db.domainNames hd' hd hname']
  exact hown

theorem own_iff (htenant : d.tenantId = tenantId) (hwritable : d.dnsMode ≠ .secondary) {name : Text} :
    Own lib tenantId d name ↔ GivenInZone lib.lowering d.domainName name :=
  ⟨fun h => (nameInZone_iff _ _).mp h.name, fun h => ⟨htenant, hwritable, (nameInZone_iff _ _).mpr h⟩⟩

/-- A name of null is the apex in a row and on the wire. -/
theorem ownZone_getD {zone : Text} {name : Option Text} :
    OwnZone lib tenantId db zone (name.getD ['@']) ↔ OwnZone lib tenantId db zone (name.getD []) := by
  cases name with
  | some name => rfl
  | none =>
    have hname := qualifyName_nil lib.lowering zone
    exact ⟨ownZone_of_qualifyName hname.symm, ownZone_of_qualifyName hname⟩

end Own

/-! ## Checks of the routes -/

section Checks

variable {lib : Builtins} {tenantId domainId : String} {db : DnsDatabase} {α β : Type}
  {f : Domain → Task α}

theorem proper_ask {o : Op} : Proper lib tenantId (ask o) db ↔ Allowed lib tenantId db o := by
  unfold Proper
  rw [follows_ask]
  exact ⟨fun h => h.1, fun h => ⟨h, fun _ _ => trivial, fun _ => trivial⟩⟩

theorem proper_ask_bind {o : Op} {f : Val o → Task α} :
    Proper lib tenantId (ask o >>= f) db ↔ Allowed lib tenantId db o ∧
      ∀ a, db.Answers o a → Proper lib tenantId (f a) (db.after o) := by
  unfold Proper
  rw [follows_ask_bind]
  exact ⟨fun h => ⟨h.1, h.2.1⟩, fun h => ⟨h.1, h.2, fun _ => trivial⟩⟩

/-- The answer of a route says nothing of what it wrote. -/
theorem proper_discard {x : Task α} {b : β} :
    Proper lib tenantId (x >>= fun _ => pure b) db ↔ Proper lib tenantId x db := by
  unfold Proper
  rw [follows_run_bind]
  refine ⟨follows_mono fun _ _ _ => trivial, follows_mono fun _ r _ => ?_⟩
  cases r <;> trivial

theorem proper_asserted {p : Task α} :
    Proper lib tenantId (assertNotSecondaryDns tenantId domainId >>= fun _ => p) db ↔
      ((∀ d, db.Owned tenantId domainId d → d.dnsMode ≠ .secondary) → Proper lib tenantId p db) := by
  unfold Proper assertNotSecondaryDns
  rw [follows_run_bind, follows_ask_bind]
  cases hfind : db.domains.find? fun d => d.id = domainId && d.tenantId = tenantId with
  | none =>
    have hnone : ∀ d, db.Owned tenantId domainId d → d.dnsMode ≠ .secondary := by
      intro d hd
      rw [← DnsDatabase.owned_iff, hfind] at hd
      cases hd
    refine ⟨fun h _ => h.2.1 none hfind.symm, fun h => ⟨trivial, ?_, fun _ => trivial⟩⟩
    intro a ha
    have hanswer : a = none := ha.trans hfind
    subst hanswer
    exact h hnone
  | some d =>
    have howned : ∀ d', db.Owned tenantId domainId d' ↔ d' = d := by
      intro d'
      rw [← DnsDatabase.owned_iff, hfind, Option.some.injEq, eq_comm]
    simp only [howned, forall_eq]
    have hrest : Follows (ownWrites lib tenantId)
        (Resumes (E := ownWrites lib tenantId) (fun _ _ => True) fun _ => p)
        (if d.dnsMode = .secondary then throw readOnly else pure () : Task Unit).run db ↔
        (d.dnsMode ≠ .secondary → Follows (ownWrites lib tenantId) (fun _ _ => True) p.run db) := by
      by_cases hmode : d.dnsMode = .secondary
      · rw [if_pos hmode]
        exact ⟨fun _ h => absurd hmode h, fun _ => trivial⟩
      · rw [if_neg hmode]
        exact ⟨fun h _ => h, fun h => h hmode⟩
    rw [← hrest]
    refine ⟨fun h => h.2.1 (some d) hfind.symm, fun h => ⟨trivial, ?_, fun _ => trivial⟩⟩
    intro a ha
    have hanswer : a = some d := ha.trans hfind
    subst hanswer
    exact h

theorem follows_verified {A : DnsDatabase → Op → Prop}
    (hread : A db (.selectDomainOf domainId tenantId)) :
    Follows (tableWrites A) (fun _ _ => True) (verifyDomainOwnership tenantId domainId >>= f).run db ↔
      ∀ d, db.Owned tenantId domainId d →
        Follows (tableWrites A) (fun _ _ => True) (f d).run db := by
  unfold verifyDomainOwnership
  rw [follows_run_bind, follows_ask_bind]
  constructor
  · intro h d hd
    exact h.2.1 (some d) (DnsDatabase.owned_iff.mpr hd).symm
  · intro h
    refine ⟨hread, ?_, fun _ => trivial⟩
    intro a ha
    cases a with
    | none => exact trivial
    | some d =>
      exact h d (DnsDatabase.owned_iff.mp (show _ = some d from (show some d = _ from ha).symm))

theorem proper_verified :
    Proper lib tenantId (verifyDomainOwnership tenantId domainId >>= f) db ↔
      ∀ d, db.Owned tenantId domainId d → Proper lib tenantId (f d) db :=
  follows_verified trivial

theorem proper_checked :
    ((∀ d, db.Owned tenantId domainId d → d.dnsMode ≠ .secondary) →
      Proper lib tenantId (verifyDomainOwnership tenantId domainId >>= f) db) ↔
      ∀ d, db.Owned tenantId domainId d → d.dnsMode ≠ .secondary → Proper lib tenantId (f d) db := by
  rw [proper_verified]
  refine ⟨?_, fun h hmode d hd => h d hd (hmode d hd)⟩
  intro h d hd hmode
  refine h ?_ d hd
  intro d' hd'
  rw [DnsDatabase.domain_eq hd.1 hd'.1 (hd'.2.1.trans hd.2.1.symm)]
  exact hmode

theorem proper_read_one (o : Op) (a : Val o) (hallowed : Allowed lib tenantId db o)
    (hafter : db.after o = db) (hanswer : ∀ b, db.Answers o b ↔ b = a) {f : Val o → Task α} :
    Proper lib tenantId (ask o >>= f) db ↔ Proper lib tenantId (f a) db :=
  follows_read_bind o a hallowed hafter hanswer fun _ => trivial

theorem proper_selectDomain {d : Domain} (hd : db.Owned tenantId domainId d)
    {f : Option Domain → Task α} :
    Proper lib tenantId (ask (.selectDomain domainId) >>= f) db ↔
    Proper lib tenantId (f (some d)) db := by
  have hfind : (db.domains.find? fun d => d.id = domainId) = some d :=
    DnsDatabase.find?_eq_some_iff.mpr ⟨hd.1, hd.2.1⟩
  apply proper_read_one (.selectDomain domainId) (some d) trivial rfl
  intro b
  change b = _ ↔ _
  rw [hfind]

def Unreserved (lib : Builtins) (db : DnsDatabase) (tenantId : String) (d : Domain)
    (recordName : Option Text) : Prop :=
  (∃ t, (db.tenants.find? fun t => t.id = tenantId) = some t ∧ t.isSystem = true) ∨
    effectiveFqdn lib d.domainName.text recordName ∉ db.reserved.map Prod.fst

theorem find?_reserved {reserved : List (Text × String)} {fqdn : Text} :
    (reserved.find? fun r => r.1 = fqdn) = none ↔ fqdn ∉ reserved.map Prod.fst := by
  rw [List.find?_eq_none, List.mem_map]
  simp only [decide_eq_true_eq, not_exists, not_and]

theorem follows_unreserved {A : DnsDatabase → Op → Prop} {d : Domain}
    (hd : db.Owned tenantId domainId d) (hdomain : A db (.selectDomain domainId))
    (htenant : A db (.selectTenant tenantId)) (hreserved : A db .reservedPlatformHostnames)
    {input : CreateDnsRecordInput} {f : Unit → Task α} : Follows (tableWrites A) (fun _ _ => True)
        (assertNotReservedHostname lib domainId tenantId input >>= f).run db ↔
      (Unreserved lib db tenantId d input.record_name →
        Follows (tableWrites A) (fun _ _ => True) (f ()).run db) := by
  have hfind : (db.domains.find? fun d => d.id = domainId) = some d :=
    DnsDatabase.find?_eq_some_iff.mpr ⟨hd.1, hd.2.1⟩
  have hanswer : ∀ b, db.Answers (.selectDomain domainId) b ↔ b = some d := by
    intro b
    change b = _ ↔ _
    rw [hfind]
  unfold assertNotReservedHostname Unreserved
  rw [follows_run_bind, follows_read_bind (.selectDomain domainId) (some d) hdomain rfl hanswer
    fun _ => trivial]
  dsimp only
  rw [follows_read_bind (.selectTenant tenantId) _ htenant rfl (fun _ => Iff.rfl) fun _ => trivial]
  have hguard : Follows (tableWrites A) (Resumes (E := tableWrites A) (fun _ _ => True) f)
        (refuseReserved (effectiveFqdn lib d.domainName.text input.record_name)).run db ↔
      (effectiveFqdn lib d.domainName.text input.record_name ∉ db.reserved.map Prod.fst →
        Follows (tableWrites A) (fun _ _ => True) (f ()).run db) := by
    unfold refuseReserved
    rw [follows_read_bind .reservedPlatformHostnames _ hreserved rfl (fun _ => Iff.rfl)
      fun _ => trivial, ← find?_reserved]
    cases db.reserved.find? fun r => r.1 = effectiveFqdn lib d.domainName.text input.record_name with
    | none => exact ⟨fun h _ => h, fun h => h rfl⟩
    | some r => exact ⟨fun _ h => (nomatch h), fun _ => trivial⟩
  cases hfound : db.tenants.find? fun t => t.id = tenantId with
  | none =>
    apply hguard.trans
    simp
  | some t =>
    obtain ⟨id, isSystem⟩ := t
    cases isSystem with
    | true =>
      refine ⟨fun h _ => ?_, fun h => ?_⟩
      · exact h
      · exact h (.inl ⟨_, rfl, rfl⟩)
    | false =>
      apply hguard.trans
      simp

end Checks

/-! ## Creating -/

section Creating

variable {lib : Builtins} {tenantId domainId : String} {db : DnsDatabase} {d : Domain}

theorem exists_fresh (db : DnsDatabase) : ∃ id, id ∉ db.dnsRecords.map DnsRecord.id := by
  obtain ⟨id, hid⟩ := Infinite.exists_notMem_finset (db.dnsRecords.map DnsRecord.id).toFinset
  exact ⟨id, by simpa using hid⟩

theorem Owned.after {o : Op} (hd : db.Owned tenantId domainId d) :
    (db.after o).Owned tenantId domainId d := by
  unfold DnsDatabase.Owned
  rw [(db.after_tables o).1]
  exact hd

theorem allowed_deleteRecord_inserted {row : DnsRecord}
    (hfresh : row.id ∉ db.dnsRecords.map DnsRecord.id)
    (hown : OwnRow lib tenantId db row) :
    Allowed lib tenantId (db.after (.insertRecord row)) (.deleteRecord row.id) := by
  intro row' hrow' hid
  rw [DnsDatabase.insert_dnsRecords hfresh, List.mem_append, List.mem_singleton] at hrow'
  rcases hrow' with hrow' | rfl
  · exact absurd (List.mem_map.mpr ⟨row', hrow', hid⟩) hfresh
  · exact ownRow_after.mpr hown

theorem create_iff (input : CreateDnsRecordInput) :
    ((∀ d, db.Owned tenantId domainId d → d.dnsMode ≠ .secondary) →
      Proper lib tenantId (createDnsRecord lib tenantId domainId input) db) ↔
      ∀ d, db.Owned tenantId domainId d → d.dnsMode ≠ .secondary →
        Unreserved lib db tenantId d input.record_name →
        GivenInZone lib.lowering d.domainName (input.record_name.getD []) := by
  unfold createDnsRecord
  rw [proper_checked]
  refine forall_congr' fun d => imp_congr_right fun hd => imp_congr_right fun hmode => ?_
  apply (follows_unreserved hd trivial trivial trivial).trans
  refine imp_congr_right fun _ => ?_
  have hrow : ∀ id, OwnRow lib tenantId db (input.row id domainId) ↔
      GivenInZone lib.lowering d.domainName (input.record_name.getD []) := by
    intro id
    rw [ownRow_iff hd.1 hd.2.1, own_iff hd.2.2 hmode]
    rfl
  constructor
  · intro h
    obtain ⟨id, hid⟩ := exists_fresh db
    exact (hrow id).mp (proper_ask_bind.mp ((proper_ask_bind.mp h).2 id hid)).1
  · intro hgiven
    refine proper_ask_bind.mpr ⟨trivial, ?_⟩
    intro id hid
    refine proper_ask_bind.mpr ⟨(hrow id).mpr hgiven, ?_⟩
    rintro - -
    refine proper_ask_bind.mpr ⟨trivial, ?_⟩
    intro created _
    have hafter : (db.after (.insertRecord (input.row id domainId))).Owned tenantId domainId d :=
      Owned.after hd
    apply (proper_selectDomain hafter).mpr
    obtain ⟨hmem, rfl, htenant⟩ := hd
    have hzone : OwnZone lib tenantId (db.after (.insertRecord (input.row id d.id)))
        d.domainName.text (input.record_name.getD ['@']) := by
      rw [ownZone_getD, ownZone_iff hafter.1, own_iff htenant hmode]
      exact hgiven
    have hnames : Names (input.record_name.getD ['@']) (.create (toRecordInput input.toSync)) := rfl
    refine same_bind (same_sync hafter.1 trivial trivial fun _ s _ =>
      same_applyRecordChange hnames hzone) ?_
      fun _ => trivial
    intro outcome
    cases outcome with
    | published servers => trivial
    | skipped reason => trivial
    | failed errors =>
      refine proper_ask_bind.mpr ⟨?_, fun _ _ => trivial⟩
      exact allowed_deleteRecord_inserted hid ((hrow id).mpr hgiven)

end Creating

/-! ## Changing and deleting -/

section Changing

variable {lib : Builtins} {tenantId domainId recordId : String} {db : DnsDatabase} {d : Domain}
  {record : DnsRecord}

theorem recordOf_eq_some_iff :
    (db.dnsRecords.find? fun r => r.id = recordId && r.domainId = domainId) = some record ↔
      record ∈ db.dnsRecords ∧ record.id = recordId ∧ record.domainId = domainId := by
  rw [find?_iff_of_key (k := recordId) db.recordKeys (by simp +contextual)]
  simp

def Named (db : DnsDatabase) (record : DnsRecord) : Prop :=
  ∀ r ∈ db.dnsRecords, r.id = record.id →
    r.domainId = record.domainId ∧ r.recordName = record.recordName

theorem named_of_mem (h : record ∈ db.dnsRecords) : Named db record := by
  intro r hr hid
  rw [List.inj_on_of_nodup_map db.recordKeys hr h hid]
  exact ⟨rfl, rfl⟩

theorem Named.update (h : Named db record) (id : String) (values : RecordValues) :
    Named (db.after (.updateRecord id values)) record := by
  intro r hr hid
  obtain ⟨r', hr', heq⟩ := List.mem_map.mp hr
  by_cases hsame : r'.id = id
  · rw [if_pos hsame] at heq
    subst heq
    exact h r' hr' hid
  · rw [if_neg hsame] at heq
    subst heq
    exact h r' hr' hid

theorem Named.allowed (h : Named db record) (hown : OwnRow lib tenantId db record) :
    Allowed lib tenantId db (.deleteRecord record.id) := by
  intro r hr hid
  obtain ⟨hdomain, hname⟩ := h r hr hid
  obtain ⟨d, hd, hrow, howns⟩ := hown
  refine ⟨d, hd, hrow.trans hdomain.symm, ?_⟩
  rw [hname]
  exact howns

theorem proper_publishChange (hd : db.Owned tenantId domainId d)
    (hrow : record.domainId = domainId) (hnamed : Named db record)
    (hgiven : Own lib tenantId d (record.recordName.getD [])) {row : DnsRecord}
    (hname : row.recordName = record.recordName) {previous : Option DnsRecordInput}
    (hprevious : ∀ p ∈ previous, p.name = record.recordName.getD ['@']) {withdraw : Bool}
    {updated : Option DnsRecord} :
    Proper lib tenantId (do
      match ← syncRecordToProviders lib d.domainName.text
          (.update (toRecordInput row.toSync) previous withdraw) domainId with
      | .failed errors =>
        updateRecord record.id record.values
        throw (publishFailed "change" errors)
      | _ => return updated) db := by
  obtain ⟨hmem, rfl, htenant⟩ := hd
  have hzone : OwnZone lib tenantId db d.domainName.text (record.recordName.getD ['@']) := by
    rw [ownZone_getD, ownZone_iff hmem]
    exact hgiven
  have hnames : Names (record.recordName.getD ['@'])
      (.update (toRecordInput row.toSync) previous withdraw) :=
    ⟨congrArg (Option.getD · ['@']) hname, hprevious⟩
  refine same_bind (same_sync hmem trivial trivial fun _ s _ => same_applyRecordChange hnames hzone) ?_
    fun _ => trivial
  intro outcome
  cases outcome with
  | published servers => trivial
  | skipped reason => trivial
  | failed errors =>
    refine proper_ask_bind.mpr ⟨?_, fun _ _ => trivial⟩
    exact hnamed.allowed ((ownRow_iff hmem hrow.symm).mpr hgiven)

/-- A publication may fail before it reaches a server. -/
theorem sync_may_fail {zone : Text} {change : RecordChange}
    {Q : DnsDatabase → Except ApiError DnsSyncOutcome → Prop}
    (h : Follows (ownWrites lib tenantId) Q
      (syncRecordToProviders lib zone change domainId).run db) :
    ∃ errors, Q db (.ok (.failed errors)) := by
  unfold syncRecordToProviders at h
  rw [follows_run_tryCatch, follows_ask_bind] at h
  exact ⟨_, h.2.2 (plainError "")⟩

theorem selectRecord_eq (hmem : record ∈ db.dnsRecords) :
    (db.dnsRecords.find? fun r => r.id = record.id) = some record :=
  (find?_iff_of_key (k := record.id) db.recordKeys fun _ => of_decide_eq_true).mpr
    ⟨hmem, by simp⟩

theorem setColumns_named (values : RecordValues) (hd : db.Owned tenantId domainId d)
    (hnamed : Named db record) (hown : OwnRow lib tenantId db record) :
    ∃ db' : DnsDatabase, Named db' record ∧ db'.Owned tenantId domainId d ∧
      ∀ {α : Type} {p : Task α}, Proper lib tenantId p db' →
        Proper lib tenantId (setColumns record.id values >>= fun _ => p) db := by
  unfold setColumns
  by_cases hempty : values.isEmpty = true
  · refine ⟨db, hnamed, hd, ?_⟩
    intro α p hp
    rw [if_pos hempty]
    exact hp
  · refine ⟨_, hnamed.update record.id values, Owned.after hd, ?_⟩
    intro α p hp
    rw [if_neg hempty]
    exact proper_ask_bind.mpr ⟨hnamed.allowed hown, fun _ _ => hp⟩

/-- Whether or not columns are set, an update may write the row. -/
theorem ownRow_of_update {input : UpdateDnsRecordInput} (hd : db.Owned tenantId domainId d)
    (hmem : record ∈ db.dnsRecords) (hdomain : record.domainId = domainId)
    (h : Proper lib tenantId (updateDnsRecordLocked lib domainId record.id input) db) :
    OwnRow lib tenantId db record := by
  unfold updateDnsRecordLocked at h
  have hfound := (proper_ask_bind.mp h).2 (some record)
    (recordOf_eq_some_iff.mpr ⟨hmem, rfl, hdomain⟩).symm
  dsimp only at hfound
  unfold setColumns at hfound
  by_cases hempty : input.values.isEmpty = true
  · rw [if_pos hempty] at hfound
    have hread := (proper_ask_bind.mp (show Proper lib tenantId (ask (.selectRecord record.id) >>= _) db
      from hfound)).2 (some record) (selectRecord_eq hmem).symm
    have hpublish := (proper_selectDomain hd).mp hread
    dsimp only at hpublish
    have hsiblings := (proper_ask_bind.mp hpublish).2 _ rfl
    have hsync := (proper_ask_bind.mp hsiblings).2 _ rfl
    obtain ⟨errors, hfailed⟩ := sync_may_fail (follows_run_bind.mp hsync)
    exact (proper_ask_bind.mp hfailed).1 record hmem rfl
  · rw [if_neg hempty] at hfound
    exact (proper_ask_bind.mp hfound).1 record hmem rfl

theorem proper_lock {α : Type} {p : Task α} :
    Proper lib tenantId (lockDomain domainId >>= fun _ => p) db ↔ Proper lib tenantId p db :=
  proper_ask_bind.trans ⟨fun h => h.2 () trivial, fun h => ⟨trivial, fun _ _ => h⟩⟩

theorem update_iff (input : UpdateDnsRecordInput) :
    ((∀ d, db.Owned tenantId domainId d → d.dnsMode ≠ .secondary) →
      Proper lib tenantId (updateDnsRecord lib tenantId domainId recordId input) db) ↔
      ∀ d, db.Owned tenantId domainId d → d.dnsMode ≠ .secondary →
        ∀ row ∈ db.dnsRecords, row.id = recordId → row.domainId = domainId →
          GivenInZone lib.lowering d.domainName (row.recordName.getD []) := by
  unfold updateDnsRecord
  rw [proper_checked]
  refine forall_congr' fun d => imp_congr_right fun hd => imp_congr_right fun hmode => ?_
  rw [proper_lock]
  constructor
  · rintro h record hmem rfl hdomain
    have hown := ownRow_of_update hd hmem hdomain h
    rw [ownRow_iff hd.1 (hd.2.1.trans hdomain.symm)] at hown
    exact (own_iff hd.2.2 hmode).mp hown
  · intro hgiven
    unfold updateDnsRecordLocked
    refine proper_ask_bind.mpr ⟨trivial, ?_⟩
    intro found hfound
    cases found with
    | none => trivial
    | some record =>
      obtain ⟨hmem, rfl, hdomain⟩ :=
        recordOf_eq_some_iff.mp (show some record = _ from hfound).symm
      have hown : Own lib tenantId d (record.recordName.getD []) :=
        (own_iff hd.2.2 hmode).mpr (hgiven record hmem rfl hdomain)
      obtain ⟨db', hnamed, hd', hset⟩ := setColumns_named input.values hd
        (named_of_mem hmem) ((ownRow_iff hd.1 (hd.2.1.trans hdomain.symm)).mpr hown)
      apply hset
      refine proper_ask_bind.mpr ⟨trivial, ?_⟩
      intro updated hupdated
      apply (proper_selectDomain (Owned.after hd')).mpr
      cases updated with
      | none => trivial
      | some row =>
        have hrow : (db'.dnsRecords.find? fun r => r.id = record.id) = some row :=
          (show some row = _ from hupdated).symm
        have hid : row.id = record.id := by simpa using List.find?_some hrow
        have hname := (hnamed row (List.mem_of_find?_eq_some hrow) hid).2
        refine proper_ask_bind.mpr ⟨trivial, ?_⟩
        intro siblings _
        refine proper_ask_bind.mpr ⟨trivial, ?_⟩
        intro others _
        apply proper_publishChange hd' hdomain hnamed hown hname
        intro p hp
        dsimp only at hp
        split at hp
        · cases hp
        · cases hp
          rfl

theorem withdrawUnshared_succeeds (hd : db.Owned tenantId domainId d)
    {Q : DnsDatabase → Except ApiError Unit → Prop}
    (h : Follows (ownWrites lib tenantId) Q (withdrawUnshared lib domainId record).run db) :
    Q db (.ok ()) := by
  obtain ⟨hmem, rfl, -⟩ := hd
  unfold withdrawUnshared at h
  rw [follows_ask_bind] at h
  have hdomain := h.2.1 (some d) (DnsDatabase.find?_domain hmem).symm
  dsimp only at hdomain
  rw [follows_ask_bind] at hdomain
  obtain ⟨siblings, hanswer⟩ :
      ∃ a, (db.after (.selectDomain d.id)).Answers (.selectRecords d.id) a := ⟨_, rfl⟩
  have hsiblings := hdomain.2.1 siblings hanswer
  by_cases hunshared : record.recordType ≠ [] ∧ record.recordValue.getD [] ≠ [] ∧
      rowsPublishingSameValue lib d.domainName.text record record siblings = []
  · rw [if_pos hunshared, follows_run_bind] at hsiblings
    obtain ⟨outcome, hnot, hdone⟩ := sync_delete_succeeds hmem hsiblings
    cases outcome with
    | failed errors => exact absurd rfl (hnot errors)
    | published servers => exact hdone
    | skipped reason => exact hdone
  · rw [if_neg hunshared] at hsiblings
    exact hsiblings

theorem same_withdrawUnshared (hd : db.Owned tenantId domainId d)
    (hown : Own lib tenantId d (record.recordName.getD [])) :
    Follows (ownWrites lib tenantId) (Same db) (withdrawUnshared lib domainId record).run db := by
  obtain ⟨hmem, rfl, -⟩ := hd
  have hzone : OwnZone lib tenantId db d.domainName.text (record.recordName.getD ['@']) := by
    rw [ownZone_getD, ownZone_iff hmem]
    exact hown
  unfold withdrawUnshared
  rw [follows_ask_bind]
  refine ⟨trivial, ?_, fun _ => rfl⟩
  intro found hfound
  have hdomain : found = some d := hfound.trans (DnsDatabase.find?_domain hmem)
  subst hdomain
  dsimp only
  rw [follows_ask_bind]
  refine ⟨trivial, ?_, fun _ => rfl⟩
  intro siblings _
  by_cases hunshared : record.recordType ≠ [] ∧ record.recordValue.getD [] ≠ [] ∧
      rowsPublishingSameValue lib d.domainName.text record record siblings = []
  · rw [if_pos hunshared]
    have hnames : Names (record.recordName.getD ['@'])
        (.delete (toRecordInput { record.toSync with ttl := none })) := rfl
    refine same_bind (same_sync hmem trivial trivial fun _ s _ =>
      same_applyRecordChange hnames hzone) ?_ fun _ => rfl
    intro outcome
    cases outcome <;> rfl
  · rw [if_neg hunshared]
    rfl

theorem delete_iff : ((∀ d, db.Owned tenantId domainId d → d.dnsMode ≠ .secondary) →
      Proper lib tenantId (deleteDnsRecord lib tenantId domainId recordId) db) ↔
      ∀ d, db.Owned tenantId domainId d → d.dnsMode ≠ .secondary →
        ∀ row ∈ db.dnsRecords, row.id = recordId → row.domainId = domainId →
          GivenInZone lib.lowering d.domainName (row.recordName.getD []) := by
  unfold deleteDnsRecord
  rw [proper_checked]
  refine forall_congr' fun d => imp_congr_right fun hd => imp_congr_right fun hmode => ?_
  rw [proper_lock]
  unfold deleteDnsRecordLocked
  have hrow : ∀ record : DnsRecord, record.domainId = domainId →
      (OwnRow lib tenantId db record ↔ Own lib tenantId d (record.recordName.getD [])) :=
    fun record hdomain => ownRow_iff hd.1 (hd.2.1.trans hdomain.symm)
  constructor
  · rintro h record hmem rfl hdomain
    have hfound := (proper_ask_bind.mp h).2 (some record)
      (recordOf_eq_some_iff.mpr ⟨hmem, rfl, hdomain⟩).symm
    have hdelete := withdrawUnshared_succeeds hd (follows_run_bind.mp hfound)
    have hown : OwnRow lib tenantId db record := (follows_ask.mp hdelete).1 record hmem rfl
    exact (own_iff hd.2.2 hmode).mp ((hrow record hdomain).mp hown)
  · intro hgiven
    refine proper_ask_bind.mpr ⟨trivial, ?_⟩
    intro found hfound
    cases found with
    | none => trivial
    | some record =>
      obtain ⟨hmem, rfl, hdomain⟩ :=
        recordOf_eq_some_iff.mp (show some record = _ from hfound).symm
      have hown : Own lib tenantId d (record.recordName.getD []) :=
        (own_iff hd.2.2 hmode).mpr (hgiven record hmem rfl hdomain)
      refine same_bind (same_withdrawUnshared hd hown) ?_ fun _ => trivial
      intro _
      exact proper_ask.mpr ((named_of_mem hmem).allowed ((hrow record hdomain).mpr hown))

theorem removeLocal_iff : ((∀ d, db.Owned tenantId domainId d → d.dnsMode ≠ .secondary) →
      Proper lib tenantId (removeLocalDnsRecord tenantId domainId recordId) db) ↔
      ∀ d, db.Owned tenantId domainId d → d.dnsMode ≠ .secondary →
        ∀ row ∈ db.dnsRecords, row.id = recordId → row.domainId = domainId →
          GivenInZone lib.lowering d.domainName (row.recordName.getD []) := by
  unfold removeLocalDnsRecord
  rw [proper_checked]
  refine forall_congr' fun d => imp_congr_right fun hd => imp_congr_right fun hmode => ?_
  rw [proper_lock]
  have hallowed : Allowed lib tenantId db (.deleteRecordOf recordId domainId) ↔
      ∀ row ∈ db.dnsRecords, row.id = recordId → row.domainId = domainId →
        GivenInZone lib.lowering d.domainName (row.recordName.getD []) := by
    refine forall_congr' fun row => imp_congr_right fun _ => imp_congr_right fun _ =>
      imp_congr_right fun hdomain => ?_
    rw [ownRow_iff hd.1 (hd.2.1.trans hdomain.symm), own_iff hd.2.2 hmode]
  refine ⟨fun h => hallowed.mp (proper_ask_bind.mp h).1, ?_⟩
  intro h
  refine proper_ask_bind.mpr ⟨hallowed.mpr h, ?_⟩
  intro deleted _
  split <;> trivial

end Changing

/-! ## A server's records -/

section Remote

variable {lib : Builtins} {tenantId domainId : String} {db : DnsDatabase} {d : Domain}

def DnsDatabase.providers (db : DnsDatabase) (domainId : String) : List DnsServer :=
  if (db.activeServersForDomain domainId).isEmpty then db.activeServers
  else db.activeServersForDomain domainId

theorem proper_serversForDomain {α : Type} {f : List DnsServer → Task α} :
    Proper lib tenantId (serversForDomain domainId >>= f) db ↔
      (db.providers domainId ≠ [] → Proper lib tenantId (f (db.providers domainId)) db) := by
  unfold Proper serversForDomain DnsDatabase.providers
  rw [follows_run_bind, follows_read_bind (.activeServersForDomain domainId) _ trivial rfl
    (fun _ => Iff.rfl) fun _ => trivial]
  by_cases hsome : (db.activeServersForDomain domainId).isEmpty = true
  · rw [if_neg (by simpa using hsome), if_pos hsome, follows_read_bind .activeServers _ trivial rfl
      (fun _ => Iff.rfl) fun _ => trivial]
    by_cases hall : db.activeServers.isEmpty = true
    · rw [if_pos hall]
      exact ⟨fun _ h => absurd (List.isEmpty_iff.mp hall) h, fun _ => trivial⟩
    · rw [if_neg hall]
      exact ⟨fun h _ => h, fun h => h fun hnil => hall (List.isEmpty_iff.mpr hnil)⟩
  · rw [if_pos (by simpa using hsome), if_neg hsome]
    exact ⟨fun h _ => h, fun h => h fun hnil => hsome (List.isEmpty_iff.mpr hnil)⟩

theorem insertEach_iff (hd : db.Owned tenantId domainId d) (hmode : d.dnsMode ≠ .secondary)
    (records : List RemoteRecord) : Proper lib tenantId (insertEach domainId records) db ↔
      ∀ r ∈ records, GivenInZone lib.lowering d.domainName r.name := by
  induction records generalizing db with
  | nil => exact ⟨fun _ _ h => (nomatch h), fun _ => trivial⟩
  | cons r rest ih =>
    have hrow : ∀ {db : DnsDatabase} (id : String), db.Owned tenantId domainId d →
        (OwnRow lib tenantId db (r.row id domainId) ↔
          GivenInZone lib.lowering d.domainName r.name) := by
      intro db id hd
      rw [ownRow_iff hd.1 hd.2.1, own_iff hd.2.2 hmode]
      rfl
    rw [List.forall_mem_cons]
    unfold insertEach
    constructor
    · intro h
      obtain ⟨id, hid⟩ := exists_fresh db
      have hinsert := proper_ask_bind.mp ((proper_ask_bind.mp h).2 id hid)
      exact ⟨(hrow id hd).mp hinsert.1, (ih (Owned.after hd)).mp (hinsert.2 () hid)⟩
    · rintro ⟨hfirst, hrest⟩
      refine proper_ask_bind.mpr ⟨trivial, ?_⟩
      intro id hid
      refine proper_ask_bind.mpr ⟨(hrow id hd).mpr hfirst, ?_⟩
      rintro - -
      exact (ih (Owned.after hd)).mpr hrest

theorem sync_iff : ((∀ d, db.Owned tenantId domainId d → d.dnsMode ≠ .secondary) →
      Proper lib tenantId (importRemoteOnlyRecords lib tenantId domainId) db) ↔
      ∀ d, db.Owned tenantId domainId d → d.dnsMode ≠ .secondary →
        ∀ server ∈ (db.providers domainId).head?, ∀ records,
          db.lists server d.domainName.text records →
          ∀ r ∈ remoteRecordsToImport lib d.domainName.text
            (db.dnsRecords.filter fun r => r.domainId = domainId) records,
            GivenInZone lib.lowering d.domainName r.name := by
  unfold importRemoteOnlyRecords
  rw [proper_checked]
  refine forall_congr' fun d => imp_congr_right fun hd => imp_congr_right fun hmode => ?_
  apply (proper_selectDomain hd).trans
  dsimp only
  rw [proper_serversForDomain]
  cases hproviders : db.providers domainId with
  | nil => exact ⟨fun _ _ h => (nomatch h), fun _ h => absurd rfl h⟩
  | cons server servers =>
    have hlisted : ∀ records, Proper lib tenantId (do
          lockDomain domainId
          let rows ← ask (.selectRecords domainId)
          insertEach domainId (remoteRecordsToImport lib d.domainName.text rows records)
          ask (.selectRecords domainId)) db ↔
        ∀ r ∈ remoteRecordsToImport lib d.domainName.text
          (db.dnsRecords.filter fun r => r.domainId = domainId) records,
          GivenInZone lib.lowering d.domainName r.name := by
      intro records
      rw [proper_lock]
      apply (proper_read_one (.selectRecords domainId) _ trivial rfl fun _ => Iff.rfl).trans
      rw [← insertEach_iff hd hmode]
      unfold Proper
      rw [follows_run_bind]
      refine ⟨follows_mono fun _ _ _ => trivial, follows_mono fun db' r _ => ?_⟩
      cases r with
      | ok a => exact proper_ask.mpr trivial
      | error e => trivial
    simp only [List.head?_cons, Option.mem_some_iff, forall_eq']
    simp only [← hlisted]
    constructor
    · intro h records hrecords
      have hlist := follows_run_tryCatch.mp (follows_run_bind.mp (h (List.cons_ne_nil _ _)))
      exact (follows_ask.mp hlist).2.1 records hrecords
    · intro h _
      exact follows_run_bind.mpr (follows_run_tryCatch.mpr
        (follows_ask.mpr ⟨trivial, h, fun _ => trivial⟩))

theorem proper_sync_delete (hd : db.Owned tenantId domainId d) {record : DnsRecordInput}
    {f : DnsSyncOutcome → Task Unit} (hf : ∀ outcome db, Proper lib tenantId (f outcome) db) :
    Proper lib tenantId
        (syncRecordToProviders lib d.domainName.text (.delete record) domainId >>= f) db ↔
      (db.Managed d → ∀ s ∈ db.activeServersForDomain domainId,
        Withdraws lib db s d.domainName.text record → Own lib tenantId d record.name) := by
  obtain ⟨hmem, rfl, -⟩ := hd
  constructor
  · intro h hmanaged s hs hwithdraws
    obtain ⟨Q, hremove⟩ := applyRecordChange_of_sync hmem hmanaged (follows_run_bind.mp h) s hs
    exact (ownZone_iff hmem).mp (ownZone_of_withdraws hwithdraws hremove)
  · intro h
    refine same_bind (same_sync hmem trivial trivial fun hmanaged s hs => ?_)
      (fun outcome => hf outcome db)
      fun _ => trivial
    exact same_removeRecordValue fun hwithdraws =>
      (ownZone_iff hmem).mpr (h hmanaged s hs hwithdraws)

theorem removeRemote_iff (record : SyncRecord) :
    ((∀ d, db.Owned tenantId domainId d → d.dnsMode ≠ .secondary) →
      Proper lib tenantId (removeRemoteDnsRecord lib tenantId domainId record) db) ↔
      ∀ d, db.Owned tenantId domainId d → d.dnsMode ≠ .secondary →
        publishedLocally lib d.domainName.text
          (db.dnsRecords.filter fun r => r.domainId = domainId) record = false →
        db.Managed d → ∀ s ∈ db.activeServersForDomain domainId,
          Withdraws lib db s d.domainName.text (toRecordInput record) →
          GivenInZone lib.lowering d.domainName record.name := by
  unfold removeRemoteDnsRecord
  rw [proper_checked]
  refine forall_congr' fun d => imp_congr_right fun hd => imp_congr_right fun hmode => ?_
  apply (proper_selectDomain hd).trans
  dsimp only
  rw [proper_lock]
  apply (proper_read_one (.selectRecords domainId) _ trivial rfl fun _ => Iff.rfl).trans
  by_cases hlocal : publishedLocally lib d.domainName.text
      (db.dnsRecords.filter fun r => r.domainId = domainId) record = true
  · rw [if_pos hlocal, hlocal]
    exact ⟨fun _ h => (nomatch h), fun _ => trivial⟩
  · rw [if_neg hlocal]
    refine (proper_sync_delete hd ?_).trans ?_
    · intro outcome db
      cases outcome <;> trivial
    · simp only [own_iff hd.2.2 hmode]
      exact ⟨fun h _ => h, fun h => h (by simpa using hlocal)⟩

theorem pull_iff (body : PullDnsRecord) :
    Proper lib tenantId (pullRoute tenantId domainId body) db ↔ ∀ d, db.Owned tenantId domainId d →
        if truthy body.local_id then
          ∀ row ∈ db.dnsRecords, row.id = body.local_id.getD "" → row.domainId = domainId →
            d.dnsMode ≠ .secondary ∧ GivenInZone lib.lowering d.domainName (row.recordName.getD [])
        else d.dnsMode ≠ .secondary ∧ GivenInZone lib.lowering d.domainName body.name := by
  have hown : ∀ {d : Domain} {name : Text}, db.Owned tenantId domainId d →
      (Own lib tenantId d name ↔
        d.dnsMode ≠ .secondary ∧ GivenInZone lib.lowering d.domainName name) := by
    intro d name hd
    refine ⟨fun h => ⟨h.writable, (own_iff hd.2.2 h.writable).mp h⟩, ?_⟩
    rintro ⟨hmode, hgiven⟩
    exact (own_iff hd.2.2 hmode).mpr hgiven
  unfold pullRoute
  by_cases htruthy : truthy body.local_id = true
  · rw [if_pos htruthy]
    simp only [if_pos htruthy]
    apply proper_discard.trans
    unfold updateDnsRecordLocalOnly
    rw [proper_verified]
    refine forall_congr' fun d => imp_congr_right fun hd => ?_
    have hrow : ∀ {row : DnsRecord}, row.domainId = domainId →
        (OwnRow lib tenantId db row ↔ d.dnsMode ≠ .secondary ∧
          GivenInZone lib.lowering d.domainName (row.recordName.getD [])) := by
      intro row hdomain
      rw [ownRow_iff hd.1 (hd.2.1.trans hdomain.symm), hown hd]
    have hset : body.update.values.isEmpty = false := rfl
    constructor
    · intro h row hmem hid hdomain
      have hfound := (proper_ask_bind.mp h).2 (some row)
        (recordOf_eq_some_iff.mpr ⟨hmem, hid, hdomain⟩).symm
      dsimp only at hfound
      unfold setColumns at hfound
      rw [hset, if_neg Bool.false_ne_true] at hfound
      exact (hrow hdomain).mp ((proper_ask_bind.mp hfound).1 row hmem hid)
    · intro h
      refine proper_ask_bind.mpr ⟨trivial, ?_⟩
      intro found hfound
      cases found with
      | none => trivial
      | some row =>
        obtain ⟨hmem, hid, hdomain⟩ :=
          recordOf_eq_some_iff.mp (show some row = _ from hfound).symm
        unfold setColumns
        dsimp only
        rw [hset, if_neg Bool.false_ne_true]
        refine proper_ask_bind.mpr ⟨?_, fun _ _ => proper_ask.mpr trivial⟩
        rw [← hid]
        exact (named_of_mem hmem).allowed ((hrow hdomain).mpr (h row hmem hid hdomain))
  · rw [if_neg htruthy]
    simp only [if_neg htruthy]
    apply proper_discard.trans
    unfold createDnsRecordLocalOnly
    rw [proper_verified]
    refine forall_congr' fun d => imp_congr_right fun hd => ?_
    have hrow : ∀ id, OwnRow lib tenantId db (body.create.row id domainId) ↔
        d.dnsMode ≠ .secondary ∧ GivenInZone lib.lowering d.domainName body.name := by
      intro id
      rw [ownRow_iff hd.1 hd.2.1, hown hd]
      rfl
    constructor
    · intro h
      obtain ⟨id, hid⟩ := exists_fresh db
      exact (hrow id).mp (proper_ask_bind.mp ((proper_ask_bind.mp h).2 id hid)).1
    · intro hgiven
      refine proper_ask_bind.mpr ⟨trivial, ?_⟩
      intro id _
      exact proper_ask_bind.mpr ⟨(hrow id).mpr hgiven, fun _ _ => proper_ask.mpr trivial⟩

theorem push_iff (body : PushDnsRecord) : Proper lib tenantId (pushRoute lib domainId body) db ↔
      ∀ d ∈ db.domains, d.id = domainId → db.Managed d →
        d.tenantId = tenantId ∧ GivenInZone lib.lowering d.domainName body.name := by
  have hnames : Names body.name body.change := by
    unfold PushDnsRecord.change
    cases body.replaces with
    | none => rfl
    | some replaced =>
      refine ⟨rfl, ?_⟩
      intro p hp
      cases hp
      rfl
  have hpublishes : ∀ record, body.change ≠ .delete record := by
    intro record
    unfold PushDnsRecord.change
    cases body.replaces <;> exact fun h => nomatch h
  have hown : ∀ {d : Domain}, db.Managed d → (Own lib tenantId d body.name ↔
      d.tenantId = tenantId ∧ GivenInZone lib.lowering d.domainName body.name) := by
    intro d hmanaged
    have hmode : d.dnsMode ≠ .secondary := by
      rw [(canManageDnsZone_ne_nil hmanaged).1]
      exact fun h => nomatch h
    refine ⟨fun h => ⟨h.tenant, (own_iff h.tenant hmode).mp h⟩, ?_⟩
    rintro ⟨htenant, hgiven⟩
    exact (own_iff htenant hmode).mpr hgiven
  unfold pushRoute
  constructor
  · rintro h d hmem rfl hmanaged
    have hsync := (proper_ask_bind.mp h).2 (some d) (DnsDatabase.find?_domain hmem).symm
    obtain ⟨server, hserver⟩ := List.exists_mem_of_ne_nil _ (canManageDnsZone_ne_nil hmanaged).2
    obtain ⟨Q, happly⟩ :=
      applyRecordChange_of_sync hmem hmanaged (follows_run_bind.mp hsync) server hserver
    exact (hown hmanaged).mp
      ((ownZone_iff hmem).mp (ownZone_of_applyRecordChange hnames hpublishes happly))
  · intro h
    refine proper_ask_bind.mpr ⟨trivial, ?_⟩
    intro found hfound
    cases found with
    | none => trivial
    | some d =>
      obtain ⟨hmem, rfl⟩ :=
        DnsDatabase.find?_eq_some_iff.mp (show some d = _ from hfound).symm
      refine same_bind (same_sync hmem trivial trivial fun hmanaged s _ =>
        same_applyRecordChange hnames ?_) ?_
        fun _ => trivial
      · exact (ownZone_iff hmem).mpr ((hown hmanaged).mpr (h d hmem rfl hmanaged))
      · intro outcome
        cases outcome <;> trivial

end Remote

/-! ## All routes -/

section Requests

variable (lib : Builtins) (tenantId domainId : String) (db : DnsDatabase)

def RowsInZone (recordId : String) (d : Domain) : Prop :=
  ∀ row ∈ db.dnsRecords, row.id = recordId → row.domainId = domainId →
    GivenInZone lib.lowering d.domainName (row.recordName.getD [])

def KeptInZones : DnsRequest → Prop
  | .create input => ∀ d, db.Owned tenantId domainId d → d.dnsMode ≠ .secondary →
      Unreserved lib db tenantId d input.record_name →
      GivenInZone lib.lowering d.domainName (input.record_name.getD [])
  | .update recordId _ => ∀ d, db.Owned tenantId domainId d → d.dnsMode ≠ .secondary →
      RowsInZone lib domainId db recordId d
  | .delete recordId => ∀ d, db.Owned tenantId domainId d → d.dnsMode ≠ .secondary →
      RowsInZone lib domainId db recordId d
  | .removeLocal recordId => ∀ d, db.Owned tenantId domainId d → d.dnsMode ≠ .secondary →
      RowsInZone lib domainId db recordId d
  | .sync => ∀ d, db.Owned tenantId domainId d → d.dnsMode ≠ .secondary →
      ∀ server ∈ (db.providers domainId).head?, ∀ records,
        db.lists server d.domainName.text records →
        ∀ r ∈ remoteRecordsToImport lib d.domainName.text
          (db.dnsRecords.filter fun r => r.domainId = domainId) records,
          GivenInZone lib.lowering d.domainName r.name
  | .removeRemote record => ∀ d, db.Owned tenantId domainId d → d.dnsMode ≠ .secondary →
      publishedLocally lib d.domainName.text
        (db.dnsRecords.filter fun r => r.domainId = domainId) record = false →
      db.Managed d → ∀ s ∈ db.activeServersForDomain domainId,
        Withdraws lib db s d.domainName.text (toRecordInput record) →
        GivenInZone lib.lowering d.domainName record.name
  -- Nothing asks whether a pull or a push may write the zone, or whose zone a push writes.
  | .pull body => ∀ d, db.Owned tenantId domainId d →
      if truthy body.local_id then
        ∀ row ∈ db.dnsRecords, row.id = body.local_id.getD "" → row.domainId = domainId →
          d.dnsMode ≠ .secondary ∧ GivenInZone lib.lowering d.domainName (row.recordName.getD [])
      else d.dnsMode ≠ .secondary ∧ GivenInZone lib.lowering d.domainName body.name
  | .push body => ∀ d ∈ db.domains, d.id = domainId → db.Managed d →
      d.tenantId = tenantId ∧ GivenInZone lib.lowering d.domainName body.name

/-- The routes keep to the zones of the tenant on exactly these requests. -/
theorem routes_proper_iff (request : DnsRequest) :
    Proper lib tenantId (dnsRecordRoutes lib tenantId domainId request) db ↔
      KeptInZones lib tenantId domainId db request := by
  cases request with
  | create input =>
    refine proper_asserted.trans (Iff.trans ?_ (create_iff input))
    exact imp_congr_right fun _ => proper_discard
  | update recordId input =>
    refine proper_asserted.trans (Iff.trans ?_ (update_iff input))
    exact imp_congr_right fun _ => proper_discard
  | delete recordId => exact proper_asserted.trans delete_iff
  | sync =>
    refine proper_asserted.trans (Iff.trans ?_ sync_iff)
    exact imp_congr_right fun _ => proper_discard
  | removeLocal localId => exact proper_asserted.trans removeLocal_iff
  | removeRemote record => exact proper_asserted.trans (removeRemote_iff record)
  | pull body => exact pull_iff body
  | push body => exact push_iff body

end Requests

section OtherTenant

def otherDomain : Domain where
  id := "d2"
  tenantId := "other"
  domainName := exampleZone
  dnsMode := .primary
  dnsGroupId := none

def onlyServer : DnsServer where
  id := "s1"
  displayName := "ns1"
  enabled := true
  role := .primary
  groupId := none
  deletesValues := true

def listsNothing (_ : DnsServer) (_ : Text) (records : List RemoteRecord) : Prop := records = []

theorem listsNothing_some (server : DnsServer) (zone : Text) :
    ∃ records, listsNothing server zone records := ⟨[], rfl⟩

theorem noRows_keys : (([] : List DnsRecord).map DnsRecord.id).Nodup := List.nodup_nil

def otherTenants : DnsDatabase where
  domains := [otherDomain]
  tenants := []
  dnsRecords := []
  servers := [onlyServer]
  groups := []
  reserved := []
  lists := listsNothing
  listsSome := listsNothing_some
  domainKeys := by simp
  domainNames := by simp
  recordKeys := noRows_keys

def pushedAddress : PushDnsRecord where
  type := "A".toList
  name := "www".toList
  value := "203.0.113.1".toList
  ttl := none
  priority := none
  weight := none
  port := none
  replaces := none

/-- A push with the id of another tenant's domain publishes in that domain's zone. -/
theorem push_in_other_zone :
    ¬ Proper asciiBuiltins "acme" (dnsRecordRoutes asciiBuiltins "acme" "d2" (.push pushedAddress))
      otherTenants := by
  intro hproper
  have hkept := (push_iff pushedAddress).mp hproper
  have hmanaged : otherTenants.Managed otherDomain := by
    unfold DnsDatabase.Managed
    decide
  have htenant : otherDomain.tenantId = "acme" := (hkept otherDomain (by simp [otherTenants]) rfl hmanaged).1
  exact absurd htenant (by decide)

end OtherTenant

end Insula.DnsRecords

end
