import Insula.DnsRouteOwnership

/-!
# Reserved hostnames

The guard of `createDnsRecord` builds the name that it judges with rules of its own: it strips final
dots, and puts the zone after every name but the apex. The names for which that is the name that is
published are those for which no database lets a reserved name through.
-/

noncomputable section

namespace Insula.DnsRecords

open Program DnsServers Lowercase
open Javascript (trim)
open scoped Classical

section Names

variable {lib : Builtins} (zone : DomainName)

/-- The apex, or a name that is put under the zone by both rules. -/
def JudgedAsPublished (lc : Lowering) (zone : DomainName) (name : Text) : Prop :=
  trim name = [] ∨ trim name = ['@'] ∨
    ((trim name).getLast? ≠ some '.' ∧ ¬ Qualifies lc zone (trim name))

def publishedFqdn (lib : Builtins) (zone : Text) (recordName : Option Text) : Text :=
  (qualifyName lib.lowering zone (recordName.getD ['@'])).dropLast

theorem getLast?_foldCase_text : (foldCase zone.text).getLast? ≠ some '.' := by
  intro h
  rw [foldCase, List.getLast?_map, Option.map_eq_some_iff] at h
  obtain ⟨c, hc, hlower⟩ := h
  by_cases hdot : c = '.'
  · exact zone.getLast?_text (hdot ▸ hc)
  · exact toLower_ne_plain (by simp) hdot hlower

theorem foldCase_text_ne_at : foldCase zone.text ≠ ['@'] := by
  intro h
  obtain ⟨c, hc, hlower⟩ := List.map_eq_singleton_iff.mp h
  have hat : c = '@' := by
    by_contra hne
    exact toLower_ne_plain (by simp) hne hlower
  have hmem : c.isAlphanum = true ∨ c = '-' ∨ c = '.' := zone.mem_text (by simp [hc])
  rw [hat] at hmem
  revert hmem
  decide

theorem rdropWhile_dots {s : Text} (h : s.getLast? ≠ some '.') : s.rdropWhile (· = '.') = s := by
  rw [List.rdropWhile_eq_self_iff]
  intro hne hlast
  rw [List.getLast?_eq_some_getLast hne] at h
  exact h (congrArg some (by simpa using hlast))

theorem lower_text : lower lib zone.text = foldCase zone.text := by
  unfold lower
  rw [zone.trim_text, rdropWhile_dots zone.getLast?_text,
    lib.lowering.toLowerCase_of_ascii fun _ => zone.isAscii_of_mem]

theorem lower_of_not_dot {name : Text} (h : (trim name).getLast? ≠ some '.') :
    lower lib name = lib.lowering.toLowerCase (trim name) := by
  unfold lower
  rw [rdropWhile_dots h]

/-- The guard's name from the one given. -/
theorem effectiveFqdn_eq (recordName : Option Text) : effectiveFqdn lib zone.text recordName =
      if lower lib (recordName.getD []) = [] ∨ lower lib (recordName.getD []) = ['@'] then
        foldCase zone.text else lower lib (recordName.getD []) ++ '.' :: foldCase zone.text := by
  have hname : (recordName.filter (· ≠ [])).elim [] (lower lib) = lower lib (recordName.getD []) := by
    have hnil : lower lib [] = [] := lib.lowering.toLowerCase_eq_nil.mpr rfl
    cases recordName with
    | none => exact hnil.symm
    | some name =>
      by_cases hempty : name = []
      · rw [Option.filter_some, if_neg (by simpa using hempty), hempty]
        exact hnil.symm
      · rw [Option.filter_some, if_pos (by simpa using hempty)]
        rfl
  unfold effectiveFqdn
  dsimp only
  rw [hname, lower_text]

theorem publishedFqdn_eq (recordName : Option Text) : publishedFqdn lib zone.text recordName =
      (qualifyName lib.lowering zone.text (recordName.getD [])).dropLast := by
  unfold publishedFqdn
  cases recordName with
  | some name => rfl
  | none =>
    change (qualifyName lib.lowering zone.text ['@']).dropLast = _
    rw [← qualifyName_nil]
    rfl

/-- The guard never judges a name with a final dot. -/
theorem getLast?_effectiveFqdn (recordName : Option Text) :
    (effectiveFqdn lib zone.text recordName).getLast? ≠ some '.' := by
  have hlast := getLast?_foldCase_text zone
  rw [effectiveFqdn_eq]
  split
  · exact hlast
  · rw [List.getLast?_append_of_ne_nil _ (List.cons_ne_nil _ _),
      List.getLast?_cons_of_ne_nil zone.foldCase_ne_nil]
    exact hlast

theorem effectiveFqdn_ne_of_absolute {recordName : Option Text}
    (hdot : (trim (recordName.getD [])).getLast? = some '.') :
    effectiveFqdn lib zone.text recordName ≠
      (lib.lowering.toLowerCase (trim (recordName.getD []))).dropLast := by
  obtain ⟨front, hfront⟩ := List.getLast?_eq_some_iff.mp hdot
  rw [hfront, lib.lowering.toLowerCase_dot, List.dropLast_concat]
  intro heq
  have hlast : ¬ front.getLast? = some '.' := by
    rw [← lib.lowering.getLast?_toLowerCase_dot, ← heq]
    exact getLast?_effectiveFqdn zone recordName
  have hlower : lower lib (recordName.getD []) = lib.lowering.toLowerCase front := by
    unfold lower
    rw [hfront, List.rdropWhile_concat_pos _ _ _ (by simp), rdropWhile_dots hlast]
  rw [effectiveFqdn_eq, hlower] at heq
  split at heq
  · rename_i hapex
    rcases hapex with hnil | hat
    · rw [hnil] at heq
      exact zone.foldCase_ne_nil heq
    · rw [hat] at heq
      exact foldCase_text_ne_at zone heq
  · have hlength := congrArg List.length heq
    simp at hlength

theorem effectiveFqdn_eq_publishedFqdn_iff (recordName : Option Text) :
    effectiveFqdn lib zone.text recordName = publishedFqdn lib zone.text recordName ↔
      JudgedAsPublished lib.lowering zone (recordName.getD []) := by
  rw [publishedFqdn_eq, qualifyName_eq]
  unfold JudgedAsPublished Qualifies
  by_cases hapex : trim (recordName.getD []) = [] ∨ trim (recordName.getD []) = ['@']
  · have hdot : (trim (recordName.getD [])).getLast? ≠ some '.' := by
      rcases hapex with h | h
      · rw [h]
        exact fun h => nomatch h
      · rw [h]
        decide
    rw [if_pos hapex, List.dropLast_concat, effectiveFqdn_eq, lower_of_not_dot hdot]
    simp only [lib.lowering.toLowerCase_eq_nil, lib.lowering.toLowerCase_eq_at]
    rw [if_pos hapex, ← or_assoc]
    exact ⟨fun _ => .inl hapex, fun _ => rfl⟩
  · rw [if_neg hapex]
    by_cases hdot : (trim (recordName.getD [])).getLast? = some '.'
    · rw [if_pos hdot, ← or_assoc]
      refine ⟨fun h => absurd h (effectiveFqdn_ne_of_absolute zone hdot), ?_⟩
      rintro (h | h)
      · exact absurd h hapex
      · exact absurd hdot h.1
    · have hzone := List.length_pos_iff.mpr zone.foldCase_ne_nil
      rw [if_neg hdot, effectiveFqdn_eq, lower_of_not_dot hdot]
      simp only [lib.lowering.toLowerCase_eq_nil, lib.lowering.toLowerCase_eq_at]
      rw [if_neg hapex, ← or_assoc]
      by_cases hsame : lib.lowering.toLowerCase (trim (recordName.getD [])) = foldCase zone.text
      · rw [if_pos hsame, List.dropLast_concat, hsame]
        constructor
        · intro heq
          have hlen := congrArg List.length heq
          simp at hlen
        · rintro (h | h)
          · exact absurd h hapex
          · exact absurd (.inl rfl) h.2
      · rw [if_neg hsame]
        by_cases hunder : ('.' :: foldCase zone.text) <:+
            lib.lowering.toLowerCase (trim (recordName.getD []))
        · rw [if_pos hunder, List.dropLast_concat]
          constructor
          · intro heq
            have hlen := congrArg List.length heq
            simp at hlen
          · rintro (h | h)
            · exact absurd h hapex
            · exact absurd (.inr hunder) h.2
        · rw [if_neg hunder, List.dropLast_concat]
          exact ⟨fun _ => .inr ⟨hdot, not_or.mpr ⟨hsame, hunder⟩⟩, fun _ => rfl⟩

end Names

section Creating

variable {lib : Builtins}

def PublishesUnreserved (lib : Builtins) (db : DnsDatabase) : Op → Prop
  | .createUpstream _ zone record =>
    (qualifyName lib.lowering zone record.name).dropLast ∉ db.reserved.map Prod.fst
  | _ => True

/-- Every server call of a new record is under an unreserved name, whatever fails. -/
def KeepsReserved (lib : Builtins) (tenantId domainId : String) (input : CreateDnsRecordInput)
    (db : DnsDatabase) : Prop :=
  Follows (tableWrites (PublishesUnreserved lib)) (fun _ _ => True)
    (createDnsRecord lib tenantId domainId input).run db

variable {tenantId domainId : String} {db : DnsDatabase} {d : Domain} {input : CreateDnsRecordInput}

theorem after_insertRecord_reserved (row : DnsRecord) :
    (db.after (.insertRecord row)).reserved = db.reserved := by
  change (db.insert row).reserved = _
  unfold DnsDatabase.insert
  split <;> rfl

/-- A record that the guard lets pass is published under the name that was given. -/
theorem keepsReserved_of_unreserved
    (h : ∀ d, db.Owned tenantId domainId d → Unreserved lib db tenantId d input.record_name →
      publishedFqdn lib d.domainName.text input.record_name ∉ db.reserved.map Prod.fst) :
    KeepsReserved lib tenantId domainId input db := by
  unfold KeepsReserved createDnsRecord
  rw [follows_verified trivial]
  intro d hd
  rw [follows_unreserved hd trivial trivial trivial]
  intro hpassed
  have hname := h d hd hpassed
  rw [follows_ask_bind]
  refine ⟨trivial, ?_, fun _ => trivial⟩
  intro id _
  refine follows_ask_bind.mpr ⟨trivial, ?_, fun _ => trivial⟩
  rintro - -
  refine follows_ask_bind.mpr ⟨trivial, ?_, fun _ => trivial⟩
  intro created _
  refine follows_ask_bind.mpr ⟨trivial, ?_, fun _ => trivial⟩
  intro found hfound
  have hafter : (db.after (.insertRecord (input.row id domainId))).Owned tenantId domainId d :=
    Owned.after hd
  obtain ⟨hmem, rfl, -⟩ := hafter
  have hdomain : found = some d := hfound.trans (DnsDatabase.find?_domain hmem)
  subst hdomain
  dsimp only
  refine same_bind (same_sync hmem trivial trivial fun _ s _ => same_ask ?_ rfl) ?_ fun _ => trivial
  · change _ ∉ (db.after (.insertRecord (input.row id d.id))).reserved.map Prod.fst
    rw [after_insertRecord_reserved]
    exact hname
  · intro outcome
    cases outcome with
    | published servers => trivial
    | skipped reason => trivial
    | failed errors => exact follows_ask_bind.mpr ⟨trivial, fun _ _ => trivial, fun _ => trivial⟩

/-- On a zone that the platform writes, a record that the guard lets pass is published. -/
theorem unreserved_of_keepsReserved (hd : db.Owned tenantId domainId d) (hmanaged : db.Managed d)
    (hpassed : Unreserved lib db tenantId d input.record_name)
    (h : KeepsReserved lib tenantId domainId input db) :
    publishedFqdn lib d.domainName.text input.record_name ∉ db.reserved.map Prod.fst := by
  unfold KeepsReserved createDnsRecord at h
  rw [follows_verified trivial] at h
  have hchecked := (follows_unreserved hd trivial trivial trivial).mp (h d hd) hpassed
  obtain ⟨id, hid⟩ := exists_fresh db
  have hinsert := (follows_ask_bind.mp hchecked).2.1 id hid
  have hselect := (follows_ask_bind.mp hinsert).2.1 () hid
  have hcreated := (follows_ask_bind.mp hselect).2.1 _ rfl
  have hafter : (db.after (.insertRecord (input.row id domainId))).Owned tenantId domainId d :=
    Owned.after hd
  obtain ⟨hmem, rfl, -⟩ := hafter
  have hsync := (follows_ask_bind.mp hcreated).2.1 (some d) (DnsDatabase.find?_domain hmem).symm
  have hafter : (db.after (.insertRecord (input.row id d.id))).Managed d := by
    unfold DnsDatabase.Managed
    rw [DnsDatabase.activeServersForDomain_after]
    exact hmanaged
  obtain ⟨server, hserver⟩ := List.exists_mem_of_ne_nil _ (canManageDnsZone_ne_nil hafter).2
  obtain ⟨Q, happly⟩ :=
    applyRecordChange_of_sync hmem hafter (follows_run_bind.mp hsync) server hserver
  have hcall : _ ∉ (db.after (.insertRecord (input.row id d.id))).reserved.map Prod.fst :=
    (follows_ask.mp happly).1
  rw [after_insertRecord_reserved] at hcall
  exact hcall

end Creating

section Zones

variable (zone : DomainName)

def zoneDomain : Domain where
  id := "d1"
  tenantId := "acme"
  domainName := zone
  dnsMode := .primary
  dnsGroupId := none

def reservingTables (reserved : Text) : DnsDatabase where
  domains := [zoneDomain zone]
  tenants := [{ id := "acme", isSystem := false }]
  dnsRecords := []
  servers := [onlyServer]
  groups := []
  reserved := [(reserved, "the platform")]
  lists := listsNothing
  listsSome := listsNothing_some
  domainKeys := List.nodup_singleton _
  domainNames := List.nodup_singleton _
  recordKeys := noRows_keys

theorem reservingTables_owned (reserved : Text) :
    (reservingTables zone reserved).Owned "acme" "d1" (zoneDomain zone) :=
  ⟨List.mem_singleton_self _, rfl, rfl⟩

theorem reservingTables_managed (reserved : Text) :
    (reservingTables zone reserved).Managed (zoneDomain zone) := by
  unfold DnsDatabase.Managed DnsDatabase.activeServersForDomain
  simp [reservingTables, zoneDomain, DnsDatabase.activeServers, onlyServer, canManageDnsZone]

def NotSystem (db : DnsDatabase) (tenantId : String) : Prop :=
  ∀ t ∈ db.tenants, t.id = tenantId → t.isSystem = false

/-- No reserved name is published in a zone by a tenant, whatever is reserved, exactly for the names
that the guard judges as they are published. -/
theorem keepsReserved_iff (lib : Builtins) (input : CreateDnsRecordInput) :
    (∀ db tenantId domainId, NotSystem db tenantId →
        (∀ d, db.Owned tenantId domainId d → d.domainName = zone) →
        KeepsReserved lib tenantId domainId input db) ↔
      JudgedAsPublished lib.lowering zone (input.record_name.getD []) := by
  rw [← effectiveFqdn_eq_publishedFqdn_iff]
  constructor
  · intro h
    by_contra hne
    have hkept := h (reservingTables zone (publishedFqdn lib zone.text input.record_name)) "acme" "d1"
      (by simp [NotSystem, reservingTables]) (by
        rintro d ⟨hmem, -, -⟩
        rw [List.mem_singleton.mp hmem]
        rfl)
    have hnot := unreserved_of_keepsReserved (reservingTables_owned zone _)
      (reservingTables_managed zone _) (.inr (by simpa [reservingTables, zoneDomain] using hne)) hkept
    exact hnot (by simp [reservingTables, zoneDomain])
  · intro heq db tenantId domainId hsystem hzone
    apply keepsReserved_of_unreserved
    intro d hd hpassed
    rw [hzone d hd, ← heq]
    rcases hpassed with ⟨t, ht, hsys⟩ | hnot
    · have hid : t.id = tenantId := by simpa using List.find?_some ht
      rw [hsystem t (List.mem_of_find?_eq_some ht) hid] at hsys
      cases hsys
    · rw [hzone d hd] at hnot
      exact hnot

def adminRecord : CreateDnsRecordInput where
  record_type := "A".toList
  record_name := some "admin.example.test".toList
  record_value := "203.0.113.1".toList
  ttl := 3600
  priority := none
  weight := none
  port := none

/-- The guard judges `admin.example.test.example.test`, and `admin.example.test` is published. -/
theorem admin_published :
    NotSystem (reservingTables exampleZone "admin.example.test".toList) "acme" ∧
      ¬ KeepsReserved asciiBuiltins "acme" "d1" adminRecord
        (reservingTables exampleZone "admin.example.test".toList) := by
  refine ⟨by simp [NotSystem, reservingTables], ?_⟩
  intro hkept
  have hjudged : effectiveFqdn asciiBuiltins exampleZone.text adminRecord.record_name ≠
      "admin.example.test".toList := by decide
  have hname : publishedFqdn asciiBuiltins exampleZone.text adminRecord.record_name =
      "admin.example.test".toList := by rfl
  have hnot := unreserved_of_keepsReserved (reservingTables_owned exampleZone _)
    (reservingTables_managed exampleZone _)
    (.inr (by simpa [reservingTables, zoneDomain] using hjudged)) hkept
  exact hnot (by simp [reservingTables, zoneDomain, hname])

end Zones

end Insula.DnsRecords

end
