import Insula.DnsRecords
import Mathlib.Data.List.Nodup

/-!
# Removing a value from a server that lists it in parts

Some servers keep the target of a record as its content and the numbers beside it, and their listing
gives the preference only, of no more records than fit a page. A value is removed there by looking
for the listed record that spells it, and deleting that by its id.
-/

namespace Insula.DnsRecords

open Program (runAlone)
open DnsServers Javascript

/-! ## Content in parts -/

structure SplitRecordContent where
  content : Text
  priority : Option ℕ
  weight : Option ℕ
  port : Option ℕ
  deriving DecidableEq

def mxSplitError : String :=
  "MX records require a priority (preference) — it is a distinct field, not part of the hostname."

def srvSplitError : String := "SRV records require priority, weight and port."

section Functions

variable (lib : Builtins)

def splitContent (input : DnsRecordInput) : Except String SplitRecordContent :=
  let type := lib.toUpperCase input.type
  let raw := trim input.content
  if type = "MX".toList then
    if hasNumericPrefix raw 1 then
      match splitSpaces raw with
      | [pref, target] => .ok ⟨fqdn target, some (number pref), none, none⟩
      | _ => .error mxSplitError
    else
      match input.priority with
      | none => .error mxSplitError
      | some priority => .ok ⟨fqdn raw, some priority, none, none⟩
  else if type = "SRV".toList then
    if hasNumericPrefix raw 3 then
      match splitSpaces raw with
      | [prio, weight, port, target] =>
        .ok ⟨fqdn target, some (number prio), some (number weight), some (number port)⟩
      | _ => .error srvSplitError
    else
      match input.priority, input.weight, input.port with
      | some priority, some weight, some port =>
        .ok ⟨fqdn raw, some priority, some weight, some port⟩
      | _, _, _ => .error srvSplitError
  else if type = "TXT".toList ∨ type = "SPF".toList then
    -- `slice(1, -1)`.
    .ok ⟨if quoted raw then (raw.drop 1).dropLast else raw, none, none, none⟩
  else if type ∈ hostnameContentTypes then .ok ⟨fqdn raw, none, none, none⟩
  else .ok ⟨raw, none, none, none⟩

/-- What a record in parts says: hosts without case, an address however it is written. -/
def splitValue (type : Text) (c : SplitRecordContent) : SplitRecordContent :=
  if type = "MX".toList ∨ type = "SRV".toList ∨ type ∈ hostnameContentTypes then
    { c with content := lib.lowering.toLowerCase c.content }
  else if type = "AAAA".toList then
    { c with content := (lib.urlHostname c.content).getD (lib.lowering.toLowerCase c.content) }
  else c

end Functions

/-- A record that `createRecord` has sent to a server. -/
structure Published (lib : Builtins) where
  record : DnsRecordInput
  parts : SplitRecordContent
  splits : splitContent lib record = .ok parts

/-! ## The server -/

structure StoredRecord where
  id : Text
  type : Text
  name : Text
  ttl : ℕ
  parts : SplitRecordContent
  deriving DecidableEq

def StoredRecord.listed (r : StoredRecord) : RemoteRecord where
  id := r.id
  type := r.type
  name := r.name
  content := r.parts.content
  ttl := r.ttl
  priority := r.parts.priority

inductive SplitProvider
  | cloudflare
  | cloudns
  deriving DecidableEq

def SplitProvider.page (p : SplitProvider) (records : List StoredRecord) : List StoredRecord :=
  match p with
  | .cloudflare => records.take 100
  | .cloudns => records

structure Upstream where
  provider : SplitProvider
  records : List StoredRecord
  ids : (records.map StoredRecord.id).Nodup
  calls : ℕ
  fails : ℕ → Option ApiError

namespace Upstream

variable (w : Upstream)

def listing : List StoredRecord := w.provider.page w.records

def deleteId (id : Text) : Upstream :=
  { w with
    records := w.records.filter (·.id ≠ id)
    ids := w.ids.sublist (List.filter_sublist.map _)
    calls := w.calls + 1 }

def respond (w : Upstream) : (o : Op) → Except ApiError (Val o) × Upstream
  | .listUpstream _ _ =>
    match w.fails w.calls with
    | some err => (.error err, { w with calls := w.calls + 1 })
    | none => (.ok (w.listing.map StoredRecord.listed), { w with calls := w.calls + 1 })
  | .deleteUpstream _ _ hit =>
    match w.fails w.calls with
    | some err => (.error err, { w with calls := w.calls + 1 })
    | none => (.ok (), w.deleteId hit.id)
  | _ => (.error (plainError "no call of a removal"), w)

end Upstream

/-! ## What a removal removes -/

section Removal

variable (lib : Builtins) (server : DnsServer) (zone : Text) (value : Published lib)
variable (record : DnsRecordInput)

def Holds (r : StoredRecord) : Prop :=
  lib.toUpperCase r.type = lib.toUpperCase value.record.type ∧
    qualifyName lib.lowering zone r.name = qualifyName lib.lowering zone value.record.name ∧
    splitValue lib (lib.toUpperCase value.record.type) r.parts =
      splitValue lib (lib.toUpperCase value.record.type) value.parts

instance (r : StoredRecord) : Decidable (Holds lib zone value r) :=
  inferInstanceAs (Decidable (_ ∧ _ ∧ _))

def spells (r : StoredRecord) : Bool :=
  match canonicalContent lib record with
  | .error _ => false
  | .ok wanted =>
    lib.toUpperCase r.type = lib.toUpperCase record.type &&
      qualifyName lib.lowering zone r.name = qualifyName lib.lowering zone record.name &&
      match canonicalContent lib { bareRecord (lib.toUpperCase record.type) r.name r.parts.content with
          priority := r.parts.priority } with
      | .ok content => content = wanted
      | .error _ => false

def Removable (w : Upstream) : Prop :=
  ((∀ r ∈ w.records, ¬ Holds lib zone value r) ∧
      ∀ r ∈ w.listing, spells lib zone value.record r = false) ∨
    ∃ before held after, w.listing = before ++ held :: after ∧
      (∀ r ∈ before, spells lib zone value.record r = false) ∧
      spells lib zone value.record held = true ∧
      Holds lib zone value held ∧
      ∀ r ∈ w.records, Holds lib zone value r → r = held

def Removed (w w' : Upstream) : Prop :=
  ∀ r, r ∈ w'.records ↔ r ∈ w.records ∧ ¬ Holds lib zone value r

variable {lib server zone value record} {w w' : Upstream}

theorem listedValue_listing {wanted : Text} (hwanted : canonicalContent lib record = .ok wanted) :
    listedValue lib zone (lib.toUpperCase record.type) (qualifyName lib.lowering zone record.name)
        wanted (w.listing.map StoredRecord.listed) =
      (w.listing.find? (spells lib zone record)).map StoredRecord.listed := by
  rw [listedValue, List.find?_map]
  congr 2
  funext r
  rw [spells, hwanted]
  rfl

theorem Upstream.mem_of_listing {r : StoredRecord} (h : r ∈ w.listing) : r ∈ w.records := by
  unfold Upstream.listing SplitProvider.page at h
  split at h
  · exact List.mem_of_mem_take h
  · exact h

theorem run_removeRecordValue (hserver : server.deletesValues = false)
    (hrun : runAlone Upstream.respond (removeRecordValue lib server zone record).run w = (.ok (), w')) :
    (w.listing.find? (spells lib zone record) = none ∧ w'.records = w.records) ∨
      ∃ hit, w.listing.find? (spells lib zone record) = some hit ∧
        w'.records = w.records.filter (·.id ≠ hit.id) := by
  unfold removeRecordValue at hrun
  cases hcanonical : canonicalContent lib record with
  | error e =>
    rw [hcanonical] at hrun
    left
    have hw : w = w' := congrArg Prod.snd hrun
    refine ⟨List.find?_eq_none.mpr fun r _ => ?_, by rw [hw]⟩
    simp [spells, hcanonical]
  | ok wanted =>
    simp only [hcanonical, hserver, Bool.false_eq_true, ↓reduceIte] at hrun
    rw [Program.runAlone_request_bind, Upstream.respond] at hrun
    cases hfails : w.fails w.calls with
    | some err =>
      simp only [hfails] at hrun
      cases congrArg Prod.fst hrun
    | none =>
      simp only [hfails, listedValue_listing hcanonical] at hrun
      cases hfind : w.listing.find? (spells lib zone record) with
      | none =>
        simp only [hfind, Option.map_none] at hrun
        exact .inl ⟨rfl, (congrArg Upstream.records (congrArg Prod.snd hrun)).symm⟩
      | some hit =>
        simp only [hfind, Option.map_some] at hrun
        refine .inr ⟨hit, rfl, ?_⟩
        change Upstream.respond { w with calls := w.calls + 1 }
          (.deleteUpstream server zone hit.listed) =
          _ at hrun
        unfold Upstream.respond at hrun
        cases hagain : w.fails (w.calls + 1) with
        | some err =>
          simp only [hagain] at hrun
          cases congrArg Prod.fst hrun
        | none =>
          simp only [hagain] at hrun
          exact (congrArg Upstream.records (congrArg Prod.snd hrun)).symm

/-- A removal that returns removes the value, and nothing else, exactly when the value is
removable. -/
theorem removeRecordValue_removes_iff (hserver : server.deletesValues = false)
    (hrun : runAlone Upstream.respond (removeRecordValue lib server zone value.record).run w =
      (.ok (), w')) :
    Removed lib zone value w w' ↔ Removable lib zone value w := by
  rcases run_removeRecordValue hserver hrun with ⟨hnone, hrecords⟩ | ⟨hit, hhit, hrecords⟩
  · rw [List.find?_eq_none] at hnone
    unfold Removed Removable
    rw [hrecords]
    constructor
    · intro h
      refine .inl ⟨fun r hr => ((h r).mp hr).2, fun r hr => ?_⟩
      simpa using hnone r hr
    · rintro (⟨h, -⟩ | ⟨before, held, after, hlist, -, hspells, -⟩)
      · exact fun r => ⟨fun hr => ⟨hr, h r hr⟩, And.left⟩
      · exact absurd hspells (hnone held (by rw [hlist]; simp))
  · have hmem : hit ∈ w.records := w.mem_of_listing (List.mem_of_find?_eq_some hhit)
    have hid : ∀ r ∈ w.records, r.id = hit.id → r = hit := fun r hr heq =>
      List.inj_on_of_nodup_map w.ids hr hmem heq
    have hremoved : Removed lib zone value w w' ↔
        Holds lib zone value hit ∧ ∀ r ∈ w.records, Holds lib zone value r → r = hit := by
      unfold Removed
      rw [hrecords]
      simp only [List.mem_filter, decide_eq_true_eq]
      constructor
      · intro h
        have hkept : ∀ r ∈ w.records, Holds lib zone value r → r = hit := by
          intro r hr hholds
          by_contra hne
          exact ((h r).mp ⟨hr, fun heq => hne (hid r hr heq)⟩).2 hholds
        refine ⟨?_, hkept⟩
        by_contra hnot
        exact ((h hit).mpr ⟨hmem, hnot⟩).2 rfl
      · rintro ⟨hholds, honly⟩ r
        refine and_congr_right fun hr => not_congr ⟨fun heq => ?_, fun h => by rw [honly r hr h]⟩
        rw [hid r hr heq]
        exact hholds
    rw [hremoved]
    obtain ⟨hspells, before, after, hlist, hbefore⟩ := List.find?_eq_some_iff_append.mp hhit
    constructor
    · rintro ⟨hholds, honly⟩
      exact .inr ⟨before, hit, after, hlist, by simpa using hbefore, hspells, hholds, honly⟩
    · rintro (⟨-, h⟩ | ⟨before', held, after', hlist', hbefore', hspells', hholds, honly⟩)
      · rw [h hit (by rw [hlist]; simp)] at hspells
        cases hspells
      · have hheld : w.listing.find? (spells lib zone value.record) = some held :=
          List.find?_eq_some_iff_append.mpr ⟨hspells', before', after', hlist', by simpa using hbefore'⟩
        rw [hhit, Option.some.injEq] at hheld
        subst hheld
        exact ⟨hholds, honly⟩

/-! ### Service records -/

theorem canonicalContent_srv {input : DnsRecordInput} (htype : lib.toUpperCase input.type = "SRV".toList)
    (hbare : hasNumericPrefix (trim input.content) 3 = false) (hweight : input.weight = none) :
    canonicalContent lib input = .error srvError := by
  have hmx : ¬ "SRV".toList = "MX".toList := by decide
  rw [canonicalContent_error_iff]
  simp only [formatContent, htype, if_neg hmx, ↓reduceIte, hbare, Bool.false_eq_true, hweight]
  split <;> simp_all

/-- A listing that gives the target and the preference of a service record spells no value. -/
theorem spells_srv (hupper : lib.toUpperCase "SRV".toList = "SRV".toList)
    (hsrv : lib.toUpperCase record.type = "SRV".toList) {r : StoredRecord}
    (hbare : hasNumericPrefix (trim r.parts.content) 3 = false) : spells lib zone record r = false := by
  have herror : canonicalContent lib
      { bareRecord (lib.toUpperCase record.type) r.name r.parts.content with
        priority := r.parts.priority } = .error srvError := by
    refine canonicalContent_srv ?_ hbare rfl
    change lib.toUpperCase (lib.toUpperCase record.type) = _
    rw [hsrv, hupper]
  unfold spells
  split
  · rfl
  · rw [herror]
    simp

/-- A service record that is listed by its bare target is never removable. -/
theorem not_removable_srv (hupper : lib.toUpperCase "SRV".toList = "SRV".toList)
    (hsrv : lib.toUpperCase value.record.type = "SRV".toList)
    (hbare : ∀ r ∈ w.records, hasNumericPrefix (trim r.parts.content) 3 = false) {held : StoredRecord}
    (hmem : held ∈ w.records) (hheld : Holds lib zone value held) : ¬ Removable lib zone value w := by
  rintro (⟨hnone, -⟩ | ⟨before, hit, after, hlist, -, hspells, -⟩)
  · exact hnone held hmem hheld
  · have hhit : hit ∈ w.records := w.mem_of_listing (by rw [hlist]; simp)
    rw [spells_srv hupper hsrv (hbare hit hhit)] at hspells
    cases hspells

end Removal

/-! ### A mail host and a service at Cloudflare -/

def exampleZone : Text := "example.test".toList

def mailInput : DnsRecordInput :=
  { bareRecord "MX".toList ['@'] "mail.example.test".toList with priority := some 10 }

def sipInput : DnsRecordInput :=
  { bareRecord "SRV".toList "_sip._tcp".toList "sip.example.test".toList with
    priority := some 10, weight := some 5, port := some 5060 }

def mailValue : Published asciiBuiltins where
  record := mailInput
  parts := ⟨"mail.example.test.".toList, some 10, none, none⟩
  splits := by rfl

def sipValue : Published asciiBuiltins where
  record := sipInput
  parts := ⟨"sip.example.test.".toList, some 10, some 5, some 5060⟩
  splits := by rfl

def mailStored : StoredRecord := ⟨['1'], "MX".toList, "example.test.".toList, 1, mailValue.parts⟩

def sipStored : StoredRecord := ⟨['2'], "SRV".toList, "_sip._tcp.example.test.".toList, 1, sipValue.parts⟩

def cloudflareZone : Upstream where
  provider := .cloudflare
  records := [mailStored, sipStored]
  ids := by decide
  calls := 0
  fails _ := none

def cloudflareServer : DnsServer where
  id := "cloudflare"
  displayName := "Cloudflare"
  enabled := true
  role := .primary
  groupId := none
  deletesValues := false

def removal (value : Published asciiBuiltins) : Except ApiError Unit × Upstream :=
  runAlone Upstream.respond (removeRecordValue asciiBuiltins cloudflareServer exampleZone
    value.record).run
    cloudflareZone

theorem mail_is_removed : Removed asciiBuiltins exampleZone mailValue cloudflareZone
    (removal mailValue).2 := by
  refine (removeRecordValue_removes_iff rfl (Prod.ext (by rfl) rfl)).mpr
    (.inr ⟨[], mailStored, [sipStored], rfl, fun _ h => absurd h List.not_mem_nil, ?_, ?_, ?_⟩)
  · decide
  · decide
  · decide

theorem service_stays :
    ¬ ∀ (lib : Builtins) (server : DnsServer) (zone : Text) (value : Published lib) (w w' : Upstream),
      server.deletesValues = false →
        runAlone Upstream.respond (removeRecordValue lib server zone value.record).run w =
        (.ok (), w') →
          Removed lib zone value w w' := by
  intro h
  have hremoved := h asciiBuiltins cloudflareServer exampleZone sipValue cloudflareZone
    (removal sipValue).2 rfl (Prod.ext (by rfl) rfl)
  have hholds : Holds asciiBuiltins exampleZone sipValue sipStored := by decide
  have hstill : sipStored ∈ (removal sipValue).2.records := by decide
  exact ((hremoved sipStored).mp hstill).2 hholds

end Insula.DnsRecords
