import Insula.WireFormat

/-!
# Writes to PowerDNS

`powerdns.ts`: PowerDNS keeps the records of a name and type in one set that can only be replaced
whole, so adding a value and removing one read the zone and write a set back. Names and types are
compared without case. A request to write that fails has had no effect on the zone, or all of it.
-/

namespace Insula.DnsServers

open Lowercase

structure StoredRecord where
  content : Text
  disabled : Bool
  deriving DecidableEq

structure RRSet where
  name : Text
  type : Text
  ttl : ℕ
  records : List StoredRecord
  deriving DecidableEq

def setKey (lib : Builtins) (name type : Text) : Text × Text :=
  (lib.lowering.toLowerCase name, lib.toUpperCase type)

def RRSet.key (lib : Builtins) (set : RRSet) : Text × Text := setKey lib set.name set.type

structure PdnsZone (lib : Builtins) where
  rrsets : List RRSet
  keys : (rrsets.map (RRSet.key lib)).Nodup
  nonempty : ∀ set ∈ rrsets, set.records ≠ []

inductive GetOutcome
  | zone
  | notFound
  | failed
  deriving DecidableEq

inductive PatchOutcome
  | ok
  | refused
  | lost
  deriving DecidableEq

inductive WriteError
  | content (message : String)
  | request

section Functions

variable {lib : Builtins}

namespace PdnsZone

variable (zone : PdnsZone lib)

def setAt (key : Text × Text) : Option RRSet := zone.rrsets.find? fun set => set.key lib = key

def delete (key : Text × Text) : PdnsZone lib where
  rrsets := zone.rrsets.filter fun set => set.key lib ≠ key
  keys := zone.keys.sublist (List.filter_sublist.map _)
  nonempty set hset := zone.nonempty set (List.mem_of_mem_filter hset)

def replace (set : RRSet) (hset : set.records ≠ []) : PdnsZone lib where
  rrsets := set :: (zone.delete (set.key lib)).rrsets
  keys := by
    rw [List.map_cons, List.nodup_cons]
    refine ⟨?_, (zone.delete (set.key lib)).keys⟩
    intro hmem
    obtain ⟨other, hother, hkey⟩ := List.mem_map.mp hmem
    have hne := List.of_mem_filter hother
    simp [hkey] at hne
  nonempty := by
    intro other hother
    rcases List.mem_cons.mp hother with rfl | hother
    · exact hset
    · exact (zone.delete (set.key lib)).nonempty other hother

end PdnsZone

variable (lib)

def sameValue (input : DnsRecordInput) (recordName canonical : Text) (r : StoredRecord) : Bool :=
  sameStoredValue lib input.type recordName r.content canonical

def findRrset (zone : PdnsZone lib) (recordName type : Text) : Option RRSet :=
  zone.setAt (setKey lib recordName type)

def existingRecords (zone : PdnsZone lib) (recordName type : Text) (get : GetOutcome) :
    List StoredRecord :=
  match get with
  | .zone => ((findRrset lib zone recordName type).elim [] RRSet.records).filter (! ·.disabled)
  -- The zone might not exist yet.
  | _ => []

/-- The records of the set after `createRecord`. -/
def recordsToWrite (zone : PdnsZone lib) (input : DnsRecordInput) (recordName content canonical : Text)
    (get : GetOutcome) : List StoredRecord :=
  let existing := existingRecords lib zone recordName input.type get
  if existing.any (sameValue lib input recordName canonical) then existing
  else existing ++ [{ content := content, disabled := false }]

theorem recordsToWrite_ne_nil (zone : PdnsZone lib) (input : DnsRecordInput)
    (recordName content canonical : Text) (get : GetOutcome) :
    recordsToWrite lib zone input recordName content canonical get ≠ [] := by
  unfold recordsToWrite
  dsimp only
  split
  · rename_i hany
    intro hnil
    rw [hnil] at hany
    cases hany
  · exact List.append_ne_nil_of_right_ne_nil _ (List.cons_ne_nil _ _)

def PatchOutcome.result {lib : Builtins} (before after : PdnsZone lib) :
    PatchOutcome → Except WriteError Unit × PdnsZone lib
  | ok => (.ok (), after)
  | refused => (.error .request, before)
  | lost => (.error .request, after)

def createRecord (zoneName : Text) (zone : PdnsZone lib) (input : DnsRecordInput) (get : GetOutcome)
    (patch : PatchOutcome) : Except WriteError Unit × PdnsZone lib :=
  let recordName := qualifyName lib.lowering zoneName input.name
  match formatContent lib input, canonicalContent lib input with
  | .error e, _ => (.error (.content e), zone)
  | .ok _, .error e => (.error (.content e), zone)
  | .ok content, .ok canonical =>
    let set : RRSet :=
      { name := recordName
        type := input.type
        ttl := input.ttl.getD 3600
        records := recordsToWrite lib zone input recordName content canonical get }
    patch.result zone
      (zone.replace set (recordsToWrite_ne_nil lib zone input recordName content canonical get))

def deleteRecordValue (zoneName : Text) (zone : PdnsZone lib) (input : DnsRecordInput)
    (get : GetOutcome) (patch : PatchOutcome) : Except WriteError Unit × PdnsZone lib :=
  let recordName := qualifyName lib.lowering zoneName input.name
  match canonicalContent lib input with
  | .error e => (.error (.content e), zone)
  | .ok canonical =>
    match get with
    | .notFound => (.ok (), zone)
    | .failed => (.error .request, zone)
    | .zone =>
      match findRrset lib zone recordName input.type with
      | none => (.ok (), zone)
      | some set =>
        let remaining := set.records.filter fun r => ! sameValue lib input recordName canonical r
        if remaining.length = set.records.length then (.ok (), zone)
        else if h : remaining ≠ [] then
          let kept : RRSet :=
            { name := recordName
              type := input.type
              ttl := set.ttl
              records := remaining }
          patch.result zone (zone.replace kept h)
        else patch.result zone (zone.delete (setKey lib recordName input.type))

/-! ## What a write is to leave -/

def OthersKept (before after : PdnsZone lib) (key : Text × Text) : Prop :=
  ∀ other, other ≠ key → after.setAt other = before.setAt other

def PdnsZone.recordsAt {lib : Builtins} (zone : PdnsZone lib) (key : Text × Text) :
    List StoredRecord :=
  (zone.setAt key).elim [] RRSet.records

/-- The set of a key has the TTL, holds what it held and beside it at most the new value, and holds
that once. -/
structure ValueAdded (before after : PdnsZone lib) (key : Text × Text) (ttl : ℕ)
    (carries : StoredRecord → Bool) : Prop where
  others : OthersKept lib before after key
  set : ∃ set, after.setAt key = some set ∧ set.ttl = ttl
  records : ∃ extra, (after.recordsAt key).Perm (before.recordsAt key ++ extra) ∧
    ∀ r ∈ extra, carries r = true
  once : ((after.recordsAt key).filter carries).length = 1

/-- The set of a key keeps its TTL and its records but for those of the value. -/
structure ValueRemoved (before after : PdnsZone lib) (key : Text × Text)
    (carries : StoredRecord → Bool) : Prop where
  others : OthersKept lib before after key
  ttl : ∀ set ∈ after.setAt key, ∃ old ∈ before.setAt key, set.ttl = old.ttl
  records : after.recordsAt key = (before.recordsAt key).filter fun r => ! carries r

/-- Two zones hold the same, whatever the order of their sets and of the records in a set. -/
def Unchanged (before after : PdnsZone lib) : Prop :=
  ∀ key, (after.setAt key).map RRSet.ttl = (before.setAt key).map RRSet.ttl ∧
    (after.recordsAt key).Perm (before.recordsAt key)

variable (zoneName : Text) (zone : PdnsZone lib) (input : DnsRecordInput) (get : GetOutcome)
  (patch : PatchOutcome)

def inputKey : Text × Text :=
  setKey lib (qualifyName lib.lowering zoneName input.name) input.type

def carries (r : StoredRecord) : Bool :=
  match canonicalContent lib input with
  | .ok canonical => sameValue lib input (qualifyName lib.lowering zoneName input.name) canonical r
  | .error _ => false

def CreateProper : Prop :=
  match createRecord lib zoneName zone input get patch with
  | (.ok _, after) => ValueAdded lib zone after (inputKey lib zoneName input) (input.ttl.getD 3600)
      (carries lib zoneName input)
  | (.error _, after) => Unchanged lib zone after

def DeleteProper : Prop :=
  match deleteRecordValue lib zoneName zone input get patch with
  | (.ok _, after) =>
    ValueRemoved lib zone after (inputKey lib zoneName input) (carries lib zoneName input)
  | (.error _, after) => Unchanged lib zone after

/-- A write goes wrong neither through what was read nor through what was not; one that takes effect
and throws writes what the zone holds. -/
def CreateKept : Prop :=
  ∀ content, formatContent lib input = .ok content →
    let key := inputKey lib zoneName input
    let old := zone.recordsAt key
    let new : StoredRecord := { content := content, disabled := false }
    match patch, get with
    | .refused, _ => True
    | .ok, .zone => (∀ r ∈ old, r.disabled = false) ∧
        ((old.filter (carries lib zoneName input)).length = 1 ∨
          (old.filter (carries lib zoneName input)).length = 0 ∧ carries lib zoneName input new = true)
    | .ok, _ => carries lib zoneName input new = true ∧ (old = [] ∨ old = [new])
    | .lost, .zone => (zone.setAt key).map RRSet.ttl = some (input.ttl.getD 3600) ∧
        (∀ r ∈ old, r.disabled = false) ∧ old.any (carries lib zoneName input) = true
    | .lost, _ => (zone.setAt key).map RRSet.ttl = some (input.ttl.getD 3600) ∧ old = [new]

/-- A deletion is not told that a zone with the value is none, and none takes effect and throws. -/
def DeleteKept : Prop :=
  get = .notFound ∨ (get = .zone ∧ patch = .lost) →
    ∀ r ∈ zone.recordsAt (inputKey lib zoneName input), carries lib zoneName input r = false

end Functions

namespace PdnsZone

variable {lib : Builtins} (zone : PdnsZone lib)

theorem setAt_delete (key other : Text × Text) :
    (zone.delete key).setAt other = if other = key then none else zone.setAt other := by
  unfold setAt delete
  dsimp only
  rw [List.find?_filter]
  by_cases h : other = key
  · rw [if_pos h, List.find?_eq_none]
    intro set _ hboth
    simp only [decide_eq_true_eq] at hboth
    exact hboth.1 (hboth.2.trans h)
  · rw [if_neg h]
    congr 1
    funext set
    by_cases hset : set.key lib = other
    · simp [hset, h]
    · simp [hset]

theorem setAt_replace (set : RRSet) (hset : set.records ≠ []) (other : Text × Text) :
    (zone.replace set hset).setAt other =
      if other = set.key lib then some set else zone.setAt other := by
  have hcons : (zone.replace set hset).setAt other =
      if set.key lib = other then some set else (zone.delete (set.key lib)).setAt other := by
    unfold setAt replace
    rw [List.find?_cons]
    by_cases h : set.key lib = other
    · simp [h]
    · simp [h]
  rw [hcons, setAt_delete]
  by_cases h : other = set.key lib
  · rw [if_pos h.symm, if_pos h]
  · rw [if_neg h, if_neg (Ne.symm h), if_neg h]

end PdnsZone

section Writes

variable (lib : Builtins) (zoneName : Text) (zone : PdnsZone lib) (input : DnsRecordInput)
  {key : Text × Text} {set : RRSet}

/-- The records that `createRecord` writes are to hold what the set held, and the new value once. -/
theorem valueAdded_replace_iff (set : RRSet) (hset : set.records ≠ [])
    (hkey : set.key lib = inputKey lib zoneName input) (ttl : ℕ) (httl : set.ttl = ttl) :
    ValueAdded lib zone (zone.replace set hset) (inputKey lib zoneName input) ttl
        (carries lib zoneName input) ↔
      (∃ extra, set.records.Perm (zone.recordsAt (inputKey lib zoneName input) ++ extra) ∧
        ∀ r ∈ extra, carries lib zoneName input r = true) ∧
      (set.records.filter (carries lib zoneName input)).length = 1 := by
  have hat : (zone.replace set hset).setAt (inputKey lib zoneName input) = some set := by
    rw [zone.setAt_replace, if_pos hkey.symm]
  have hrecords : (zone.replace set hset).recordsAt (inputKey lib zoneName input) = set.records := by
    unfold PdnsZone.recordsAt
    rw [hat]
    rfl
  refine ⟨fun h => ⟨?_, ?_⟩, fun h => ⟨?_, ⟨set, hat, httl⟩, ?_, ?_⟩⟩
  · have hextra := h.records
    rw [hrecords] at hextra
    exact hextra
  · have honce := h.once
    rw [hrecords] at honce
    exact honce
  · intro other hother
    rw [zone.setAt_replace, hkey, if_neg hother]
  · rw [hrecords]
    exact h.1
  · rw [hrecords]
    exact h.2

theorem enabled_of_perm {old extra written : List StoredRecord} {new : StoredRecord}
    (hnew : new.disabled = false)
    (hwritten : ∀ r ∈ written, r ∈ old.filter (fun r => ! r.disabled) ∨ r = new)
    (h : written.Perm (old ++ extra)) : ∀ r ∈ old, r.disabled = false := by
  intro r hr
  rcases hwritten r (h.symm.subset (List.mem_append_left _ hr)) with hin | rfl
  · simpa using List.of_mem_filter hin
  · exact hnew

theorem length_filter_singleton (carries : StoredRecord → Bool) (new : StoredRecord) :
    ([new].filter carries).length = 1 ↔ carries new = true := by
  rw [List.filter_singleton]
  by_cases h : carries new = true
  · simp [h]
  · simp [h]

theorem written_all_iff (old : List StoredRecord) (new : StoredRecord)
    (carries : StoredRecord → Bool) :
    let written := if old.any carries then old else old ++ [new]
    (∃ extra, written.Perm (old ++ extra) ∧ ∀ r ∈ extra, carries r = true) ∧
        (written.filter carries).length = 1 ↔
      (old.filter carries).length = 1 ∨ (old.filter carries).length = 0 ∧ carries new = true := by
  intro written
  by_cases hany : old.any carries = true
  · have hself : written = old := if_pos hany
    have hsome : (old.filter carries).length ≠ 0 := by
      obtain ⟨r, hr, hcarries⟩ := List.any_eq_true.mp hany
      have hmem : r ∈ old.filter carries := List.mem_filter.mpr ⟨hr, hcarries⟩
      exact Nat.ne_of_gt (List.length_pos_of_mem hmem)
    rw [hself]
    refine ⟨fun h => .inl h.2, fun h => ⟨⟨[], by rw [List.append_nil], by simp⟩, ?_⟩⟩
    exact h.resolve_right fun hzero => hsome hzero.1
  · have hself : written = old ++ [new] := if_neg hany
    have hnone : old.filter carries = [] := by
      rw [List.filter_eq_nil_iff]
      intro r hr hcarries
      exact hany (List.any_eq_true.mpr ⟨r, hr, hcarries⟩)
    rw [hself, List.filter_append, hnone, List.nil_append, length_filter_singleton]
    refine ⟨fun h => .inr ⟨rfl, h.2⟩, fun h => ?_⟩
    have hcarries : carries new = true := by
      rcases h with hone | ⟨-, hcarries⟩
      · cases hone
      · exact hcarries
    refine ⟨⟨[new], .refl _, ?_⟩, hcarries⟩
    intro r hr
    rw [List.mem_singleton.mp hr]
    exact hcarries

theorem written_after_read_iff (old : List StoredRecord) (new : StoredRecord)
    (hnew : new.disabled = false) (carries : StoredRecord → Bool) :
    let enabled := old.filter fun r => ! r.disabled
    let written := if enabled.any carries then enabled else enabled ++ [new]
    (∃ extra, written.Perm (old ++ extra) ∧ ∀ r ∈ extra, carries r = true) ∧
        (written.filter carries).length = 1 ↔
      (∀ r ∈ old, r.disabled = false) ∧
        ((old.filter carries).length = 1 ∨ (old.filter carries).length = 0 ∧ carries new = true) := by
  intro enabled written
  have hwritten : ∀ r ∈ written, r ∈ enabled ∨ r = new := by
    intro r hr
    by_cases hany : enabled.any carries = true
    · rw [show written = enabled from if_pos hany] at hr
      exact .inl hr
    · rw [show written = enabled ++ [new] from if_neg hany, List.mem_append, List.mem_singleton] at hr
      exact hr
  by_cases henabled : ∀ r ∈ old, r.disabled = false
  · have hall : enabled = old := List.filter_eq_self.mpr fun r hr => by rw [henabled r hr]; rfl
    have hself : written = if old.any carries then old else old ++ [new] := by
      rw [← hall]
    rw [hself]
    exact (written_all_iff old new carries).trans ⟨fun h => ⟨henabled, h⟩, And.right⟩
  · refine ⟨?_, fun h => absurd h.1 henabled⟩
    rintro ⟨⟨extra, hperm, -⟩, -⟩
    exact absurd (enabled_of_perm hnew hwritten hperm) henabled

/-- The records written after the zone was read are those it held. -/
theorem written_perm_iff (old : List StoredRecord) (new : StoredRecord)
    (hnew : new.disabled = false) (carries : StoredRecord → Bool) :
    let enabled := old.filter fun r => ! r.disabled
    (if enabled.any carries then enabled else enabled ++ [new]).Perm old ↔
      (∀ r ∈ old, r.disabled = false) ∧ old.any carries = true := by
  intro enabled
  have hself : (∀ r ∈ old, r.disabled = false) → enabled = old := fun h =>
    List.filter_eq_self.mpr fun r hr => by rw [h r hr]; rfl
  by_cases hany : enabled.any carries = true
  · rw [if_pos hany]
    refine ⟨fun h => ?_, fun h => by rw [hself h.1]⟩
    have henabled : ∀ r ∈ old, r.disabled = false := by
      intro r hr
      simpa using List.of_mem_filter (h.symm.subset hr)
    exact ⟨henabled, hself henabled ▸ hany⟩
  · rw [if_neg hany]
    refine ⟨fun h => ?_, fun h => absurd (hself h.1 ▸ h.2) hany⟩
    have henabled : ∀ r ∈ old, r.disabled = false := by
      intro r hr
      rcases List.mem_append.mp (h.symm.subset hr) with hin | hin
      · simpa using List.of_mem_filter hin
      · rw [List.mem_singleton.mp hin]
        exact hnew
    have hlength := h.length_eq
    rw [hself henabled] at hlength
    simp at hlength

theorem written_unread_iff (old : List StoredRecord) (new : StoredRecord)
    (carries : StoredRecord → Bool) :
    (∃ extra, [new].Perm (old ++ extra) ∧ ∀ r ∈ extra, carries r = true) ∧
        ([new].filter carries).length = 1 ↔ carries new = true ∧ (old = [] ∨ old = [new]) := by
  rw [length_filter_singleton]
  constructor
  · rintro ⟨⟨extra, hperm, -⟩, hnew⟩
    refine ⟨hnew, ?_⟩
    have heq := List.perm_singleton.mp hperm.symm
    cases old with
    | nil => exact .inl rfl
    | cons r old =>
      obtain ⟨rfl, hrest⟩ := List.cons.inj heq
      rw [(List.append_eq_nil_iff.mp hrest).1]
      exact .inr rfl
  · rintro ⟨hnew, rfl | rfl⟩
    · refine ⟨⟨[new], .refl _, ?_⟩, hnew⟩
      intro r hr
      rw [List.mem_singleton.mp hr]
      exact hnew
    · exact ⟨⟨[], by rw [List.append_nil], by simp⟩, hnew⟩

theorem unchanged_refl : Unchanged lib zone zone := fun _ => ⟨rfl, .refl _⟩

theorem unchanged_replace_iff (set : RRSet) (hset : set.records ≠ [])
    (hkey : set.key lib = inputKey lib zoneName input) :
    Unchanged lib zone (zone.replace set hset) ↔
      (zone.setAt (inputKey lib zoneName input)).map RRSet.ttl = some set.ttl ∧
        set.records.Perm (zone.recordsAt (inputKey lib zoneName input)) := by
  have hat : ∀ key, (zone.replace set hset).setAt key =
      if key = inputKey lib zoneName input then some set else zone.setAt key := by
    intro key
    rw [zone.setAt_replace, hkey]
  have hrecords : ∀ key, (zone.replace set hset).recordsAt key =
      if key = inputKey lib zoneName input then set.records else zone.recordsAt key := by
    intro key
    unfold PdnsZone.recordsAt
    rw [hat]
    split <;> rfl
  refine ⟨fun h => ?_, fun h key => ?_⟩
  · have hown := h (inputKey lib zoneName input)
    rw [hat, hrecords, if_pos rfl, if_pos rfl] at hown
    exact ⟨hown.1.symm, hown.2⟩
  · rw [hat, hrecords]
    by_cases hown : key = inputKey lib zoneName input
    · rw [if_pos hown, if_pos hown, hown]
      exact ⟨h.1.symm, h.2⟩
    · rw [if_neg hown, if_neg hown]
      exact ⟨rfl, .refl _⟩

/-- `createRecord` is proper exactly when the values it read were all of them and are sent back. -/
theorem createProper_iff (get : GetOutcome) (patch : PatchOutcome) :
    CreateProper lib zoneName zone input get patch ↔ CreateKept lib zoneName zone input get patch := by
  unfold CreateProper createRecord CreateKept
  dsimp only
  cases hformat : formatContent lib input with
  | error e => simpa using unchanged_refl lib zone
  | ok content =>
    cases hcanonical : canonicalContent lib input with
    | error e =>
      rw [canonicalContent_error_iff, hformat] at hcanonical
      cases hcanonical
    | ok canonical =>
      have hcarries : carries lib zoneName input =
          sameValue lib input (qualifyName lib.lowering zoneName input.name) canonical := by
        funext r
        unfold carries
        rw [hcanonical]
      simp only [Except.ok.injEq, forall_eq']
      cases patch with
      | refused => simpa [PatchOutcome.result] using unchanged_refl lib zone
      | ok =>
        simp only [PatchOutcome.result]
        rw [valueAdded_replace_iff lib zoneName zone input _ _ rfl _ rfl]
        unfold recordsToWrite existingRecords findRrset
        rw [← hcarries]
        cases get with
        | zone => exact written_after_read_iff _ _ rfl _
        | notFound => exact written_unread_iff _ _ _
        | failed => exact written_unread_iff _ _ _
      | lost =>
        simp only [PatchOutcome.result]
        rw [unchanged_replace_iff lib zoneName zone input _ _ rfl]
        unfold recordsToWrite existingRecords findRrset
        rw [← hcarries]
        cases get with
        | zone => exact and_congr_right fun _ => written_perm_iff _ _ rfl _
        | notFound => exact and_congr_right fun _ => List.perm_comm.trans List.perm_singleton
        | failed => exact and_congr_right fun _ => List.perm_comm.trans List.perm_singleton

theorem recordsAt_of_setAt (h : zone.setAt key = some set) : zone.recordsAt key = set.records := by
  unfold PdnsZone.recordsAt
  rw [h]
  rfl

theorem valueRemoved_self_iff (key : Text × Text) (carries : StoredRecord → Bool) :
    ValueRemoved lib zone zone key carries ↔ ∀ r ∈ zone.recordsAt key, carries r = false := by
  constructor
  · intro h r hr
    have hrecords := h.records
    rw [eq_comm, List.filter_eq_self] at hrecords
    simpa using hrecords r hr
  · intro h
    refine ⟨fun _ _ => rfl, fun set hset => ⟨set, hset, rfl⟩, ?_⟩
    rw [eq_comm, List.filter_eq_self]
    intro r hr
    rw [h r hr]
    rfl

theorem valueRemoved_of_read {carries : StoredRecord → Bool}
    (hset : zone.setAt (inputKey lib zoneName input) = some set) (kept : RRSet)
    (hkey : kept.key lib = inputKey lib zoneName input) (httl : kept.ttl = set.ttl)
    (hrecords : kept.records = set.records.filter fun r => ! carries r) (hne : kept.records ≠ []) :
    ValueRemoved lib zone (zone.replace kept hne) (inputKey lib zoneName input) carries := by
  have hat : (zone.replace kept hne).setAt (inputKey lib zoneName input) = some kept := by
    rw [zone.setAt_replace, if_pos hkey.symm]
  refine ⟨?_, ?_, ?_⟩
  · intro other hother
    rw [zone.setAt_replace, hkey, if_neg hother]
  · intro after hafter
    rw [hat] at hafter
    obtain rfl : kept = after := Option.some.inj hafter
    exact ⟨set, hset, httl⟩
  · rw [recordsAt_of_setAt lib _ hat, recordsAt_of_setAt lib _ hset, hrecords]

theorem valueRemoved_delete {carries : StoredRecord → Bool} (hset : zone.setAt key = some set)
    (hnone : set.records.filter (fun r => ! carries r) = []) :
    ValueRemoved lib zone (zone.delete key) key carries := by
  have hat : (zone.delete key).setAt key = none := by
    rw [zone.setAt_delete, if_pos rfl]
  refine ⟨?_, ?_, ?_⟩
  · intro other hother
    rw [zone.setAt_delete, if_neg hother]
  · intro after hafter
    rw [hat] at hafter
    cases hafter
  · have hrecords : (zone.delete key).recordsAt key = [] := by
      unfold PdnsZone.recordsAt
      rw [hat]
      rfl
    rw [hrecords, recordsAt_of_setAt lib _ hset, hnone]

theorem not_unchanged_of_removed {after : PdnsZone lib} {carries : StoredRecord → Bool}
    (h : ValueRemoved lib zone after key carries) {r : StoredRecord} (hr : r ∈ zone.recordsAt key)
    (hcarries : carries r = true) : ¬ Unchanged lib zone after := by
  intro hsame
  have hin := (hsame key).2.symm.subset hr
  rw [h.records] at hin
  simpa [hcarries] using List.of_mem_filter hin

theorem deleteResult_proper_iff {after : PdnsZone lib} {carries : StoredRecord → Bool}
    (h : ValueRemoved lib zone after key carries)
    (hsome : ∃ r ∈ zone.recordsAt key, carries r = true) (patch : PatchOutcome) :
    (match patch.result zone after with
      | (.ok _, after) => ValueRemoved lib zone after key carries
      | (.error _, after) => Unchanged lib zone after) ↔ patch ≠ .lost := by
  obtain ⟨r, hr, hcarries⟩ := hsome
  cases patch with
  | ok => exact ⟨fun _ => (by simp), fun _ => h⟩
  | refused => exact ⟨fun _ => (by simp), fun _ => unchanged_refl lib zone⟩
  | lost => exact ⟨fun hsame => absurd hsame (not_unchanged_of_removed lib zone h hr hcarries),
      fun hne => absurd rfl hne⟩

/-- `deleteRecordValue` is proper exactly when it is not told that a zone with the value is none,
and does not throw after the value was removed. -/
theorem deleteProper_iff (get : GetOutcome) (patch : PatchOutcome) : DeleteProper lib zoneName zone
    input get patch ↔ DeleteKept lib zoneName zone input get patch := by
  unfold DeleteProper deleteRecordValue DeleteKept
  dsimp only
  cases hcanonical : canonicalContent lib input with
  | error e =>
    have hcarries : ∀ r, carries lib zoneName input r = false := by
      intro r
      unfold carries
      rw [hcanonical]
    simpa [hcarries] using unchanged_refl lib zone
  | ok canonical =>
    have hcarries : carries lib zoneName input =
        sameValue lib input (qualifyName lib.lowering zoneName input.name) canonical := by
      funext r
      unfold carries
      rw [hcanonical]
    cases get with
    | notFound =>
      dsimp only
      rw [valueRemoved_self_iff]
      exact ⟨fun h _ => h, fun h => h (.inl rfl)⟩
    | failed => simpa using unchanged_refl lib zone
    | zone =>
      dsimp only
      rw [← hcarries]
      cases hset : findRrset lib zone (qualifyName lib.lowering zoneName input.name) input.type with
      | none =>
        dsimp only
        rw [valueRemoved_self_iff]
        have hempty : zone.recordsAt (inputKey lib zoneName input) = [] := by
          unfold PdnsZone.recordsAt
          rw [show zone.setAt (inputKey lib zoneName input) = none from hset]
          rfl
        simp [hempty]
      | some set =>
        have hat : zone.setAt (inputKey lib zoneName input) = some set := hset
        dsimp only
        by_cases hlength : (set.records.filter fun r => ! carries lib zoneName input r).length =
            set.records.length
        · have hnone : ∀ r ∈ set.records, carries lib zoneName input r = false := by
            intro r hr
            have hself := List.filter_sublist.eq_of_length hlength
            simpa using List.filter_eq_self.mp hself r hr
          rw [if_pos hlength]
          dsimp only
          rw [valueRemoved_self_iff, recordsAt_of_setAt lib _ hat]
          exact ⟨fun _ _ => hnone, fun _ => hnone⟩
        · rw [if_neg hlength, recordsAt_of_setAt lib _ hat]
          have hsome : ∃ r ∈ set.records, carries lib zoneName input r = true := by
            by_contra hno
            apply hlength
            rw [List.filter_eq_self.mpr]
            intro r hr
            simpa using fun hcarried => hno ⟨r, hr, hcarried⟩
          have hsome' : ∃ r ∈ zone.recordsAt (inputKey lib zoneName input),
              carries lib zoneName input r = true := by
            rw [recordsAt_of_setAt lib _ hat]
            exact hsome
          have hlost : patch ≠ .lost ↔ (GetOutcome.zone = .notFound ∨ GetOutcome.zone = .zone ∧
              patch = .lost → ∀ r ∈ set.records, carries lib zoneName input r = false) := by
            obtain ⟨r, hr, hcarried⟩ := hsome
            refine ⟨fun hne h => ?_, fun h heq => ?_⟩
            · rcases h with h | h
              · cases h
              · exact absurd h.2 hne
            · have hnot := h (.inr ⟨rfl, heq⟩) r hr
              rw [hcarried] at hnot
              cases hnot
          rw [← hlost]
          by_cases hne : (set.records.filter fun r => ! carries lib zoneName input r) ≠ []
          · rw [dif_pos hne]
            let kept : RRSet :=
              { name := qualifyName lib.lowering zoneName input.name
                type := input.type
                ttl := set.ttl
                records := set.records.filter fun r => ! carries lib zoneName input r }
            exact deleteResult_proper_iff lib zone
              (valueRemoved_of_read lib zoneName zone input hat kept rfl rfl rfl hne) hsome' patch
          · rw [dif_neg hne]
            exact deleteResult_proper_iff lib zone (valueRemoved_delete lib zone hat (not_not.mp hne))
              hsome' patch

end Writes

/-- Whatever the zone holds and whichever requests fail, both writes leave what they are to leave
exactly when no value is hidden from them, none is dropped by them, and none changes the zone and
throws. -/
theorem record_writes_proper_iff (lib : Builtins) (zoneName : Text) (zone : PdnsZone lib)
    (input : DnsRecordInput) (get : GetOutcome) (patch : PatchOutcome) :
    CreateProper lib zoneName zone input get patch ∧ DeleteProper lib zoneName zone input get patch ↔
      CreateKept lib zoneName zone input get patch ∧ DeleteKept lib zoneName zone input get patch :=
  and_congr (createProper_iff lib zoneName zone input get patch)
    (deleteProper_iff lib zoneName zone input get patch)

section TwoAddresses

def twoAddresses : RRSet where
  name := "example.test.".toList
  type := "A".toList
  ttl := 3600
  records := [{ content := "203.0.113.1".toList, disabled := false },
    { content := "203.0.113.2".toList, disabled := true }]

def addressZone : PdnsZone asciiBuiltins where
  rrsets := [twoAddresses]
  keys := by decide
  nonempty := by decide

def thirdAddress : DnsRecordInput :=
  bareRecord "A".toList "@".toList "203.0.113.3".toList

/-- A failed read loses the addresses that were there, and a successful one the disabled one. -/
theorem address_lost_by_create :
    (createRecord asciiBuiltins "example.test".toList addressZone thirdAddress .failed .ok).2.recordsAt
        (inputKey asciiBuiltins "example.test".toList thirdAddress) =
      [{ content := "203.0.113.3".toList, disabled := false }] ∧
    (createRecord asciiBuiltins "example.test".toList addressZone thirdAddress .zone .ok).2.recordsAt
        (inputKey asciiBuiltins "example.test".toList thirdAddress) =
      [{ content := "203.0.113.1".toList, disabled := false },
        { content := "203.0.113.3".toList, disabled := false }] ∧
    ¬ CreateProper asciiBuiltins "example.test".toList addressZone thirdAddress .failed .ok ∧
    ¬ CreateProper asciiBuiltins "example.test".toList addressZone thirdAddress .zone .ok := by
  have hformat : formatContent asciiBuiltins thirdAddress = .ok "203.0.113.3".toList := by
    rfl
  have hold : addressZone.recordsAt (inputKey asciiBuiltins "example.test".toList thirdAddress) =
      twoAddresses.records := by rfl
  refine ⟨by rfl, by rfl, ?_, ?_⟩
  · rw [createProper_iff]
    intro hkept
    have hread := (hkept _ hformat).2
    rw [hold] at hread
    exact absurd hread (by decide)
  · rw [createProper_iff]
    intro hkept
    have henabled := (hkept _ hformat).1
    rw [hold] at henabled
    exact absurd henabled (by decide)

end TwoAddresses

end Insula.DnsServers
