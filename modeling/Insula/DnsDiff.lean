import Insula.DnsRecordRoutes
import Insula.KeyPairing

/-!
# Local rows and provider records, paired

Rows of a domain and the records that its server lists are paired by their identities: type,
absolute name and value, joined with bars. What is left on both sides is a conflict when the
identities begin alike, and how far that is read back from the joined text.
-/

namespace Insula.DnsRecords

open DnsServers KeyPairing

/-- `key.split('|').slice(0, 2).join('|')`. -/
def typeNamePrefix (key : Text) : Text := ['|'].intercalate ((key.splitOn '|').take 2)

section Pairs

variable (lib : Builtins) (zone : Text) {R : Type*} (record : R → RemoteRecord)

def localKey (l : DnsRecord) : Text := recordKey lib zone l.toSync

def remoteKey (r : R) : Text := recordKey lib zone (record r).toSync

def partners (l : DnsRecord) (r : R) : Bool :=
  (typeNamePrefix (localKey lib zone l) ++ ['|']).isPrefixOf (remoteKey lib zone record r)

def comparableLocals (localRecords : List DnsRecord) : List DnsRecord :=
  localRecords.filter fun l => comparable lib l.recordType

def comparableRemotes (remoteRecords : List R) : List R :=
  remoteRecords.filter fun r => comparable lib (record r).type

def pairRecords (localRecords : List DnsRecord) (remoteRecords : List R) : Pairing DnsRecord R :=
  pairUp (localKey lib zone) (remoteKey lib zone record) (partners lib zone record)
    (comparableLocals lib localRecords) (comparableRemotes lib record remoteRecords)

def typeAndName (r : SyncRecord) : Text × Text :=
  (lib.toUpperCase r.type, qualifyName lib.lowering zone r.name)

def localClass (l : DnsRecord) : Text × Text := typeAndName lib zone l.toSync

def remoteClass (r : R) : Text × Text := typeAndName lib zone (record r).toSync

end Pairs

/-! ## Joined and split again -/

theorem recordKey_eq (lib : Builtins) (zone : Text) (r : SyncRecord) :
    ∃ value, recordKey lib zone r =
      (typeAndName lib zone r).1 ++ '|' :: ((typeAndName lib zone r).2 ++ '|' :: value) := by
  cases hcontent : canonicalContent lib { toRecordInput r with ttl := none } with
  | ok content =>
    refine ⟨content, ?_⟩
    simp only [recordKey, typeAndName, hcontent, List.intercalate_cons_cons, List.intercalate_singleton,
      List.append_assoc]
    rfl
  | error e =>
    refine ⟨r.content, ?_⟩
    simp only [recordKey, typeAndName, hcontent, List.intercalate_cons_cons, List.intercalate_singleton,
      List.append_assoc]
    rfl

theorem append_bar_prefix (s : Text) (rest : List Text) :
    s ++ ['|'] <+: ['|'].intercalate (s :: rest) ++ ['|'] := by
  cases rest with
  | nil => simp
  | cons t rest =>
    rw [List.intercalate_cons_cons, List.append_assoc, List.append_assoc]
    exact (List.prefix_append_right_inj s).mpr (List.prefix_append _ _)

/-- The first two parts of a key reach at most to the end of the name. -/
theorem typeNamePrefix_isPrefix (type name value : Text) :
    typeNamePrefix (type ++ '|' :: (name ++ '|' :: value)) ++ ['|'] <+:
      type ++ '|' :: (name ++ ['|']) := by
  have hparts : ∃ s t rest, type.splitOn '|' ++ name.splitOn '|' = s :: t :: rest := by
    cases htype : type.splitOn '|' with
    | nil => exact absurd htype (List.splitOn_ne_nil _ _)
    | cons s types =>
      cases types with
      | cons t types => exact ⟨s, t, types ++ name.splitOn '|', rfl⟩
      | nil =>
        cases hname : name.splitOn '|' with
        | nil => exact absurd hname (List.splitOn_ne_nil _ _)
        | cons t names => exact ⟨s, t, names, rfl⟩
  obtain ⟨s, t, rest, hparts⟩ := hparts
  have hjoin : type ++ '|' :: name = s ++ ('|' :: ['|'].intercalate (t :: rest)) := by
    have hcons : ['|'].intercalate (s :: t :: rest) = s ++ ('|' :: ['|'].intercalate (t :: rest)) := by
      rw [List.intercalate_cons_cons, List.append_assoc]
      rfl
    rw [← hcons, ← hparts, ← List.splitOn_append_cons_self, List.intercalate_splitOn]
  have hwhole : type ++ '|' :: (name ++ ['|']) =
      s ++ '|' :: (['|'].intercalate (t :: rest) ++ ['|']) := by
    have happend := congrArg (· ++ ['|']) hjoin
    simpa only [List.append_assoc, List.cons_append] using happend
  have htake : typeNamePrefix (type ++ '|' :: (name ++ '|' :: value)) ++ ['|'] =
      s ++ '|' :: (t ++ ['|']) := by
    rw [typeNamePrefix, List.splitOn_append_cons_self, List.splitOn_append_cons_self,
      ← List.append_assoc, hparts]
    simp [List.intercalate_cons_cons]
  rw [htake, hwhole, List.prefix_append_right_inj, List.cons_prefix_cons]
  exact ⟨rfl, append_bar_prefix t rest⟩

section Pairs

variable {lib : Builtins} {zone : Text} {R : Type*} {record : R → RemoteRecord}

/-- Records of one type and name always fit. -/
theorem partners_of_class (l : DnsRecord) (r : R)
    (h : localClass lib zone l = remoteClass lib zone record r) :
    partners lib zone record l r = true := by
  obtain ⟨localValue, hlocal⟩ := recordKey_eq lib zone l.toSync
  obtain ⟨remoteValue, hremote⟩ := recordKey_eq lib zone (record r).toSync
  unfold localClass remoteClass at h
  rw [partners, List.isPrefixOf_iff_prefix, localKey, remoteKey, hlocal, hremote, h]
  apply (typeNamePrefix_isPrefix _ _ localValue).trans
  rw [List.prefix_append_right_inj, List.cons_prefix_cons, List.prefix_append_right_inj]
  exact ⟨rfl, List.prefix_append _ _⟩

/-- Without bars in types and names nothing is ambiguous. -/
theorem unambiguous_of_no_bar {rowsA : List DnsRecord} {rowsB : List R}
    (hlocal : ∀ l ∈ rowsA, '|' ∉ (localClass lib zone l).1 ∧ '|' ∉ (localClass lib zone l).2)
    (hremote : ∀ r ∈ rowsB, '|' ∉ (remoteClass lib zone record r).1 ∧
      '|' ∉ (remoteClass lib zone record r).2) :
    Unambiguous (localKey lib zone) (remoteKey lib zone record) (localClass lib zone)
      (remoteClass lib zone record) (partners lib zone record) rowsA rowsB := by
  have hsplit : ∀ c : Text × Text, '|' ∉ c.1 → '|' ∉ c.2 → ∀ value : Text,
      (c.1 ++ '|' :: (c.2 ++ '|' :: value)).splitOn '|' = c.1 :: c.2 :: value.splitOn '|' := by
    intro c htype hname value
    rw [List.splitOn_append_cons_self_of_not_mem htype, List.splitOn_append_cons_self_of_not_mem hname]
  have hclass : ∀ c c' : Text × Text, '|' ∉ c.1 → '|' ∉ c.2 → '|' ∉ c'.1 → '|' ∉ c'.2 →
      ∀ value value' : Text, c.1 ++ '|' :: (c.2 ++ '|' :: value) =
        c'.1 ++ '|' :: (c'.2 ++ '|' :: value') → c = c' := by
    intro c c' htype hname htype' hname' value value' heq
    have hparts := congrArg (List.splitOn '|') heq
    rw [hsplit c htype hname, hsplit c' htype' hname'] at hparts
    injection hparts with hfirst hrest
    injection hrest with hsecond
    exact Prod.ext hfirst hsecond
  refine ⟨?_, ?_, ?_⟩
  · intro l r hl hr hfit
    obtain ⟨htype, hname⟩ := hlocal l hl.1
    obtain ⟨htype', hname'⟩ := hremote r hr.1
    obtain ⟨value, hkey⟩ := recordKey_eq lib zone l.toSync
    obtain ⟨value', hkey'⟩ := recordKey_eq lib zone (record r).toSync
    rw [partners, List.isPrefixOf_iff_prefix, localKey, remoteKey, hkey, hkey', typeNamePrefix,
      hsplit (typeAndName lib zone l.toSync) htype hname] at hfit
    obtain ⟨rest, hrest⟩ := hfit
    have hwhole : (typeAndName lib zone l.toSync).1 ++
        '|' :: ((typeAndName lib zone l.toSync).2 ++ '|' :: rest) =
          (typeAndName lib zone (record r).toSync).1 ++
            '|' :: ((typeAndName lib zone (record r).toSync).2 ++ '|' :: value') := by
      simpa [List.intercalate_cons_cons] using hrest
    exact hclass _ _ htype hname htype' hname' rest value' hwhole
  · intro l l' hl hl' heq
    obtain ⟨value, hkey⟩ := recordKey_eq lib zone l.toSync
    obtain ⟨value', hkey'⟩ := recordKey_eq lib zone l'.toSync
    rw [localKey, localKey, hkey, hkey'] at heq
    exact hclass _ _ (hlocal l hl.1).1 (hlocal l hl.1).2 (hlocal l' hl'.1).1 (hlocal l' hl'.1).2 _ _ heq
  · intro r r' hr hr' heq
    obtain ⟨value, hkey⟩ := recordKey_eq lib zone (record r).toSync
    obtain ⟨value', hkey'⟩ := recordKey_eq lib zone (record r').toSync
    rw [remoteKey, remoteKey, hkey, hkey'] at heq
    exact hclass _ _ (hremote r hr.1).1 (hremote r hr.1).2 (hremote r' hr'.1).1 (hremote r' hr'.1).2 _ _
      heq

end Pairs

section Diff

variable (lib : Builtins) (zone : Text) {R : Type*} (record : R → RemoteRecord)
variable (localRecords : List DnsRecord) (remoteRecords : List R)

def Partitions : Prop :=
  ∀ localRecords' remoteRecords', localRecords'.Perm localRecords → remoteRecords'.Perm remoteRecords →
    Proper (localKey lib zone) (remoteKey lib zone record) (localClass lib zone)
        (remoteClass lib zone record) (comparableLocals lib localRecords')
        (comparableRemotes lib record remoteRecords')
        (pairRecords lib zone record localRecords' remoteRecords') ∧
      SameCounts (localKey lib zone) (localClass lib zone) (remoteClass lib zone record)
        (pairRecords lib zone record localRecords remoteRecords)
        (pairRecords lib zone record localRecords' remoteRecords')

/-- The diff partitions both sides exactly when no identity on one side only begins like one of
another type or name on the other side, or is that of two types or names. -/
theorem pairRecords_partitions_iff : Partitions lib zone record localRecords remoteRecords ↔
      Unambiguous (localKey lib zone) (remoteKey lib zone record) (localClass lib zone)
        (remoteClass lib zone record) (partners lib zone record) (comparableLocals lib localRecords)
        (comparableRemotes lib record remoteRecords) := by
  rw [← orders_iff partners_of_class]
  constructor
  · intro h rowsA rowsB hA hB
    obtain ⟨locals, hlocals, rfl⟩ := exists_perm_of_filter hA
    obtain ⟨remotes, hremotes, rfl⟩ := exists_perm_of_filter hB
    exact h locals remotes hlocals hremotes
  · intro h locals remotes hlocals hremotes
    exact h _ _ (hlocals.filter _) (hremotes.filter _)

end Diff

/-! ### What an import takes -/

section Import

variable {lib : Builtins} {zone : Text}

theorem mapSet_put {α : Type} (key : α → Text) (rows : List α) (a : α) :
    mapSet (rows.map fun x => (key x, x)) (key a) a = (put key rows a).map fun x => (key x, x) := by
  unfold mapSet put
  have hany : ((rows.map fun x => (key x, x)).any fun e => e.1 = key a) = true ↔
    key a ∈ rows.map key := by
    simp
  by_cases hmem : key a ∈ rows.map key
  · rw [if_pos (hany.mpr hmem), if_pos hmem, List.map_map, List.map_map]
    refine List.map_congr_left fun x _ => ?_
    simp only [Function.comp_apply]
    split <;> rfl
  · rw [if_neg (fun h => hmem (hany.mp h)), if_neg hmem, List.map_append]
    rfl

theorem foldl_mapSet {α : Type} (key : α → Text) (l rows : List α) :
    l.foldl (fun entries x => mapSet entries (key x) x) (rows.map fun x => (key x, x)) =
      (l.foldl (put key) rows).map fun x => (key x, x) := by
  induction l generalizing rows with
  | nil => rfl
  | cons a l ih => rw [List.foldl_cons, mapSet_put, ih, List.foldl_cons]

theorem takePartner_map (l : DnsRecord) (remotes : List RemoteRecord) :
    takePartner (remotes.map fun r => (remoteKey lib zone id r, r)) (localKey lib zone l) =
      (match remotes.find? (partners lib zone id l) with
        | some r => remotes.filter (remoteKey lib zone id · ≠ remoteKey lib zone id r)
        | none => remotes).map fun r => (remoteKey lib zone id r, r) := by
  have hfind : (remotes.map fun r => (remoteKey lib zone id r, r)).find? (fun e =>
      (typeNamePrefix (localKey lib zone l) ++ ['|']).isPrefixOf e.1) =
        (remotes.find? (partners lib zone id l)).map fun r => (remoteKey lib zone id r, r) := by
    rw [List.find?_map]
    rfl
  unfold takePartner
  dsimp only
  rw [← typeNamePrefix, hfind]
  cases remotes.find? (partners lib zone id l) with
  | none => rfl
  | some r =>
    simp only [Option.map_some]
    rw [List.filter_map]
    rfl

/-- Taking the partners away one by one leaves what the pairing leaves. -/
theorem foldl_takePartner (locals : List DnsRecord) (remotes : List RemoteRecord) :
    (locals.map fun l => (localKey lib zone l, l)).foldl (fun unmatched e => takePartner unmatched e.1)
        (remotes.map fun r => (remoteKey lib zone id r, r)) =
      (matchUp (remoteKey lib zone id) (partners lib zone id) locals remotes).2.2.map
        fun r => (remoteKey lib zone id r, r) := by
  induction locals generalizing remotes with
  | nil => rfl
  | cons l locals ih =>
    rw [List.map_cons, List.foldl_cons, takePartner_map, ih, matchUp]
    cases remotes.find? (partners lib zone id l) <;> rfl

theorem filter_not_any {α δ : Type} (key : α → Text) (otherKey : δ → Text) (rows : List α)
    (others : List δ) : ((rows.map fun a => (key a, a)).filter fun e =>
        ! (others.map fun d => (otherKey d, d)).any fun d => d.1 = e.1) =
      (leftovers key others otherKey rows).map fun a => (key a, a) := by
  rw [List.filter_map, leftovers]
  congr 1
  refine List.filter_congr fun a _ => ?_
  by_cases hmem : key a ∈ others.map otherKey
  · have hany : ((others.map fun d => (otherKey d, d)).any fun d => d.1 = key a) = true := by
      simpa [Function.comp_def] using hmem
    simp only [Function.comp_apply, hany, hmem, not_true, decide_false, Bool.not_true]
  · have hany : ((others.map fun d => (otherKey d, d)).any fun d => d.1 = key a) = false := by
      simpa [Function.comp_def] using hmem
    simp only [Function.comp_apply, hany, hmem, not_false_eq_true, decide_true, Bool.not_false]

/-- An import takes what the diff finds on the server only. -/
theorem remoteOnly_eq (rows : List DnsRecord) (records : List RemoteRecord) :
    remoteOnly lib zone rows records = (pairRecords lib zone id rows records).remoteOnly := by
  have hlocal : localMap lib zone rows =
      (index (localKey lib zone) (comparableLocals lib rows)).map fun l => (localKey lib zone l, l) :=
    foldl_mapSet (localKey lib zone) _ []
  have hremote : remoteMap lib zone records =
      (index (remoteKey lib zone id) (comparableRemotes lib id records)).map
        fun r => (remoteKey lib zone id r, r) :=
    foldl_mapSet (remoteKey lib zone id) _ []
  unfold remoteOnly
  dsimp only
  rw [hlocal, hremote, filter_not_any, filter_not_any, foldl_takePartner, List.map_map]
  exact List.map_id _

end Import

/-! ### A bar in a name -/

def addressRow (name : String) : DnsRecord where
  id := "row"
  domainId := "domain"
  recordType := ['A']
  recordName := some name.toList
  recordValue := some "192.0.2.1".toList
  ttl := 3600
  priority := none
  weight := none
  port := none
  managedBy := none

def addressRecord (name : String) : RemoteRecord where
  id := []
  type := ['A']
  name := name.toList
  content := "192.0.2.2".toList
  ttl := 3600
  priority := none

/-- Two names that begin alike, up to a bar. -/
theorem bar_pairs_two_names : ¬ ∀ (lib : Builtins) (zone : Text) (localRecords : List DnsRecord)
      (remoteRecords : List RemoteRecord), Partitions lib zone id localRecords remoteRecords := by
  intro h
  have hproper := (h asciiBuiltins "example.test".toList [addressRow "a|b"] [addressRecord "a|c"] _ _
    (.refl _) (.refl _)).1
  have hconflict : (addressRow "a|b", addressRecord "a|c") ∈
      (pairRecords asciiBuiltins "example.test".toList id [addressRow "a|b"]
        [addressRecord "a|c"]).conflicts := by
    decide
  have hclass := (hproper.conflict _ hconflict).2.2
  revert hclass
  decide

end Insula.DnsRecords
