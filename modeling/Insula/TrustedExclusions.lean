import Insula.BlacklistProtection
import Insula.Netip

/-!
# Trusted ranges that may not be banned

A trusted range is read twice: by the reconcile pass, which trims its text and takes bare addresses,
and by the exclusions of the blocklist, which take a prefix as it stands. The exclusions come from
the nodes, the range of the services, the trusted ranges and the pending peers.
-/

namespace Insula.TrustedExclusions

open CrowdsecL4 Networks Nft Firewall TenantPorts Netip
open Go (isSpace)

/-! ## The exclusions -/

inductive AddressType
  | internalIP | externalIP | other
  deriving DecidableEq

structure NodeObject where
  podCIDR : Text
  podCIDRs : List Text
  addresses : List (AddressType × Text)

/-- What `buildExclusionSet` reads; the texts of a resource are empty where they are missing. -/
structure ExclusionSources where
  serviceCIDREnv : Text
  nodes : List NodeObject
  ctrs : List Text
  cpps : List Text

def podCIDRsFromNode (n : NodeObject) : List Text :=
  [trim isSpace n.podCIDR].filter (· ≠ []) ++
    (n.podCIDRs.map (trim isSpace)).filter fun c => c ≠ [] ∧ c ≠ n.podCIDR

def parseCIDRSafely (s : Text) : Option Prefix := (parsePrefix s).map unmapPrefix

def nodePrefixes (n : NodeObject) : List Prefix :=
  (podCIDRsFromNode n).filterMap parseCIDRSafely ++
    (n.addresses.filter fun a => a.1 ≠ .other).filterMap fun a =>
      (parseAddr a.2).map fun parsed => hostPrefix parsed.1

def peerPrefix (ip : Text) : Option Prefix :=
  match parseBareIP (reading (trim isSpace ip)) with
  | none => none
  | some (canonical, _) =>
    match canonical.stripPrefix.reading with
    | .addr a _ => some (hostPrefix a)
    | _ => none

namespace ExclusionSources

variable (s : ExclusionSources)

def exclusions : List Prefix :=
  ([s.serviceCIDREnv].filter (· ≠ [])).filterMap parseCIDRSafely ++ s.nodes.flatMap nodePrefixes ++
    (s.ctrs.filter (· ≠ [])).filterMap parseCIDRSafely ++ (s.cpps.filter (· ≠ [])).filterMap peerPrefix

def buildExclusionSet : ExclusionSet := s.exclusions.foldl appendToFamily ⟨[], []⟩

end ExclusionSources

variable {prefixes : List Prefix} {a : Addr} {p : Prefix}

theorem mem_foldl_appendToFamily {ex : ExclusionSet} {e : Prefix} :
    (e ∈ (prefixes.foldl appendToFamily ex).v4 ∨ e ∈ (prefixes.foldl appendToFamily ex).v6) ↔
      e ∈ prefixes ∨ e ∈ ex.v4 ∨ e ∈ ex.v6 := by
  induction prefixes generalizing ex with
  | nil => simp
  | cons p prefixes ih =>
    rw [List.foldl_cons, ih, List.mem_cons]
    unfold appendToFamily
    split
    · simp only [List.mem_append, List.mem_singleton]
      tauto
    · simp only [List.mem_append, List.mem_singleton]
      tauto

/-- Some exclusion holds the address, or what it is without its mapping. -/
def Excludes (ex : ExclusionSet) (a : Addr) : Prop :=
  ∃ e, (e ∈ ex.v4 ∨ e ∈ ex.v6) ∧ (e.contains a = true ∨ e.contains a.unmap = true)

theorem excludes_iff {s : ExclusionSources} : Excludes s.buildExclusionSet a ↔
    ∃ e ∈ s.exclusions, e.contains a = true ∨ e.contains a.unmap = true := by
  unfold Excludes ExclusionSources.buildExclusionSet
  constructor
  · rintro ⟨e, he, ha⟩
    rcases mem_foldl_appendToFamily.mp he with he | he | he
    · exact ⟨e, he, ha⟩
    · cases he
    · cases he
  · rintro ⟨e, he, ha⟩
    exact ⟨e, mem_foldl_appendToFamily.mpr (.inl he), ha⟩

theorem normal_of_mem {s : ExclusionSources} {e : Prefix} (h : e ∈ s.exclusions) : Normal e := by
  have hcidr : ∀ {t : Text}, parseCIDRSafely t = some e → Normal e := by
    intro t ht
    obtain ⟨p, -, rfl⟩ := Option.map_eq_some_iff.mp ht
    exact unmapPrefix_normal p
  have hhost : ∀ a : Addr, Normal (hostPrefix a) := fun a => a.unmap_unmap
  unfold ExclusionSources.exclusions at h
  simp only [List.mem_append, List.mem_filterMap, List.mem_flatMap] at h
  rcases h with ((⟨t, -, ht⟩ | ⟨n, -, hn⟩) | ⟨t, -, ht⟩) | ⟨ip, -, hip⟩
  · exact hcidr ht
  · unfold nodePrefixes at hn
    rcases List.mem_append.mp hn with hn | hn
    · obtain ⟨t, -, ht⟩ := List.mem_filterMap.mp hn
      exact hcidr ht
    · obtain ⟨a, -, ha⟩ := List.mem_filterMap.mp hn
      obtain ⟨r, -, rfl⟩ := Option.map_eq_some_iff.mp ha
      exact hhost _
  · exact hcidr ht
  · unfold peerPrefix at hip
    split at hip
    · cases hip
    · split at hip
      · cases hip
        exact hhost _
      · cases hip

/-- The set is the one that the ticks of the blocklist take their exclusions from. -/
theorem buildExclusionSet_eq (s : ExclusionSources) :
    s.buildExclusionSet = CrowdsecL4.buildExclusionSet s.exclusions := by
  have hmap : s.exclusions.map unmapPrefix = s.exclusions := by
    rw [List.map_congr_left fun e he => unmapPrefix_of_normal (normal_of_mem he), List.map_id']
  unfold ExclusionSources.buildExclusionSet CrowdsecL4.buildExclusionSet
  rw [hmap]

def bansOf (bl : CrowdsecBlocklist) : List (Prefix × ℤ) :=
  withTtls bl.v4 bl.ttlv4 ++ withTtls bl.v6 bl.ttlv6

theorem fst_mem_of_withTtls {ttls : List ℤ} {ban : Prefix × ℤ} (h : ban ∈ withTtls prefixes ttls) :
    ban.1 ∈ prefixes := by
  induction prefixes generalizing ttls with
  | nil => cases h
  | cons p prefixes ih =>
    rcases List.mem_cons.mp h with rfl | h
    · exact List.mem_cons_self
    · exact List.mem_cons_of_mem p (ih h)

/-- Exclusions of the other family exclude nothing. -/
theorem mem_survivors {isV6 : Bool} {own other : List Prefix} {ttls : List ℤ} {ban : Prefix × ℤ}
    (hprefixes : ∀ p ∈ prefixes, OfFamily isV6 p) (hother : ∀ e ∈ other, OfFamily (!isV6) e) :
    ban ∈ survivors own prefixes ttls ↔ ban ∈ withTtls prefixes ttls ∧
      ∀ e, (e ∈ own ∨ e ∈ other) → prefixContainsOrEquals e ban.1 = false := by
  rw [survivors, List.mem_filter, Bool.not_eq_true', excluded, List.any_eq_false]
  apply and_congr_right
  intro hban
  have hfamily := hprefixes ban.1 (fst_mem_of_withTtls hban)
  constructor
  · rintro h e (he | he)
    · exact Bool.eq_false_iff.mpr (h e he)
    · exact (containsOrEquals_other_family hfamily (hother e he)).2
  · exact fun h e he => Bool.eq_false_iff.mp (h e (.inl he))

/-- A ban is dropped exactly for an exclusion that contains it, although it is only compared with
the exclusions of its family. -/
theorem mem_applyExclusions_iff (s : ExclusionSources) (new : List LapiDecision) (ban : Prefix × ℤ) :
    ban ∈ bansOf (applyExclusions (parseLAPIStream new) s.buildExclusionSet).1 ↔
      ban ∈ bansOf (parseLAPIStream new) ∧
      ∀ e ∈ s.exclusions, prefixContainsOrEquals e ban.1 = false := by
  obtain ⟨hbans4, hbans6⟩ := parseLAPIStream_family new
  obtain ⟨hex4, hex6⟩ := buildExclusionSet_family s.exclusions
  rw [← buildExclusionSet_eq] at hex4 hex6
  have hall : ∀ e, (e ∈ s.buildExclusionSet.v4 ∨ e ∈ s.buildExclusionSet.v6) ↔ e ∈ s.exclusions := by
    intro e
    rw [ExclusionSources.buildExclusionSet, mem_foldl_appendToFamily]
    simp
  have hall' : ∀ e, (e ∈ s.buildExclusionSet.v6 ∨ e ∈ s.buildExclusionSet.v4) ↔ e ∈ s.exclusions :=
    fun e => or_comm.trans (hall e)
  simp only [bansOf, applyExclusions, List.mem_append, withTtls_filterFamily, mem_survivors hbans4 hex6,
    mem_survivors hbans6 hex4, hall, hall', or_and_right]

/-! ## The trusted ranges -/

def trustedRange (spec : Text) : Option (Canonical × Family) :=
  if spec = [] then none else parseIPOrCIDR (reading (trim isSpace spec))

def Holds (c : Canonical) (a : Addr) : Prop :=
  (Prefix.mk c.addr c.bits c.bits_le).contains a = true

/-- A prefix without white space around it, which is not a mapped address with less than the length
of the mapping. -/
def WellSpelled (spec : Text) : Prop :=
  trim isSpace spec = spec ∧ ∃ p, reading spec = .cidr p ∧ (Normal p ∨ 96 ≤ p.bits)

theorem reading_eq_cidr_iff {s : Text} : reading s = .cidr p ↔ parsePrefix s = some p := by
  unfold reading
  cases hparse : parsePrefix s with
  | some q =>
    constructor
    · intro h
      cases h
      rfl
    · intro h
      cases h
      rfl
  | none =>
    cases parseAddr s with
    | none => exact iff_of_false (fun h => nomatch h) (fun h => nomatch h)
    | some r => exact iff_of_false (fun h => nomatch h) (fun h => nomatch h)

theorem mapped_of_unmap (h : ¬ a.unmap = a) :
    ∃ n : BitVec 128, a = .v6 n ∧ n.toNat / 2 ^ 32 = 0xffff := by
  cases a with
  | v4 n => exact absurd rfl h
  | v6 n =>
    refine ⟨n, rfl, ?_⟩
    by_contra hnot
    exact h (Addr.unmap_v6 hnot)

theorem unmap_mapped {n : BitVec 128} (h : n.toNat / 2 ^ 32 = 0xffff) :
    (Addr.v6 n).unmap = .v4 (BitVec.ofNat 32 n.toNat) := if_pos h

theorem contains_v4_iff {q : Prefix} {k m : BitVec 32} (haddr : q.addr = .v4 k) :
    q.contains (.v4 m) = true ↔ head 32 q.bits m.toNat = head 32 q.bits k.toNat := by
  obtain ⟨addr, bits, hle⟩ := q
  subst haddr
  unfold Prefix.contains
  rw [Bool.and_eq_true, decide_eq_true_eq, decide_eq_true_eq]
  exact and_iff_right rfl

/-- A mapped prefix that is long enough keeps its addresses when the mapping is taken away. -/
theorem unmapPrefix_contains (hmapped : ¬ Normal p) (hbits : 96 ≤ p.bits)
    (ha : p.contains a = true) : (unmapPrefix p).contains a.unmap = true := by
  obtain ⟨addr, bits, hle⟩ := p
  obtain ⟨n, rfl, hn⟩ := mapped_of_unmap hmapped
  change 96 ≤ bits at hbits
  have hle' : bits ≤ 128 := hle
  unfold Prefix.contains at ha
  rw [Bool.and_eq_true, decide_eq_true_eq, decide_eq_true_eq] at ha
  obtain ⟨hfamily, hhead⟩ := ha
  cases a with
  | v4 m => cases hfamily
  | v6 m =>
    change head 128 bits m.toNat = head 128 bits n.toNat at hhead
    have hm : m.toNat / 2 ^ 32 = 0xffff := by
      have h96 : head 128 96 m.toNat = head 128 96 n.toNat := head_eq_of_le hbits hle' hhead
      exact h96.trans hn
    have haddr : (unmapPrefix ⟨.v6 n, bits, hle⟩).addr = .v4 (BitVec.ofNat 32 n.toNat) := by
      rw [unmapPrefix_addr]
      exact unmap_mapped hn
    have hlength : (unmapPrefix ⟨.v6 n, bits, hle⟩).bits = bits - 96 := by
      have hunmapped : unmapPrefix ⟨.v6 n, bits, hle⟩ =
          ⟨(Addr.v6 n).unmap, min (bits - 96) 32, Prefix.unmapped_bits_le ⟨.v6 n, bits, hle⟩⟩ :=
        if_neg hmapped
      rw [hunmapped]
      exact Nat.min_eq_left (by omega)
    have hhost : 32 - (bits - 96) = 128 - bits := by omega
    have hpow : 2 ^ 32 = 2 ^ (128 - bits) * 2 ^ (bits - 96) := by
      rw [← Nat.pow_add]
      congr 1
      omega
    rw [unmap_mapped hm, contains_v4_iff haddr, hlength]
    change (m.toNat % 2 ^ 32) / 2 ^ (32 - (bits - 96)) = (n.toNat % 2 ^ 32) / 2 ^ (32 - (bits - 96))
    unfold head at hhead
    rw [hhost, hpow, Nat.mod_mul_right_div_self, Nat.mod_mul_right_div_self, hhead]

/-- A mapped prefix that is too short holds an address that is not mapped. -/
theorem exists_not_mapped (hmapped : ¬ Normal p) (hbits : p.bits < 96) :
    ∃ a, p.contains a = true ∧ a.unmap = a ∧ a.is4 = false := by
  obtain ⟨addr, bits, hle⟩ := p
  obtain ⟨n, rfl, hn⟩ := mapped_of_unmap hmapped
  change bits < 96 at hbits
  have hnumber : (BitVec.ofNat 128 (0xfffe * 2 ^ 32)).toNat = 0xfffe * 2 ^ 32 := rfl
  refine ⟨.v6 (BitVec.ofNat 128 (0xfffe * 2 ^ 32)), ?_, ?_, rfl⟩
  · have hpow : 2 ^ (128 - bits) = 2 ^ 32 * (2 * 2 ^ (95 - bits)) := by
      rw [← Nat.pow_succ', ← Nat.pow_add]
      congr 1
      omega
    unfold Prefix.contains
    rw [Bool.and_eq_true, decide_eq_true_eq, decide_eq_true_eq]
    refine ⟨rfl, ?_⟩
    change head 128 bits (BitVec.ofNat 128 (0xfffe * 2 ^ 32)).toNat = head 128 bits n.toNat
    have hdiv : ∀ x, x / 2 ^ (128 - bits) = x / 2 ^ 32 / 2 / 2 ^ (95 - bits) := by
      intro x
      rw [hpow, Nat.div_div_eq_div_mul, Nat.div_div_eq_div_mul]
    unfold head
    rw [hdiv, hdiv, hn, hnumber, Nat.mul_div_cancel _ (Nat.pow_pos (by omega))]
  · apply Addr.unmap_v6
    rw [hnumber, Nat.mul_div_cancel _ (Nat.pow_pos (by omega))]
    omega

/-! ## Which spellings are covered -/

section Covered

variable {spec : Text} {c : Canonical} {f : Family}

theorem trustedRange_cidr {p : Prefix} (htrusted : trustedRange spec = some (c, f))
    (hparse : parsePrefix spec = some p) (a : Addr) : Holds c a ↔ p.contains a = true := by
  unfold trustedRange at htrusted
  rw [trim_of_parsePrefix hparse, reading_eq_cidr_iff.mpr hparse] at htrusted
  split at htrusted
  · cases htrusted
  · change canonicalisePrefix p = some (c, f) at htrusted
    unfold canonicalisePrefix at htrusted
    split at htrusted
    · cases htrusted
    · obtain ⟨rfl, -⟩ := Prod.mk.inj (Option.some.inj htrusted)
      change p.masked.contains a = true ↔ _
      rw [contains_masked]

theorem wellSpelled_iff : WellSpelled spec ↔ ∃ p, parsePrefix spec = some p ∧
    (Normal p ∨ 96 ≤ p.bits) := by
  constructor
  · rintro ⟨-, p, hread, hp⟩
    exact ⟨p, reading_eq_cidr_iff.mp hread, hp⟩
  · rintro ⟨p, hparse, hp⟩
    exact ⟨trim_of_parsePrefix hparse, p, reading_eq_cidr_iff.mpr hparse, hp⟩

theorem mem_exclusions {s : ExclusionSources} {p : Prefix} (hspec : spec ∈ s.ctrs)
    (hparse : parsePrefix spec = some p) : unmapPrefix p ∈ s.exclusions := by
  have hne : spec ≠ [] := by
    rintro rfl
    cases hparse
  unfold ExclusionSources.exclusions
  apply List.mem_append_left
  apply List.mem_append_right
  refine List.mem_filterMap.mpr ⟨spec, List.mem_filter.mpr ⟨hspec, by simpa using hne⟩, ?_⟩
  unfold parseCIDRSafely
  rw [hparse, Option.map_some]

def onlyRange (spec : Text) : ExclusionSources :=
  { serviceCIDREnv := [], nodes := [], ctrs := [spec], cpps := [] }

theorem exclusions_onlyRange (hne : spec ≠ []) :
    (onlyRange spec).exclusions = (parseCIDRSafely spec).toList := by
  unfold ExclusionSources.exclusions onlyRange
  have hfilter : [spec].filter (fun t => decide (t ≠ [])) = [spec] :=
    List.filter_cons_of_pos (by simpa using hne)
  dsimp only
  rw [hfilter]
  cases hparse : parseCIDRSafely spec with
  | none => simp [hparse]
  | some p => simp [hparse]

/-- The exclusions hold a trusted range, whatever else they are made of, just when its text is a
prefix without white space that is not mapped with less than the length of the mapping. -/
theorem trusted_range_excluded_iff (spec : Text) (c : Canonical) (f : Family)
    (htrusted : trustedRange spec = some (c, f)) :
    (∀ s : ExclusionSources, spec ∈ s.ctrs → ∀ a, Holds c a → Excludes s.buildExclusionSet a) ↔
      WellSpelled spec := by
  rw [wellSpelled_iff]
  constructor
  · intro h
    have hne : spec ≠ [] := by
      rintro rfl
      cases htrusted
    have honly := h (onlyRange spec) List.mem_cons_self
    simp only [excludes_iff, exclusions_onlyRange hne] at honly
    unfold parseCIDRSafely at honly
    cases hparse : parsePrefix spec with
    | none =>
      rw [hparse] at honly
      obtain ⟨e, he, -⟩ := honly c.addr (Prefix.contains_addr _)
      cases he
    | some p =>
      refine ⟨p, rfl, ?_⟩
      by_contra hbad
      rw [not_or, Nat.not_le] at hbad
      obtain ⟨a, ha, hunmap, hfamily⟩ := exists_not_mapped hbad.1 hbad.2
      rw [hparse] at honly
      obtain ⟨e, he, hcontains⟩ := honly a ((trustedRange_cidr htrusted hparse a).mpr ha)
      rw [hunmap, or_self] at hcontains
      rw [Option.map_some, Option.toList_some, List.mem_singleton] at he
      obtain ⟨n, hn, hmapped⟩ := mapped_of_unmap hbad.1
      have his4 : e.addr.is4 = true := by
        rw [he, unmapPrefix_addr, hn, unmap_mapped hmapped]
        rfl
      have hsame := ((Prefix.contains_iff rfl).mp hcontains).1
      rw [his4, hfamily] at hsame
      cases hsame
  · rintro ⟨p, hparse, hp⟩ s hspec a ha
    rw [trustedRange_cidr htrusted hparse] at ha
    refine excludes_iff.mpr ⟨_, mem_exclusions hspec hparse, ?_⟩
    by_cases hnormal : Normal p
    · left
      rw [unmapPrefix_of_normal hnormal]
      exact ha
    · right
      exact unmapPrefix_contains hnormal (hp.resolve_left hnormal) ha

end Covered

def privateNetwork : Prefix := { addr := .v4 0x0a000000, bits := 8, bits_le := Nat.le_add_right 8 24 }

theorem privateNetwork_excluded :
    trustedRange "10.0.0.0/8".toList = some (Prefix.canonical privateNetwork, .v4) ∧
      ∀ s : ExclusionSources, "10.0.0.0/8".toList ∈ s.ctrs →
        ∀ a, Holds (Prefix.canonical privateNetwork) a → Excludes s.buildExclusionSet a := by
  have htrusted : trustedRange "10.0.0.0/8".toList = some (Prefix.canonical privateNetwork, .v4) := by
    decide +kernel
  have hparse : parsePrefix "10.0.0.0/8".toList = some privateNetwork := by decide +kernel
  have hwell : WellSpelled "10.0.0.0/8".toList := wellSpelled_iff.mpr ⟨_, hparse, .inl rfl⟩
  exact ⟨htrusted, (trusted_range_excluded_iff _ _ _ htrusted).mpr hwell⟩

def officeHost : Prefix := { addr := .v4 0xcb007107, bits := 32, bits_le := Nat.le_refl 32 }

/-- A bare address is trusted by the firewall and may be banned. -/
theorem bare_address_bannable : ¬ ∀ (s : ExclusionSources) (spec : Text) (c : Canonical) (f : Family),
    spec ∈ s.ctrs → trustedRange spec = some (c, f) →
    ∀ a, Holds c a → Excludes s.buildExclusionSet a := by
  intro hall
  have htrusted : trustedRange "203.0.113.7".toList = some (Prefix.canonical officeHost, .v4) := by
    decide +kernel
  have hnone : (onlyRange "203.0.113.7".toList).exclusions = [] := by decide +kernel
  have hexcluded := hall (onlyRange "203.0.113.7".toList) _ _ _ List.mem_cons_self htrusted
    officeHost.addr (Prefix.contains_addr _)
  obtain ⟨e, he, -⟩ := excludes_iff.mp hexcluded
  rw [hnone] at he
  cases he

end Insula.TrustedExclusions
