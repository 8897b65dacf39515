import Insula.BlacklistProtection
import Insula.CrowdsecTicks
import Insula.TenantPorts

/-!
# Which interval sets are written disjoint

The sources of an interval set are only compared as texts, so two entries that overlap are both
written. The intervals of a set are pairwise disjoint just when the accepted entries do not overlap.
-/

namespace Insula.IntervalSets

open CrowdsecL4 Networks Nft Firewall TenantPorts

/-- The intervals of the elements of a set, whose keys have `w` bits, are pairwise disjoint. -/
def Disjoint (w : ℕ) (elements : List SetElement) : Prop :=
  (intervals elements).Pairwise (Interval.Disjoint w)

/-! ## Pairs of a list -/

/-- What is left of a list without repetitions is pairwise related just when different members
are. -/
theorem pairwise_filterMap_iff {α β : Type} {R : β → β → Prop} (hsymm : ∀ {x y}, R x y → R y x)
    {f : α → Option β} {l : List α} (hnodup : l.Nodup) : (l.filterMap f).Pairwise R ↔
      ∀ a ∈ l, ∀ b ∈ l, a ≠ b → ∀ x y, f a = some x → f b = some y → R x y := by
  rw [List.pairwise_filterMap]
  constructor
  · intro h a ha b hb hne
    have : Std.Symm fun a b => ∀ x, f a = some x → ∀ y, f b = some y → R x y :=
      ⟨fun _ _ hab x hx y hy => hsymm (hab y hy x hx)⟩
    exact fun x y hx hy => h.forall ha hb hne x hx y hy
  · intro h
    refine List.Pairwise.imp_of_mem ?_ hnodup
    intro a b ha hb hab x hx y hy
    exact h a ha b hb hab x y hx hy

/-! ## Networks -/

variable {p q : Prefix}

theorem spans_of_meet {n : ℕ} (hp : p.bits ≠ 0) (hq : q.bits ≠ 0)
    (hfamily : p.addr.is4 = q.addr.is4) (hn : n < 2 ^ p.addr.bitLen)
    (hpn : (network p.masked).Mem n) (hqn : (network q.masked).Mem n) : p.Spans q ∨ q.Spans p := by
  have ha : p.addr.is4 = (p.addr.withNumber n).is4 := (Addr.is4_withNumber _ _).symm
  have hnumber : (p.addr.withNumber n).number = n := Addr.number_withNumber hn
  rw [← hnumber] at hpn hqn
  exact Prefix.spans_or_spans ((contains_iff_mem_network hp ha).mpr hpn)
    ((contains_iff_mem_network hq (hfamily.symm.trans ha)).mpr hqn)

theorem meet_of_spans (hp : p.bits ≠ 0) (hq : q.bits ≠ 0) (h : p.Spans q) :
    (network p.masked).Mem q.addr.number ∧ (network q.masked).Mem q.addr.number :=
  ⟨(contains_iff_mem_network hp h.1).mp (h.contains q.contains_addr),
    (contains_iff_mem_network hq rfl).mp q.contains_addr⟩

/-- Networks have disjoint intervals just when neither lies in the other. -/
theorem disjoint_network_iff {w : ℕ} (hp : p.bits ≠ 0) (hq : q.bits ≠ 0) (hpw : p.addr.bitLen = w)
    (hqw : q.addr.bitLen = w) (hfamily : p.addr.is4 = q.addr.is4) :
    (network p.masked).Disjoint w (network q.masked) ↔ ¬ p.Spans q ∧ ¬ q.Spans p := by
  have hpn := p.addr.number_lt
  have hqn := q.addr.number_lt
  rw [hpw] at hpn
  rw [hqw] at hqn
  constructor
  · intro h
    constructor
    · intro hspans
      obtain ⟨hmp, hmq⟩ := meet_of_spans hp hq hspans
      exact h _ hqn hmp hmq
    · intro hspans
      obtain ⟨hmq, hmp⟩ := meet_of_spans hq hp hspans
      exact h _ hpn hmp hmq
  · rintro ⟨hpq, hqp⟩ n hn hnp hnq
    rw [← hpw] at hn
    rcases spans_of_meet hp hq hfamily hn hnp hnq with h | h
    · exact hpq h
    · exact hqp h

def Unnested (accepted : Prefix → Prop) : Prop :=
  ∀ p q, accepted p → accepted q → p ≠ q → ¬ p.Spans q

/-- Texts for sets of networks, where every member of a family's set stands for an accepted
prefix. -/
structure Lists (accepted : Prefix → Prop) (cidrs : Bool → List Canonical) : Prop where
  nodup : ∀ isV6, (cidrs isV6).Nodup
  written_iff : ∀ {isV6 p}, (∃ c ∈ cidrs isV6, writtenPrefix isV6 c = some p) ↔
    accepted p ∧ p.addr.is4 = !isV6
  bits_ne : ∀ {p}, accepted p → p.bits ≠ 0

def keyBits (isV6 : Bool) : ℕ := if isV6 then 128 else 32

theorem bitLen_of_family {isV6 : Bool} (h : p.addr.is4 = !isV6) : p.addr.bitLen = keyBits isV6 := by
  cases hp : p.addr with
  | v4 n =>
    rw [hp] at h
    cases isV6 with
    | true => cases h
    | false => rfl
  | v6 n =>
    rw [hp] at h
    cases isV6 with
    | true => rfl
    | false => cases h

theorem canonical_eq {c d : Canonical} (hc : c.parsePrefix = some p) (hd : d.parsePrefix = some p) :
    c = d := by
  unfold Canonical.parsePrefix at hc hd
  split at hc
  · split at hd
    · rename_i hcz hdz
      obtain rfl := Option.some.inj hc
      obtain ⟨haddr, hbits⟩ := Prefix.mk.inj (Option.some.inj hd)
      cases c
      cases d
      subst hcz hdz haddr hbits
      rfl
    · cases hd
  · cases hc

theorem Lists.disjoint_iff {accepted : Prefix → Prop} {cidrs : Bool → List Canonical}
    (h : Lists accepted cidrs) :
    (∀ isV6, Disjoint (keyBits isV6) (cidrsToElements (cidrs isV6) isV6)) ↔ Unnested accepted := by
  have hset : ∀ isV6, Disjoint (keyBits isV6) (cidrsToElements (cidrs isV6) isV6) ↔
      ∀ p q, accepted p → accepted q → p.addr.is4 = (!isV6) → q.addr.is4 = (!isV6) → p ≠ q →
        ¬ p.Spans q := by
    intro isV6
    unfold Disjoint
    rw [intervals_cidrsToElements, List.pairwise_map,
      pairwise_filterMap_iff (fun hxy => hxy.symm) (h.nodup isV6)]
    constructor
    · intro hall p q hp hq hp4 hq4 hne
      obtain ⟨c, hc, hcp⟩ := h.written_iff.mpr ⟨hp, hp4⟩
      obtain ⟨d, hd, hdq⟩ := h.written_iff.mpr ⟨hq, hq4⟩
      have hcd : c ≠ d := by
        rintro rfl
        exact hne (Option.some.inj (hcp.symm.trans hdq))
      have hdisjoint := hall c hc d hd hcd p q hcp hdq
      exact ((disjoint_network_iff (h.bits_ne hp) (h.bits_ne hq) (bitLen_of_family hp4)
        (bitLen_of_family hq4) (hp4.trans hq4.symm)).mp hdisjoint).1
    · intro hall c hc d hd hcd p q hcp hdq
      obtain ⟨hp, hp4⟩ := h.written_iff.mp ⟨c, hc, hcp⟩
      obtain ⟨hq, hq4⟩ := h.written_iff.mp ⟨d, hd, hdq⟩
      have hne : p ≠ q := by
        rintro rfl
        exact hcd (canonical_eq (writtenPrefix_eq_some_iff.mp hcp).1
          (writtenPrefix_eq_some_iff.mp hdq).1)
      exact (disjoint_network_iff (h.bits_ne hp) (h.bits_ne hq) (bitLen_of_family hp4)
        (bitLen_of_family hq4) (hp4.trans hq4.symm)).mpr
          ⟨hall p q hp hq hp4 hq4 hne, hall q p hq hp hq4 hp4 hne.symm⟩
  constructor
  · intro hall p q hp hq hne hspans
    cases hfamily : p.addr.is4 with
    | true =>
      exact (hset false).mp (hall false) p q hp hq hfamily (hspans.1.symm.trans hfamily) hne hspans
    | false =>
      exact (hset true).mp (hall true) p q hp hq hfamily (hspans.1.symm.trans hfamily) hne hspans
  · intro hunnested isV6
    exact (hset isV6).mpr fun p q hp hq _ _ hne => hunnested p q hp hq hne

/-! ## The sets of networks -/

/-- A trusted range is accepted as this prefix. -/
def Trusted (s : Sources) (p : Prefix) : Prop :=
  ∃ spec, some spec ∈ s.ctrs ∧ spec.proposed = some p

def Sources.trustedOf (s : Sources) (isV6 : Bool) : List Canonical :=
  if isV6 then s.peers.trustedV6 else s.peers.trustedV4

theorem mem_trusted_iff {s : Sources} {c : Canonical} {family : Family} :
    c ∈ uniqueSorted Canonical.text (Firewall.ofFamily family s.trusted) ↔
      ∃ spec, some spec ∈ s.ctrs ∧ parseIPOrCIDR spec = some (c, family) := by
  rw [mem_uniqueSorted]
  unfold Firewall.ofFamily Sources.trusted
  rw [List.mem_map]
  constructor
  · rintro ⟨⟨c', f⟩, hmem, rfl⟩
    obtain ⟨hmem, hf⟩ := List.mem_filter.mp hmem
    obtain ⟨entry, hentry, hparse⟩ := List.mem_filterMap.mp hmem
    obtain ⟨spec, rfl, hparse⟩ := Option.bind_eq_some_iff.mp hparse
    obtain rfl : f = family := of_decide_eq_true hf
    exact ⟨spec, hentry, hparse⟩
  · rintro ⟨spec, hspec, hparse⟩
    refine ⟨(c, family), List.mem_filter.mpr ⟨?_, decide_eq_true rfl⟩, rfl⟩
    exact List.mem_filterMap.mpr ⟨some spec, hspec, hparse⟩

theorem family_eq_of_is4 {isV6 : Bool} {a : Addr} (h : a.is4 = !isV6) :
    Addr.family a = if isV6 then .v6 else .v4 := by
  unfold Addr.family
  rw [h]
  cases isV6 with
  | true => rfl
  | false => rfl

theorem proposed_bits_ne {spec : Reading} (h : spec.proposed = some p) : p.bits ≠ 0 := by
  obtain ⟨⟨c, f⟩, hparse, hread⟩ := Option.bind_eq_some_iff.mp h
  exact (parse_spec hparse hread).1

theorem trusted_lists (s : Sources) : Lists (Trusted s) (Sources.trustedOf s) where
  nodup isV6 := by
    cases isV6 with
    | true => exact nodup_uniqueSorted _ _
    | false => exact nodup_uniqueSorted _ _
  written_iff := by
    intro isV6 p
    have hmem : ∀ c, c ∈ Sources.trustedOf s isV6 ↔ ∃ spec, some spec ∈ s.ctrs ∧
        parseIPOrCIDR spec = some (c, if isV6 then Family.v6 else .v4) := by
      intro c
      cases isV6 with
      | true => exact mem_trusted_iff
      | false => exact mem_trusted_iff
    constructor
    · rintro ⟨c, hc, hwritten⟩
      obtain ⟨spec, hspec, hparse⟩ := (hmem c).mp hc
      obtain ⟨hread, his4⟩ := writtenPrefix_eq_some_iff.mp hwritten
      exact ⟨⟨spec, hspec, Option.bind_eq_some_iff.mpr ⟨_, hparse, hread⟩⟩, his4⟩
    · rintro ⟨⟨spec, hspec, hproposed⟩, his4⟩
      obtain ⟨⟨c, f⟩, hparse, hread⟩ := Option.bind_eq_some_iff.mp hproposed
      obtain rfl := (parse_spec hparse hread).2
      rw [family_eq_of_is4 his4] at hparse
      exact ⟨c, (hmem c).mpr ⟨spec, hspec, hparse⟩, writtenPrefix_eq_some_iff.mpr ⟨hread, his4⟩⟩
  bits_ne := by
    rintro p ⟨spec, -, hproposed⟩
    exact proposed_bits_ne hproposed

def blacklistOf (s : Sources) (isV6 : Bool) : List Canonical :=
  s.blacklist.ofFamily (if isV6 then .v6 else .v4)

theorem blacklist_lists (s : Sources) : Lists (Accepted s.protection s.cfbs) (blacklistOf s) where
  nodup isV6 := by
    cases isV6 with
    | true => exact nodup_uniqueSorted _ _
    | false => exact nodup_uniqueSorted _ _
  written_iff := mem_written_iff
  bits_ne := Accepted.bits_ne

/-! ## The sets of ports -/

/-- Texts of a set that are written differently name ranges that lie apart. -/
def PortsApart (texts : List Text) : Prop :=
  ∀ s ∈ texts, ∀ t ∈ texts, s ≠ t → ∀ r u, parsePortOrRange s = some r →
    parsePortOrRange t = some u → r.2 < u.1 ∨ u.2 < r.1

theorem disjoint_ports_iff (texts : List Text) :
    Disjoint 16 (portsToElements (sortedKeys texts)) ↔ PortsApart texts := by
  unfold Disjoint PortsApart
  rw [intervals_portsToElements, List.pairwise_map]
  have hsymm : ∀ {r u : ℕ × ℕ}, (portInterval r).Disjoint 16 (portInterval u) →
      (portInterval u).Disjoint 16 (portInterval r) := fun h => h.symm
  apply (pairwise_filterMap_iff hsymm (nodup_uniqueSorted id texts)).trans
  simp only [mem_uniqueSorted]
  constructor
  · intro h s hs t ht hne r u hr hu
    exact (disjoint_portInterval_iff (parsePortOrRange_valid hr) (parsePortOrRange_valid hu)).mp
      (h s hs t ht hne r u hr hu)
  · intro h s hs t ht hne r u hr hu
    exact (disjoint_portInterval_iff (parsePortOrRange_valid hr) (parsePortOrRange_valid hu)).mpr
      (h s hs t ht hne r u hr hu)

/-! ## The sets of bans -/

/-- The elements of the network of all addresses leave out the last one, which is this network. -/
def LastAddress (p q : Prefix) : Prop :=
  p.bits = 0 ∧ q.masked.addr.number = 2 ^ q.addr.bitLen - 1

/-- One of two bans lies in the other and is not what the other leaves out. -/
def Meet (p q : Prefix) : Prop :=
  (p.Spans q ∧ ¬ LastAddress p q) ∨ (q.Spans p ∧ ¬ LastAddress q p)

instance (p q : Prefix) : Decidable (LastAddress p q) := inferInstanceAs (Decidable (_ ∧ _))

theorem elementsOf_eq (ban : Prefix × ℤ) :
    elementsOf ban = pair (network ban.1.masked) (min ban.2 maxTtl) := rfl

theorem intervals_crowdsec (prefixes : List Prefix) (ttls : List ℤ) (isV6 : Bool) :
    intervals (crowdsecPrefixesToElements prefixes ttls isV6) =
      (writtenOf isV6 prefixes ttls).map fun ban => network ban.1.masked := by
  rw [crowdsecPrefixesToElements_eq]
  exact intervals_flatMap elementsOf_eq _

theorem one_lt_addresses (p : Prefix) : 1 < 2 ^ p.addr.bitLen := by
  have hlen := p.addr.bitLen_ge
  exact Nat.one_lt_two_pow (by omega)

theorem mem_network_zero (hbits : p.bits = 0) {n : ℕ} :
    (network p.masked).Mem n ↔ n < 2 ^ p.addr.bitLen - 1 := by
  have hfirst : p.masked.addr.number = 0 := by
    rw [masked_number, hbits]
    unfold cleared head
    rw [Nat.sub_zero, Nat.div_eq_of_lt p.addr.number_lt, Nat.zero_mul]
  have hlast : nextNetwork p.masked.addr p.masked.bits = 2 ^ p.addr.bitLen - 1 := by
    unfold nextNetwork
    rw [masked_bits, if_pos hbits, masked_bitLen]
  have hmany := one_lt_addresses p
  unfold network Interval.Mem
  dsimp only
  rw [hfirst, hlast]
  omega

theorem first_mem_network (q : Prefix) : (network q.masked).Mem q.masked.addr.number := by
  by_cases hbits : q.bits = 0
  · rw [mem_network_zero hbits, masked_number, hbits]
    have hmany := one_lt_addresses q
    unfold cleared head
    rw [Nat.sub_zero, Nat.div_eq_of_lt q.addr.number_lt, Nat.zero_mul]
    omega
  · have hlt : q.masked.addr.number < 2 ^ q.addr.bitLen := by
      have := q.masked.addr.number_lt
      rwa [masked_bitLen] at this
    rw [mem_network hbits hlt, masked_number]
    exact head_cleared _ _ _

theorem disjoint_network_zero_iff (hbits : p.bits = 0) (hlen : q.addr.bitLen = p.addr.bitLen) :
    (network p.masked).Disjoint p.addr.bitLen (network q.masked) ↔ LastAddress p q := by
  have hlt := q.masked.addr.number_lt
  rw [masked_bitLen, hlen] at hlt
  unfold LastAddress
  rw [hlen]
  constructor
  · intro h
    refine ⟨hbits, ?_⟩
    by_contra hne
    refine h _ hlt ?_ (first_mem_network q)
    rw [mem_network_zero hbits]
    omega
  · rintro ⟨-, hlast⟩ n hn hp hq
    rw [mem_network_zero hbits] at hp
    have hle : q.masked.addr.number ≤ n := hq.1
    omega

theorem spans_of_zero (hbits : p.bits = 0) (hfamily : p.addr.is4 = q.addr.is4) : p.Spans q := by
  have hq := q.addr.number_lt
  rw [← Addr.bitLen_eq hfamily] at hq
  refine ⟨hfamily, by rw [hbits]; exact Nat.zero_le _, ?_⟩
  unfold head
  rw [hbits, Nat.sub_zero, Nat.div_eq_of_lt hq, Nat.div_eq_of_lt p.addr.number_lt]

theorem not_lastAddress_of_zero (hbits : q.bits = 0) : ¬ LastAddress p q := by
  rintro ⟨-, hlast⟩
  have hmany := one_lt_addresses q
  have hfirst := first_mem_network q
  rw [mem_network_zero hbits] at hfirst
  omega

theorem meet_of_zero_iff (hbits : p.bits = 0) (hfamily : p.addr.is4 = q.addr.is4) :
    Meet p q ↔ ¬ LastAddress p q := by
  constructor
  · rintro (h | ⟨hspans, -⟩)
    · exact h.2
    · have hzero : q.bits = 0 := Nat.eq_zero_of_le_zero (hbits ▸ hspans.2.1)
      exact not_lastAddress_of_zero hzero
  · exact fun h => .inl ⟨spans_of_zero hbits hfamily, h⟩

theorem meet_comm : Meet p q ↔ Meet q p := or_comm

theorem disjoint_bans_iff (hfamily : p.addr.is4 = q.addr.is4) :
    (network p.masked).Disjoint p.addr.bitLen (network q.masked) ↔ ¬ Meet p q := by
  have hlen : q.addr.bitLen = p.addr.bitLen := Addr.bitLen_eq hfamily.symm
  by_cases hp : p.bits = 0
  · rw [disjoint_network_zero_iff hp hlen, meet_of_zero_iff hp hfamily, not_not]
  · by_cases hq : q.bits = 0
    · have hswap : (network p.masked).Disjoint p.addr.bitLen (network q.masked) ↔
          (network q.masked).Disjoint q.addr.bitLen (network p.masked) := by
        rw [hlen]
        exact ⟨fun h => h.symm, fun h => h.symm⟩
      rw [hswap, disjoint_network_zero_iff hq hlen.symm, meet_comm,
        meet_of_zero_iff hq hfamily.symm, not_not]
    · rw [disjoint_network_iff hp hq rfl hlen hfamily]
      have hp' : ¬ LastAddress p q := fun h => hp h.1
      have hq' : ¬ LastAddress q p := fun h => hq h.1
      unfold Meet
      rw [and_iff_left hp', and_iff_left hq', not_or]

theorem disjoint_crowdsec_iff (prefixes : List Prefix) (ttls : List ℤ) (isV6 : Bool) :
    Disjoint (keyBits isV6) (crowdsecPrefixesToElements prefixes ttls isV6) ↔
      (writtenOf isV6 prefixes ttls).Pairwise fun b c => ¬ Meet b.1 c.1 := by
  unfold Disjoint
  rw [intervals_crowdsec, List.pairwise_map]
  have hfamily : ∀ ban ∈ writtenOf isV6 prefixes ttls, ban.1.addr.is4 = !isV6 := by
    intro ban hban
    have hwritable := (List.mem_filter.mp hban).2
    unfold writable at hwritable
    rw [Bool.and_eq_true] at hwritable
    cases isV6 with
    | true => simpa using hwritable.1
    | false => simpa using hwritable.1
  have hiff : ∀ {b c}, b ∈ writtenOf isV6 prefixes ttls → c ∈ writtenOf isV6 prefixes ttls →
      (Interval.Disjoint (keyBits isV6) (network b.1.masked) (network c.1.masked) ↔
        ¬ Meet b.1 c.1) := by
    intro b c hb hc
    have := disjoint_bans_iff ((hfamily b hb).trans (hfamily c hc).symm)
    rwa [bitLen_of_family (hfamily b hb)] at this
  exact List.Pairwise.iff_of_mem hiff

/-! ## All interval sets -/

structure Inputs where
  sources : Sources
  nodeName : Text
  nses : NamespaceLister
  pods : List Pod
  crowdsec : CrowdsecReconciler
  feed : Feed

namespace Inputs

variable (i : Inputs)

/-- Every element batch for one interval set denotes pairwise disjoint intervals. -/
structure WrittenDisjoint : Prop where
  trusted : ∀ isV6, Disjoint (keyBits isV6)
    (cidrsToElements (Sources.trustedOf i.sources isV6) isV6)
  blacklist : ∀ isV6, Disjoint (keyBits isV6) (cidrsToElements (blacklistOf i.sources isV6) isV6)
  tcp : Disjoint 16 (portsToElements (reconcileOnce i.nodeName i.nses i.pods).tcp)
  udp : Disjoint 16 (portsToElements (reconcileOnce i.nodeName i.nses i.pods).udp)
  bans : ∀ s, i.crowdsec.handed i.feed = some s →
    Disjoint 32 (applyCrowdsecBlocklist s).v4 ∧ Disjoint 128 (applyCrowdsecBlocklist s).v6

def bansOf (isV6 : Bool) : List (Prefix × ℤ) :=
  let bl := parseLAPIStream i.feed.decisions
  if isV6 then reached i.feed.sorter true i.feed.exclusionSet.v6 bl.v6 bl.ttlv6
  else reached i.feed.sorter false i.feed.exclusionSet.v4 bl.v4 bl.ttlv4

structure EntriesApart : Prop where
  trusted : Unnested (Trusted i.sources)
  blacklist : Unnested (Accepted i.sources.protection i.sources.cfbs)
  tcp : PortsApart (collect i.nodeName i.nses i.pods).tcp
  udp : PortsApart (collect i.nodeName i.nses i.pods).udp
  bans : i.crowdsec.handed i.feed ≠ none →
    ∀ isV6, (i.bansOf isV6).Pairwise fun b c => ¬ Meet b.1 c.1

theorem disjoint_bans_of_handed_iff {s : CrowdsecBlocklist}
    (h : i.crowdsec.handed i.feed = some s) :
    (Disjoint 32 (applyCrowdsecBlocklist s).v4 ∧ Disjoint 128 (applyCrowdsecBlocklist s).v6) ↔
      ∀ isV6, (i.bansOf isV6).Pairwise fun b c => ¬ Meet b.1 c.1 := by
  obtain ⟨-, -, rfl⟩ := CrowdsecReconciler.handed_eq_some h
  have h4 := disjoint_crowdsec_iff (capped i.feed.sorter (parseLAPIStream i.feed.decisions)
    i.feed.exclusionSet).v4 (capped i.feed.sorter (parseLAPIStream i.feed.decisions)
    i.feed.exclusionSet).ttlv4 false
  have h6 := disjoint_crowdsec_iff (capped i.feed.sorter (parseLAPIStream i.feed.decisions)
    i.feed.exclusionSet).v6 (capped i.feed.sorter (parseLAPIStream i.feed.decisions)
    i.feed.exclusionSet).ttlv6 true
  rw [capped_eq] at h4 h6 ⊢
  unfold writtenOf at h4 h6
  rw [withTtls_map] at h4 h6
  have hforall : (∀ isV6, (i.bansOf isV6).Pairwise fun b c => ¬ Meet b.1 c.1) ↔
      (i.bansOf false).Pairwise (fun b c => ¬ Meet b.1 c.1) ∧
        (i.bansOf true).Pairwise fun b c => ¬ Meet b.1 c.1 := Bool.forall_bool
  rw [hforall]
  exact and_congr h4 h6

/-- The intervals of every set are pairwise disjoint just when no accepted entry of the set overlaps
another one that is written differently. -/
theorem writtenDisjoint_iff : i.WrittenDisjoint ↔ i.EntriesApart := by
  have hbans : (∀ s, i.crowdsec.handed i.feed = some s →
      Disjoint 32 (applyCrowdsecBlocklist s).v4 ∧ Disjoint 128 (applyCrowdsecBlocklist s).v6) ↔
        (i.crowdsec.handed i.feed ≠ none →
          ∀ isV6, (i.bansOf isV6).Pairwise fun b c => ¬ Meet b.1 c.1) := by
    cases hhanded : i.crowdsec.handed i.feed with
    | none => exact iff_of_true (fun s hs => nomatch hs) (fun h => absurd rfl h)
    | some s =>
      have hiff := i.disjoint_bans_of_handed_iff hhanded
      constructor
      · exact fun h _ => hiff.mp (h s rfl)
      · intro h s' hs'
        obtain rfl := Option.some.inj hs'
        exact hiff.mpr (h (fun hnone => nomatch hnone))
  constructor
  · intro h
    exact {
      trusted := (trusted_lists i.sources).disjoint_iff.mp h.trusted
      blacklist := (blacklist_lists i.sources).disjoint_iff.mp h.blacklist
      tcp := (disjoint_ports_iff _).mp h.tcp
      udp := (disjoint_ports_iff _).mp h.udp
      bans := hbans.mp h.bans }
  · intro h
    exact {
      trusted := (trusted_lists i.sources).disjoint_iff.mpr h.trusted
      blacklist := (blacklist_lists i.sources).disjoint_iff.mpr h.blacklist
      tcp := (disjoint_ports_iff _).mpr h.tcp
      udp := (disjoint_ports_iff _).mpr h.udp
      bans := hbans.mpr h.bans }

end Inputs

/-! ### Two overlapping entries -/

def overlappingPod : Pod where
  nodeName := "n1".toList
  ns := "tenant-a".toList
  deletionTimestamp := none
  phase := .running
  containers := []
  annotations key := if key = tenantPortAnnotationTCP then some "3478,3000-4000".toList else none

def overlappingInputs : Inputs where
  sources := { now := 0, cppGrace := 300, nodes := [], cpps := [], ctrs := [], cfbs := [] }
  nodeName := "n1".toList
  nses := fun _ => none
  pods := [overlappingPod]
  crowdsec := enforcing
  feed := oneBan

/-- The port and the range around it are both written. -/
theorem port_inside_range_written : ¬ ∀ i : Inputs, i.WrittenDisjoint := by
  intro hall
  have hapart := (disjoint_ports_iff _).mp (hall overlappingInputs).tcp
  have hbelow := hapart "3478".toList (by decide) "3000-4000".toList (by decide)
    (by decide) (3478, 3478) (3000, 4000) (by decide) (by decide)
  omega

end Insula.IntervalSets
