import Insula.NftElements

/-!
# The reconcile pass of the firewall

Node addresses, pending peers, trusted ranges and blacklist entries are read from their resources,
and become the members of the peer, trusted and blacklist sets. The texts of the resources enter as
what `netip` reads in them.
-/

namespace Insula.Firewall

open CrowdsecL4 Networks Nft

/-- What `netip` reads in a trimmed text. Only a bare address may carry a zone, which is the percent
sign with what follows it. -/
inductive Reading
  | cidr (p : Prefix)
  | addr (a : Addr) (zone : Text)
  | malformed

/-! ## Validation -/

inductive Family
  | v4 | v6
deriving DecidableEq, Repr

def Addr.family (a : Addr) : Family := if a.is4 then .v4 else .v6

/-- The text `addr%zone/bits`; different values have different texts. -/
@[ext] structure Canonical where
  addr : Addr
  zone : Text
  bits : ℕ
  bits_le : bits ≤ addr.bitLen

instance : DecidableEq Canonical := fun _ _ => decidable_of_iff' _ Canonical.ext_iff

structure Bare where
  addr : Addr
  zone : Text
deriving DecidableEq

namespace Canonical

variable (c : Canonical)

def text : Text := c.addr.text ++ c.zone ++ '/' :: IpText.decimal c.bits

/-- `netip` reads no prefix with a zone. -/
def parsePrefix : Option Prefix := if c.zone = [] then some ⟨c.addr, c.bits, c.bits_le⟩ else none

def reading : Reading :=
  match c.parsePrefix with
  | some p => .cidr p
  | none => .addr c.addr (c.zone ++ '/' :: IpText.decimal c.bits)

/-- The text before the first slash, which may lie in the zone. -/
def stripPrefix : Bare := ⟨c.addr, c.zone.takeWhile (· ≠ '/')⟩

end Canonical

namespace Bare

variable (b : Bare)

def text : Text := b.addr.text ++ b.zone

def reading : Reading := if b.zone = ['%'] then .malformed else .addr b.addr b.zone

end Bare

def Prefix.canonical (p : Prefix) : Canonical := ⟨p.addr, [], p.bits, p.bits_le⟩

def unmapBare (a : Addr) (zone : Text) : Bare := ⟨a.unmap, if a.unmap.is4 then [] else zone⟩

def Bare.host (b : Bare) : Canonical := ⟨b.addr, b.zone, b.addr.bitLen, Nat.le_refl _⟩

def canonicalisePrefix (p : Prefix) : Option (Canonical × Family) :=
  if p.bits = 0 then none else some (Prefix.canonical p.masked, Addr.family p.masked.addr)

def parseIPOrCIDR : Reading → Option (Canonical × Family)
  | .cidr p => canonicalisePrefix p
  | .addr a zone => some ((unmapBare a zone).host, Addr.family a.unmap)
  | .malformed => none

def parseBareIP : Reading → Option (Canonical × Family)
  | .cidr _ => none
  | .addr a zone => some ((unmapBare a zone).host, Addr.family a.unmap)
  | .malformed => none

/-! ## Members of the sets -/

/-- The order of `sort.Strings`. -/
def textLe (s t : Text) : Bool := s.map Char.toNat ≤ t.map Char.toNat

def uniqueSorted {α : Type} [DecidableEq α] (text : α → Text) (l : List α) : List α :=
  l.dedup.mergeSort fun a b => textLe (text a) (text b)

theorem mem_uniqueSorted {α : Type} [DecidableEq α] {text : α → Text} {l : List α} {a : α} :
    a ∈ uniqueSorted text l ↔ a ∈ l := by
  unfold uniqueSorted
  rw [List.mem_mergeSort, List.mem_dedup]

theorem nodup_uniqueSorted {α : Type} [DecidableEq α] (text : α → Text) (l : List α) :
    (uniqueSorted text l).Nodup :=
  (List.mergeSort_perm _ _).nodup_iff.mpr (List.nodup_dedup l)

def networkElements (p : Prefix) : List SetElement := pair (network p) 0

def cidrElements (isV6 : Bool) (c : Canonical) : List SetElement :=
  match c.parsePrefix with
  | none => []
  | some p => if p.masked.addr.is4 = isV6 then [] else networkElements p.masked

def cidrsToElements (cidrs : List Canonical) (isV6 : Bool) : List SetElement :=
  cidrs.flatMap (cidrElements isV6)

/-! ## What the blacklist must not catch -/

/-- Nothing when the length does not fit; such a prefix neither contains another nor lies in one. -/
def prefixFrom (a : Addr) (bits : ℕ) : Option Prefix :=
  if h : bits ≤ a.bitLen then some ⟨a, bits, h⟩ else none

structure BlacklistProtection where
  prefixes : List Prefix

def protectedPrefix : Reading → Option Prefix
  | .cidr p => some (unmapPrefix p)
  | .addr a _ => prefixFrom a.unmap a.bitLen
  | .malformed => none

def buildBlacklistProtection (nodeIPs peerV4 peerV6 trustedV4 trustedV6 : List Reading) :
    BlacklistProtection where
  prefixes := (nodeIPs ++ peerV4 ++ peerV6 ++ trustedV4 ++ trustedV6).filterMap protectedPrefix

def BlacklistProtection.intersects (prot : BlacklistProtection) (proposed : Prefix) :
    Option Prefix :=
  let proposed := unmapPrefix proposed
  prot.prefixes.find? fun ex =>
    prefixContainsOrEquals proposed ex || prefixContainsOrEquals ex proposed

/-! ## The blacklist -/

/-- The condition `Ready` of an entry. -/
inductive Verdict
  /-- `InvalidSpec`: the range is empty or missing. -/
  | invalidSpec
  /-- `InvalidCidr`: `netip` refuses the text. -/
  | invalidCidr
  /-- `SelfProtect`: it overlaps this protected prefix. -/
  | selfProtect (canonical : Canonical) (family : Family) (hit : Prefix)
  /-- `Enforced`, the only one that is ready. -/
  | enforced (canonical : Canonical) (family : Family)
deriving DecidableEq

def judge (prot : BlacklistProtection) : Option Reading → Verdict
  | none => .invalidSpec
  | some spec =>
    match parseIPOrCIDR spec with
    | none => .invalidCidr
    | some (canonical, family) =>
      match canonical.parsePrefix with
      | none => .invalidCidr
      | some pre =>
        match prot.intersects pre with
        | some hit => .selfProtect canonical family hit
        | none => .enforced canonical family

def Verdict.member (family : Family) : Verdict → Option Canonical
  | .enforced canonical f => if f = family then some canonical else none
  | _ => none

structure BlacklistNftSets where
  v4 : List Canonical
  v6 : List Canonical

def reconcileBlacklist (prot : BlacklistProtection) (cfbs : List (Option Reading)) :
    BlacklistNftSets where
  v4 := uniqueSorted Canonical.text ((cfbs.map (judge prot)).filterMap (Verdict.member .v4))
  v6 := uniqueSorted Canonical.text ((cfbs.map (judge prot)).filterMap (Verdict.member .v6))

structure KernelSets where
  v4 : List SetElement
  v6 : List SetElement

def applyBlacklist (s : BlacklistNftSets) : KernelSets where
  v4 := cidrsToElements s.v4 false
  v6 := cidrsToElements s.v6 true

def KernelSets.Holds (s : KernelSets) : Addr → Prop
  | .v4 n => ∃ i ∈ intervals s.v4, i.Mem n.toNat
  | .v6 n => ∃ i ∈ intervals s.v6, i.Mem n.toNat

/-! ## The sources -/

structure NodeAddress where
  /-- Of the kind `InternalIP`. -/
  internal : Bool
  address : Reading

def bareOf : NodeAddress → Option Bare
  | { internal := true, address := .addr a zone } => some (unmapBare a zone)
  | _ => none

def splitInternalIPs (nodes : List (List NodeAddress)) : List Bare × List Bare :=
  let bares := nodes.flatten.filterMap bareOf
  ((bares.filter fun b => b.addr.is4).mergeSort fun a b => textLe a.text b.text,
    (bares.filter fun b => ! b.addr.is4).mergeSort fun a b => textLe a.text b.text)

structure CppSpec where
  ip : Reading
  ttlSeconds : ℤ

structure PendingPeer where
  /-- Nothing when the address is missing. -/
  spec : Option CppSpec
  creationTimestamp : Option ℤ
  claimedAt : Option ℤ

def PendingPeer.active (cpp : PendingPeer) (spec : CppSpec) (now grace : ℤ) : Bool :=
  match cpp.claimedAt with
  | some claimedAt => ! (claimedAt + grace < now)
  | none => ! (cpp.creationTimestamp.getD now + spec.ttlSeconds < now)

def PendingPeer.member (now grace : ℤ) (cpp : PendingPeer) : Option (Bare × Family) := do
  let spec ← cpp.spec
  let (canonical, family) ← parseBareIP spec.ip
  if cpp.active spec now grace then some (canonical.stripPrefix, family) else none

structure Sources where
  now : ℤ
  cppGrace : ℤ
  nodes : List (List NodeAddress)
  cpps : List PendingPeer
  ctrs : List (Option Reading)
  cfbs : List (Option Reading)

def ofFamily {α : Type} (family : Family) (l : List (α × Family)) : List α :=
  (l.filter fun entry => entry.2 = family).map Prod.fst

structure PeerNftSets where
  peersV4 : List Bare
  peersV6 : List Bare
  trustedV4 : List Canonical
  trustedV6 : List Canonical

namespace Sources

variable (s : Sources)

def pending : List (Bare × Family) := s.cpps.filterMap (PendingPeer.member s.now s.cppGrace)

def trusted : List (Canonical × Family) := s.ctrs.filterMap fun ctr => ctr.bind parseIPOrCIDR

def peers : PeerNftSets where
  peersV4 := uniqueSorted Bare.text ((splitInternalIPs s.nodes).1 ++ ofFamily .v4 s.pending)
  peersV6 := uniqueSorted Bare.text ((splitInternalIPs s.nodes).2 ++ ofFamily .v6 s.pending)
  trustedV4 := uniqueSorted Canonical.text (ofFamily .v4 s.trusted)
  trustedV6 := uniqueSorted Canonical.text (ofFamily .v6 s.trusted)

def protection : BlacklistProtection :=
  let split := splitInternalIPs s.nodes
  buildBlacklistProtection ((split.1 ++ split.2).map Bare.reading)
    ((ofFamily .v4 s.pending).map Bare.reading) ((ofFamily .v6 s.pending).map Bare.reading)
    (s.peers.trustedV4.map Canonical.reading) (s.peers.trustedV6.map Canonical.reading)

def blacklist : BlacklistNftSets := reconcileBlacklist s.protection s.cfbs

end Sources

end Insula.Firewall
