import Insula.FirewallReconcile
import Insula.Javascript

/-!
# The tenant port sets

The ports that the pods of tenants open on their node, from the host ports of their containers and
from two annotations. Texts are collected as keys of a map, so that a port is there once for every
way it is written.
-/

namespace Insula.TenantPorts

open CrowdsecL4 Nft Firewall
open Go (isSpace)

def tenantNamespaceAnnotation : Text := "insula.host/tenant-namespace".toList

def tenantPortAnnotationTCP : Text := "platform.io/firewall-tcp-ports".toList

def tenantPortAnnotationUDP : Text := "platform.io/firewall-udp-ports".toList

inductive Phase
  | pending | running | succeeded | failed | unknown
deriving DecidableEq, Repr

structure ContainerPort where
  hostPort : ℤ
  protocol : Text

structure Pod where
  nodeName : Text
  ns : Text
  deletionTimestamp : Option ℤ
  phase : Phase
  containers : List (List ContainerPort)
  annotations : Text → Option Text

abbrev NamespaceLister := Text → Option (Text → Option Text)

def isTenantNamespace (nses : NamespaceLister) (name : Text) : Bool :=
  if "tenant-".toList.isPrefixOf name then true
  else
    match nses name with
    | none => false
    | some annotations => annotations tenantNamespaceAnnotation = some "true".toList

/-! ## Texts of ports -/

def isDigit (c : Char) : Bool := '0' ≤ c && c ≤ '9'

def trim (space : Char → Bool) (s : Text) : Text := (s.dropWhile space).rdropWhile space

def tenantPortRegex (s : Text) : Bool :=
  match s.dropWhile isDigit with
  | [] => s ≠ []
  | c :: hi => s.takeWhile isDigit ≠ [] && c = '-' && hi ≠ [] && hi.all isDigit

def portLoop : ℕ → Text → Option ℕ
  | v, [] => some v
  | v, c :: rest =>
    if isDigit c then
      let v := v * 10 + (c.toNat - '0'.toNat)
      if 65535 < v then none else portLoop v rest
    else none

def parsePort (s : Text) : Option ℕ :=
  if s = [] ∨ 5 < s.length then none
  else (portLoop 0 s).bind fun v => if v = 0 then none else some v

def isWS (c : Char) : Bool := c = ' ' || c = '\t' || c = '\n' || c = '\r'

def parsePortOrRange (s : Text) : Option (ℕ × ℕ) :=
  let s := trim isWS s
  match s.dropWhile (· ≠ '-') with
  | [] => (parsePort s).map fun v => (v, v)
  | _ :: high => do
    let a ← parsePort (s.takeWhile (· ≠ '-'))
    let b ← parsePort high
    if b < a then none else some (a, b)

/-! ## Collecting -/

structure Collected where
  tcp : List Text
  udp : List Text

def Collected.append (a b : Collected) : Collected := ⟨a.tcp ++ b.tcp, a.udp ++ b.udp⟩

def hostPort (p : ContainerPort) : Collected :=
  if p.hostPort < 1 ∨ 65535 < p.hostPort then ⟨[], []⟩
  else
    let elem := IpText.decimal p.hostPort.toNat
    let protocol := p.protocol.map Char.toUpper
    if protocol = "UDP".toList then ⟨[], [elem]⟩
    else if protocol = [] ∨ protocol = "TCP".toList then ⟨[elem], []⟩
    else ⟨[], []⟩

def collectHostPorts (pod : Pod) : Collected :=
  (pod.containers.flatten.map hostPort).foldr Collected.append ⟨[], []⟩

def annotationPorts (pod : Pod) (key : Text) : List Text :=
  match pod.annotations key with
  | none => []
  | some v => ((v.splitOn ',').map (trim isSpace)).filter tenantPortRegex

def collectAnnotationPorts (pod : Pod) : Collected :=
  ⟨annotationPorts pod tenantPortAnnotationTCP, annotationPorts pod tenantPortAnnotationUDP⟩

def serves (nodeName : Text) (nses : NamespaceLister) (pod : Pod) : Bool :=
  pod.nodeName = nodeName && pod.deletionTimestamp.isNone && pod.phase ≠ .succeeded &&
    pod.phase ≠ .failed && isTenantNamespace nses pod.ns

def collect (nodeName : Text) (nses : NamespaceLister) (pods : List Pod) : Collected :=
  ((pods.filter (serves nodeName nses)).map fun pod =>
    (collectHostPorts pod).append (collectAnnotationPorts pod)).foldr Collected.append ⟨[], []⟩

def sortedKeys (keys : List Text) : List Text := uniqueSorted id keys

structure TenantPortSets where
  tcp : List Text
  udp : List Text

def reconcileOnce (nodeName : Text) (nses : NamespaceLister) (pods : List Pod) : TenantPortSets :=
  let collected := collect nodeName nses pods
  ⟨sortedKeys collected.tcp, sortedKeys collected.udp⟩

/-! ## Elements -/

def portInterval (range : ℕ × ℕ) : Interval := ⟨range.1, (range.2 + 1) % 65536⟩

def portElements (text : Text) : List SetElement :=
  match parsePortOrRange text with
  | none => []
  | some range => pair (portInterval range) 0

def portsToElements (ports : List Text) : List SetElement := ports.flatMap portElements

theorem intervals_portsToElements (ports : List Text) :
    intervals (portsToElements ports) = (ports.filterMap parsePortOrRange).map portInterval := by
  unfold portsToElements
  induction ports with
  | nil => rfl
  | cons text ports ih =>
    rw [List.flatMap_cons, List.filterMap_cons]
    unfold portElements
    cases parsePortOrRange text with
    | none => exact ih
    | some range => exact congrArg (portInterval range :: ·) ih

/-! ## Ranges of ports -/

/-- Every range runs upwards between the first and the last port. -/
structure ValidRange (range : ℕ × ℕ) : Prop where
  pos : 0 < range.1
  le : range.1 ≤ range.2
  last : range.2 ≤ 65535

theorem portLoop_le {v n : ℕ} {s : Text} (hv : v ≤ 65535) (h : portLoop v s = some n) :
    n ≤ 65535 := by
  induction s generalizing v with
  | nil =>
    rw [← Option.some.inj h]
    exact hv
  | cons c rest ih =>
    unfold portLoop at h
    split at h
    · dsimp only at h
      split at h
      · cases h
      · exact ih (by omega) h
    · cases h

theorem parsePort_valid {s : Text} {v : ℕ} (h : parsePort s = some v) : 0 < v ∧ v ≤ 65535 := by
  unfold parsePort at h
  split at h
  · cases h
  · obtain ⟨n, hn, hv⟩ := Option.bind_eq_some_iff.mp h
    split at hv
    · cases hv
    · obtain rfl := Option.some.inj hv
      exact ⟨by omega, portLoop_le (Nat.zero_le _) hn⟩

theorem parsePortOrRange_valid {s : Text} {range : ℕ × ℕ} (h : parsePortOrRange s = some range) :
    ValidRange range := by
  unfold parsePortOrRange at h
  dsimp only at h
  split at h
  · obtain ⟨v, hv, rfl⟩ := Option.map_eq_some_iff.mp h
    obtain ⟨hpos, hle⟩ := parsePort_valid hv
    exact ⟨hpos, Nat.le_refl v, hle⟩
  · obtain ⟨a, ha, h⟩ := Option.bind_eq_some_iff.mp h
    obtain ⟨b, hb, h⟩ := Option.bind_eq_some_iff.mp h
    split at h
    · cases h
    · obtain rfl := Option.some.inj h
      exact ⟨(parsePort_valid ha).1, by omega, (parsePort_valid hb).2⟩

theorem mem_portInterval {range : ℕ × ℕ} (h : ValidRange range) {n : ℕ} (hn : n < 2 ^ 16) :
    (portInterval range).Mem n ↔ range.1 ≤ n ∧ n ≤ range.2 := by
  obtain ⟨hpos, hle, hlast⟩ := h
  unfold portInterval Interval.Mem
  dsimp only
  by_cases htop : range.2 = 65535
  · rw [htop]
    omega
  · rw [Nat.mod_eq_of_lt (by omega)]
    omega

theorem disjoint_portInterval_iff {r t : ℕ × ℕ} (hr : ValidRange r) (ht : ValidRange t) :
    (portInterval r).Disjoint 16 (portInterval t) ↔ r.2 < t.1 ∨ t.2 < r.1 := by
  have hrle := hr.le
  have htle := ht.le
  have hrlast := hr.last
  have htlast := ht.last
  constructor
  · intro h
    by_contra hmeet
    have hn : max r.1 t.1 < 2 ^ 16 := by omega
    apply h (max r.1 t.1) hn
    · rw [mem_portInterval hr hn]
      omega
    · rw [mem_portInterval ht hn]
      omega
  · intro h n hn hrn htn
    rw [mem_portInterval hr hn] at hrn
    rw [mem_portInterval ht hn] at htn
    omega

end Insula.TenantPorts
