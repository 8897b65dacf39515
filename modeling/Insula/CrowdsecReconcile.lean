import Insula.IpText
import Insula.Networks
import Insula.Ranking

/-!
# The L4 blocklist

The prefixes that CrowdSec bans, the exclusions that must never be dropped, and the tick that
filters the one by the other and writes the rest into the block sets of the firewall. A prefix is a
valid one of `netip`; zones are cut off when a prefix is parsed.
-/

namespace Insula.CrowdsecL4

open Networks Ranking

abbrev Text := IpText.Text

inductive Addr
  | v4 (n : BitVec 32)
  | v6 (n : BitVec 128)
deriving DecidableEq, Repr

namespace Addr

def bitLen : Addr → ℕ
  | .v4 _ => 32
  | .v6 _ => 128

def is4 : Addr → Bool
  | .v4 _ => true
  | .v6 _ => false

def number : Addr → ℕ
  | .v4 n => n.toNat
  | .v6 n => n.toNat

def withNumber : Addr → ℕ → Addr
  | .v4 _, n => .v4 (BitVec.ofNat 32 n)
  | .v6 _, n => .v6 (BitVec.ofNat 128 n)

/-- An address `::ffff:a.b.c.d` becomes `a.b.c.d`. -/
def unmap : Addr → Addr
  | .v4 n => .v4 n
  | .v6 n => if n.toNat / 2 ^ 32 = 0xffff then .v4 (BitVec.ofNat 32 n.toNat) else .v6 n

def dotted (n : ℕ) : Text :=
  ['.'].intercalate [IpText.decimal (n / 2 ^ 24), IpText.decimal (n / 2 ^ 16 % 256),
    IpText.decimal (n / 2 ^ 8 % 256), IpText.decimal (n % 256)]

def words (n : ℕ) : List ℕ := (List.range 8).map fun i => n / 2 ^ (16 * (7 - i)) % 65536

def text : Addr → Text
  | .v4 n => dotted n.toNat
  | .v6 n =>
    if n.toNat / 2 ^ 32 = 0xffff then "::ffff:".toList ++ dotted (n.toNat % 2 ^ 32)
    else IpText.shortened (words n.toNat)

/-- The address with its bits after the first `bits` cleared. -/
def truncated (a : Addr) (bits : ℕ) : Addr := a.withNumber (cleared a.bitLen bits a.number)

@[simp] theorem bitLen_withNumber (a : Addr) (n : ℕ) : (a.withNumber n).bitLen = a.bitLen := by
  cases a with
  | v4 => rfl
  | v6 => rfl

@[simp] theorem is4_withNumber (a : Addr) (n : ℕ) : (a.withNumber n).is4 = a.is4 := by
  cases a with
  | v4 => rfl
  | v6 => rfl

theorem number_lt (a : Addr) : a.number < 2 ^ a.bitLen := by
  cases a with
  | v4 n => exact n.isLt
  | v6 n => exact n.isLt

variable {a : Addr}

theorem number_withNumber {n : ℕ} (h : n < 2 ^ a.bitLen) : (a.withNumber n).number = n := by
  cases a with
  | v4 => exact Nat.mod_eq_of_lt h
  | v6 => exact Nat.mod_eq_of_lt h

theorem bitLen_eq {b : Addr} (h : a.is4 = b.is4) : a.bitLen = b.bitLen := by
  cases a with
  | v4 => cases b with
    | v4 => rfl
    | v6 => cases h
  | v6 => cases b with
    | v4 => cases h
    | v6 => rfl

theorem eq_of_number {b : Addr} (hfamily : a.is4 = b.is4) (hnumber : a.number = b.number) :
    a = b := by
  cases a with
  | v4 m => cases b with
    | v4 n => exact congrArg Addr.v4 (BitVec.eq_of_toNat_eq hnumber)
    | v6 n => cases hfamily
  | v6 m => cases b with
    | v4 n => cases hfamily
    | v6 n => exact congrArg Addr.v6 (BitVec.eq_of_toNat_eq hnumber)

theorem unmap_v6 {n : BitVec 128} (h : ¬ n.toNat / 2 ^ 32 = 0xffff) : (Addr.v6 n).unmap = .v6 n :=
  if_neg h

theorem unmap_unmap (a : Addr) : a.unmap.unmap = a.unmap := by
  cases a with
  | v4 n => rfl
  | v6 n =>
    by_cases h : n.toNat / 2 ^ 32 = 0xffff
    · have hmapped : (Addr.v6 n).unmap = .v4 (BitVec.ofNat 32 n.toNat) := if_pos h
      rw [hmapped]
      rfl
    · rw [unmap_v6 h, unmap_v6 h]

theorem bitLen_ge (a : Addr) : 32 ≤ a.bitLen := by
  cases a with
  | v4 => exact Nat.le_refl 32
  | v6 => exact Nat.le_add_right 32 96

theorem truncated_number (a : Addr) (bits : ℕ) :
    (a.truncated bits).number = cleared a.bitLen bits a.number :=
  number_withNumber (Nat.lt_of_le_of_lt (cleared_le _ _ _) a.number_lt)

end Addr

structure Prefix where
  addr : Addr
  bits : ℕ
  bits_le : bits ≤ addr.bitLen
deriving DecidableEq

namespace Prefix

variable (p : Prefix)

def text : Text := p.addr.text ++ '/' :: IpText.decimal p.bits

theorem masked_bits_le : p.bits ≤ (p.addr.truncated p.bits).bitLen := by
  unfold Addr.truncated
  rw [Addr.bitLen_withNumber]
  exact p.bits_le

def masked : Prefix where
  addr := p.addr.truncated p.bits
  bits := p.bits
  bits_le := p.masked_bits_le

def contains (a : Addr) : Bool :=
  p.addr.is4 = a.is4 && head p.addr.bitLen p.bits a.number = head p.addr.bitLen p.bits p.addr.number

theorem unmapped_bits_le : min (p.bits - 96) 32 ≤ p.addr.unmap.bitLen :=
  Nat.le_trans (Nat.min_le_right _ 32) p.addr.unmap.bitLen_ge

end Prefix

def unmapPrefix (p : Prefix) : Prefix :=
  if p.addr.unmap = p.addr then p
  else { addr := p.addr.unmap, bits := min (p.bits - 96) 32, bits_le := p.unmapped_bits_le }

def prefixContainsOrEquals (outer inner : Prefix) : Bool :=
  let outer := unmapPrefix outer
  let inner := unmapPrefix inner
  if outer.addr.is4 ≠ inner.addr.is4 then false
  else if inner.bits < outer.bits then false
  else inner.addr.truncated outer.bits = outer.masked.addr

/-! ## The filters -/

structure CrowdsecBlocklist where
  v4 : List Prefix
  v6 : List Prefix
  ttlv4 : List ℤ
  ttlv6 : List ℤ

structure ExclusionSet where
  v4 : List Prefix
  v6 : List Prefix

def excluded (exPrefixes : List Prefix) (p : Prefix) : Bool :=
  exPrefixes.any fun ep => prefixContainsOrEquals ep p

def filterLoop (exPrefixes : List Prefix) : List Prefix → List ℤ → List Prefix × List ℤ × ℕ
  | [], _ => ([], [], 0)
  | p :: prefixes, ttls =>
    let rest := filterLoop exPrefixes prefixes ttls.tail
    if excluded exPrefixes p then (rest.1, rest.2.1, rest.2.2 + 1)
    else (p :: rest.1, ttls.head?.toList ++ rest.2.1, rest.2.2)

def filterFamily (prefixes : List Prefix) (ttls : List ℤ) (exPrefixes : List Prefix) :
    List Prefix × List ℤ × ℕ :=
  if prefixes.length = 0 then (prefixes, ttls, 0) else filterLoop exPrefixes prefixes ttls

def applyExclusions (bl : CrowdsecBlocklist) (ex : ExclusionSet) : CrowdsecBlocklist × ℕ :=
  let f4 := filterFamily bl.v4 bl.ttlv4 ex.v4
  let f6 := filterFamily bl.v6 bl.ttlv6 ex.v6
  ({ v4 := f4.1, v6 := f6.1, ttlv4 := f4.2.1, ttlv6 := f6.2.1 }, f4.2.2 + f6.2.2)

def withTtls : List Prefix → List ℤ → List (Prefix × ℤ)
  | [], _ => []
  | p :: prefixes, ttls => (p, ttls.headD 0) :: withTtls prefixes ttls.tail

def sortsBefore (a b : Prefix × ℤ) : Bool :=
  a.1.text.map Char.toNat < b.1.text.map Char.toNat

def crowdsecBlocklistMaxElements : ℕ := 500000

/-- `sort.Slice` is not stable, so `sorter` is any sort by the texts. -/
def enforceCap (sorter : Sorter sortsBefore) (bl : CrowdsecBlocklist) : CrowdsecBlocklist × ℕ × ℕ :=
  let p4 := sorter.sort (withTtls bl.v4 bl.ttlv4)
  let p6 := sorter.sort (withTtls bl.v6 bl.ttlv6)
  ({ v4 := (p4.take crowdsecBlocklistMaxElements).map Prod.fst
     v6 := (p6.take crowdsecBlocklistMaxElements).map Prod.fst
     ttlv4 := (p4.take crowdsecBlocklistMaxElements).map Prod.snd
     ttlv6 := (p6.take crowdsecBlocklistMaxElements).map Prod.snd },
    p4.length - crowdsecBlocklistMaxElements, p6.length - crowdsecBlocklistMaxElements)

def selfProtectIntersection (proposed : CrowdsecBlocklist) (ex : ExclusionSet) : ℕ × ℕ :=
  (proposed.v4.countP (excluded ex.v4), proposed.v6.countP (excluded ex.v6))

/-- The share is over five percent. The quotient of two lengths compares with 0.05 as the fractions
do, since lengths stay far below the precision of a double. -/
def shouldSelfProtectTrip (proposed : CrowdsecBlocklist) (ex : ExclusionSet) : Bool :=
  let int := selfProtectIntersection proposed ex
  let totalProposed := proposed.v4.length + proposed.v6.length
  if totalProposed = 0 then false else totalProposed < 20 * (int.1 + int.2)

/-! ## Where the lists come from -/

/-- What `netip` reads in the text of a decision. -/
inductive ParsedValue
  | cidr (p : Prefix)
  | addr (a : Addr)
  | malformed

structure LapiDecision where
  value : ParsedValue
  type : Text
  scope : Text
  /-- Nothing when the text is no duration. -/
  duration : Option ℤ

def hostPrefix (a : Addr) : Prefix where
  addr := a.unmap
  bits := a.unmap.bitLen
  bits_le := Nat.le_refl _

def parseLAPIValue : ParsedValue → Option Prefix
  | .cidr p => some (unmapPrefix p)
  | .addr a => some (hostPrefix a)
  | .malformed => none

def LapiDecision.ban (d : LapiDecision) : Option (Prefix × ℤ) :=
  if d.type ≠ "ban".toList then none
  else if d.scope ≠ "Ip".toList ∧ d.scope ≠ "Range".toList then none
  else
    match parseLAPIValue d.value, d.duration with
    | some p, some ttl => if ttl ≤ 0 then none else some (p, ttl)
    | _, _ => none

def parseLAPIStream (new : List LapiDecision) : CrowdsecBlocklist :=
  let bans := new.filterMap LapiDecision.ban
  let bans4 := bans.filter fun ban => ban.1.addr.is4
  let bans6 := bans.filter fun ban => ! ban.1.addr.is4
  { v4 := bans4.map Prod.fst, v6 := bans6.map Prod.fst
    ttlv4 := bans4.map Prod.snd, ttlv6 := bans6.map Prod.snd }

def appendToFamily (ex : ExclusionSet) (p : Prefix) : ExclusionSet :=
  if p.addr.is4 then { ex with v4 := ex.v4 ++ [p] } else { ex with v6 := ex.v6 ++ [p] }

/-- The prefixes of nodes, services, trusted ranges and pending peers, each without its mapping. -/
def buildExclusionSet (prefixes : List Prefix) : ExclusionSet :=
  (prefixes.map unmapPrefix).foldl appendToFamily ⟨[], []⟩

/-! ## The block sets -/

structure SetElement where
  key : ℕ
  timeout : ℤ
  intervalEnd : Bool
deriving DecidableEq, Repr

def nextNetwork (a : Addr) (bits : ℕ) : ℕ :=
  if bits = 0 then 2 ^ a.bitLen - 1 else (a.number + 2 ^ (a.bitLen - bits)) % 2 ^ a.bitLen

def maxTtl : ℤ := 7 * 24 * 3600 * 1000000000

/-- What is skipped is of the other family, or its time is over. -/
def writable (isV6 : Bool) (ban : Prefix × ℤ) : Bool := ban.1.addr.is4 != isV6 && 0 < ban.2

def elementsOf (ban : Prefix × ℤ) : List SetElement :=
  let p := ban.1.masked
  [{ key := p.addr.number, timeout := min ban.2 maxTtl, intervalEnd := false },
    { key := nextNetwork p.addr p.bits, timeout := 0, intervalEnd := true }]

def crowdsecPrefixesToElements (prefixes : List Prefix) (ttls : List ℤ) (isV6 : Bool) :
    List SetElement :=
  (withTtls prefixes ttls).flatMap fun ban => if writable isV6 ban then elementsOf ban else []

structure BlockSets where
  v4 : List SetElement
  v6 : List SetElement

def applyCrowdsecBlocklist (s : CrowdsecBlocklist) : BlockSets where
  v4 := crowdsecPrefixesToElements s.v4 s.ttlv4 false
  v6 := crowdsecPrefixesToElements s.v6 s.ttlv6 true

/-! ## The tick -/

inductive Mode
  | disabled | dryrun | enforce
deriving DecidableEq, Repr

def selfProtectTripBudget : ℕ := 3

structure CrowdsecReconciler where
  mode : Mode
  /-- Whether an applier is wired. -/
  applier : Bool
  tripCount : ℕ
  quiescent : Bool

inductive FetchError
  | failed (reason : Text)

structure Readings where
  fetchDecisions : Option (Except FetchError CrowdsecBlocklist)
  computeExclusions : Option (Except FetchError ExclusionSet)

namespace CrowdsecReconciler

variable (sorter : Sorter sortsBefore) (cr : CrowdsecReconciler)

def trip : CrowdsecReconciler :=
  let newTrip := cr.tripCount + 1
  { cr with tripCount := newTrip, quiescent := cr.quiescent || selfProtectTripBudget ≤ newTrip }

def filtered (bl : CrowdsecBlocklist) (ex : ExclusionSet) :
    CrowdsecReconciler × Option CrowdsecBlocklist :=
  if shouldSelfProtectTrip bl ex then (cr.trip, none)
  else
    let capped := (enforceCap sorter (applyExclusions bl ex).1).1
    if cr.mode = .enforce ∧ cr.applier then (cr, some capped) else (cr, none)

def tick (readings : Readings) : CrowdsecReconciler × Option CrowdsecBlocklist :=
  if cr.quiescent then (cr, none)
  else
    match readings.fetchDecisions.getD (.ok ⟨[], [], [], []⟩) with
    | .error _ => (cr, none)
    | .ok bl =>
      match readings.computeExclusions.getD (.ok ⟨[], []⟩) with
      | .error _ => (cr, none)
      | .ok ex => cr.filtered sorter bl ex

end CrowdsecReconciler

/-! ## Prefixes and addresses -/

/-- An address lies in a prefix, where both are read without their mapping. -/
def Prefix.Covers (p : Prefix) (a : Addr) : Prop := (unmapPrefix p).contains a.unmap = true

theorem unmapPrefix_addr (p : Prefix) : (unmapPrefix p).addr = p.addr.unmap := by
  unfold unmapPrefix
  split
  · exact Eq.symm ‹_›
  · rfl

/-- The first prefix is no longer than the second and agrees with its address. -/
def Prefix.Spans (p q : Prefix) : Prop :=
  p.addr.is4 = q.addr.is4 ∧ p.bits ≤ q.bits ∧
    head p.addr.bitLen p.bits q.addr.number = head p.addr.bitLen p.bits p.addr.number

def Prefix.net (p : Prefix) {w : ℕ} (h : p.addr.bitLen = w) : Net w where
  base := p.addr.number
  bits := p.bits
  bits_le := h ▸ p.bits_le

variable {p q : Prefix} {a : Addr}

theorem Prefix.contains_iff {w : ℕ} (h : p.addr.bitLen = w) :
    p.contains a = true ↔ p.addr.is4 = a.is4 ∧ (p.net h).Mem a.number := by
  subst h
  unfold contains
  rw [Bool.and_eq_true, decide_eq_true_eq, decide_eq_true_eq]
  exact Iff.rfl

theorem Prefix.spans_iff {w : ℕ} (hp : p.addr.bitLen = w) (hq : q.addr.bitLen = w) :
    p.Spans q ↔ p.addr.is4 = q.addr.is4 ∧ (p.net hp).Spans (q.net hq) := by
  subst hp
  exact Iff.rfl

/-- Prefixes of one family that hold a common address are nested. -/
theorem Prefix.spans_or_spans (hp : p.contains a = true) (hq : q.contains a = true) :
    p.Spans q ∨ q.Spans p := by
  obtain ⟨hpfamily, hpmem⟩ := (contains_iff rfl).mp hp
  have hqfamily := ((contains_iff rfl).mp hq).1
  have hfamily : p.addr.is4 = q.addr.is4 := hpfamily.trans hqfamily.symm
  have hlen : q.addr.bitLen = p.addr.bitLen := Addr.bitLen_eq hfamily.symm
  have hqmem := ((contains_iff hlen).mp hq).2
  rcases Net.spans_or_spans hpmem hqmem with h | h
  · exact .inl ((spans_iff rfl hlen).mpr ⟨hfamily, h⟩)
  · exact .inr ((spans_iff hlen rfl).mpr ⟨hfamily.symm, h⟩)

theorem Prefix.Spans.contains (h : p.Spans q) (ha : q.contains a = true) : p.contains a = true := by
  have hlen : q.addr.bitLen = p.addr.bitLen := Addr.bitLen_eq h.1.symm
  obtain ⟨hfamily, hmem⟩ := (contains_iff hlen).mp ha
  exact (contains_iff rfl).mpr ⟨h.1.trans hfamily, ((spans_iff rfl hlen).mp h).2.mem hmem⟩

theorem Prefix.contains_addr (p : Prefix) : p.contains p.addr = true :=
  (contains_iff rfl).mpr ⟨rfl, Net.mem_base _⟩

/-- The source's test is that of the networks. -/
theorem prefixContainsOrEquals_iff {outer inner : Prefix} :
    prefixContainsOrEquals outer inner = true ↔ (unmapPrefix outer).Spans (unmapPrefix inner) := by
  unfold prefixContainsOrEquals Prefix.Spans
  generalize unmapPrefix outer = p
  generalize unmapPrefix inner = q
  dsimp only
  by_cases hfamily : p.addr.is4 = q.addr.is4
  · rw [if_neg (not_not_intro hfamily)]
    by_cases hbits : q.bits < p.bits
    · rw [if_pos hbits]
      exact iff_of_false Bool.false_ne_true fun h => Nat.not_le_of_lt hbits h.2.1
    · rw [if_neg hbits, decide_eq_true_eq]
      have hlen : q.addr.bitLen = p.addr.bitLen := Addr.bitLen_eq hfamily.symm
      have htruncated : q.addr.truncated p.bits = p.masked.addr ↔
          head p.addr.bitLen p.bits q.addr.number = head p.addr.bitLen p.bits p.addr.number := by
        have hnumber := Addr.truncated_number q.addr p.bits
        rw [hlen] at hnumber
        constructor
        · intro heq
          have h := (congrArg Addr.number heq).symm.trans hnumber
          exact (cleared_eq_iff.mp ((Addr.truncated_number p.addr p.bits).symm.trans h)).symm
        · intro heq
          apply Addr.eq_of_number
          · exact (Addr.is4_withNumber _ _).trans (hfamily.symm.trans (Addr.is4_withNumber _ _).symm)
          · exact hnumber.trans ((cleared_eq_iff.mpr heq).trans (Addr.truncated_number _ _).symm)
      rw [htruncated]
      constructor
      · exact fun h => ⟨hfamily, Nat.le_of_not_lt hbits, h⟩
      · exact fun h => h.2.2
  · rw [if_pos hfamily]
    exact iff_of_false Bool.false_ne_true fun h => hfamily h.1

/-- What the source's test accepts has no address outside. -/
theorem covers_of_containsOrEquals {outer inner : Prefix}
    (h : prefixContainsOrEquals outer inner = true) (ha : inner.Covers a) :
    outer.Covers a := (prefixContainsOrEquals_iff.mp h).contains ha

theorem covers_addr (p : Prefix) : p.Covers (unmapPrefix p).addr := by
  have hunmap : (unmapPrefix p).addr.unmap = (unmapPrefix p).addr := by
    rw [unmapPrefix_addr]
    exact p.addr.unmap_unmap
  unfold Prefix.Covers
  rw [hunmap]
  exact (unmapPrefix p).contains_addr

theorem exists_covers_iff : (∃ a, p.Covers a ∧ q.Covers a) ↔
    prefixContainsOrEquals p q = true ∨ prefixContainsOrEquals q p = true := by
  constructor
  · rintro ⟨a, hp, hq⟩
    rw [prefixContainsOrEquals_iff, prefixContainsOrEquals_iff]
    exact Prefix.spans_or_spans hp hq
  · rintro (h | h)
    · exact ⟨_, covers_of_containsOrEquals h (covers_addr q), covers_addr q⟩
    · exact ⟨_, covers_addr p, covers_of_containsOrEquals h (covers_addr p)⟩

/-! ## What reaches the block sets -/

def survivors (exPrefixes prefixes : List Prefix) (ttls : List ℤ) : List (Prefix × ℤ) :=
  (withTtls prefixes ttls).filter fun ban => ! excluded exPrefixes ban.1

theorem withTtls_filterLoop (exPrefixes prefixes : List Prefix) (ttls : List ℤ) :
    withTtls (filterLoop exPrefixes prefixes ttls).1 (filterLoop exPrefixes prefixes ttls).2.1 =
      survivors exPrefixes prefixes ttls := by
  induction prefixes generalizing ttls with
  | nil => rfl
  | cons p prefixes ih =>
    have ih := ih ttls.tail
    unfold survivors at ih ⊢
    rw [withTtls, List.filter_cons, ← ih, filterLoop]
    cases hex : excluded exPrefixes p with
    | true => simp
    | false =>
      cases ttls with
      | nil =>
        have hnone : ∀ ps, (filterLoop exPrefixes ps []).2.1 = [] := by
          intro ps
          induction ps with
          | nil => rfl
          | cons p ps ihps =>
            rw [filterLoop]
            split
            · exact ihps
            · exact ihps
        simp [withTtls, hnone]
      | cons t ttls => simp [withTtls]

theorem withTtls_filterFamily (prefixes : List Prefix) (ttls : List ℤ) (exPrefixes : List Prefix) :
    withTtls (filterFamily prefixes ttls exPrefixes).1 (filterFamily prefixes ttls exPrefixes).2.1 =
      survivors exPrefixes prefixes ttls := by
  unfold filterFamily
  split
  · rename_i hnil
    rw [List.length_eq_zero_iff.mp hnil]
    rfl
  · exact withTtls_filterLoop exPrefixes prefixes ttls

theorem withTtls_map (bans : List (Prefix × ℤ)) :
    withTtls (bans.map Prod.fst) (bans.map Prod.snd) = bans := by
  induction bans with
  | nil => rfl
  | cons ban bans ih =>
    simp only [List.map_cons, withTtls, List.tail_cons, List.headD_cons, ih]

def writtenOf (isV6 : Bool) (prefixes : List Prefix) (ttls : List ℤ) : List (Prefix × ℤ) :=
  (withTtls prefixes ttls).filter (writable isV6)

theorem crowdsecPrefixesToElements_eq (prefixes : List Prefix) (ttls : List ℤ) (isV6 : Bool) :
    crowdsecPrefixesToElements prefixes ttls isV6 =
      (writtenOf isV6 prefixes ttls).flatMap elementsOf := by
  unfold crowdsecPrefixesToElements writtenOf
  induction withTtls prefixes ttls with
  | nil => rfl
  | cons ban bans ih =>
    rw [List.flatMap_cons, ih, List.filter_cons]
    cases writable isV6 ban with
    | true => rfl
    | false => rfl

/-- The prefixes that `applyCrowdsecBlocklist` writes. -/
def CrowdsecBlocklist.written (s : CrowdsecBlocklist) : List Prefix :=
  (writtenOf false s.v4 s.ttlv4).map Prod.fst ++ (writtenOf true s.v6 s.ttlv6).map Prod.fst

def Protects (ex : ExclusionSet) (s : CrowdsecBlocklist) : Prop :=
  ∀ p ∈ s.written, ∀ e ∈ ex.v4 ++ ex.v6, ∀ a, e.Covers a → ¬ p.Covers a

def capped (sorter : Sorter sortsBefore) (bl : CrowdsecBlocklist) (ex : ExclusionSet) :
    CrowdsecBlocklist := (enforceCap sorter (applyExclusions bl ex).1).1

def reached (sorter : Sorter sortsBefore) (isV6 : Bool) (exPrefixes prefixes : List Prefix)
    (ttls : List ℤ) : List (Prefix × ℤ) :=
  ((sorter.sort (survivors exPrefixes prefixes ttls)).take crowdsecBlocklistMaxElements).filter
    (writable isV6)

theorem written_capped (sorter : Sorter sortsBefore) (bl : CrowdsecBlocklist) (ex : ExclusionSet) :
    (capped sorter bl ex).written = (reached sorter false ex.v4 bl.v4 bl.ttlv4).map Prod.fst ++
      (reached sorter true ex.v6 bl.v6 bl.ttlv6).map Prod.fst := by
  unfold capped enforceCap applyExclusions CrowdsecBlocklist.written writtenOf reached
  simp only [withTtls_map, withTtls_filterFamily]

theorem tick_eq_some {sorter : Sorter sortsBefore} {cr : CrowdsecReconciler} {bl s : CrowdsecBlocklist}
    {ex : ExclusionSet} (h : (cr.tick sorter ⟨some (.ok bl), some (.ok ex)⟩).2 = some s) :
    shouldSelfProtectTrip bl ex = false ∧ s = capped sorter bl ex := by
  unfold CrowdsecReconciler.tick at h
  dsimp only [Option.getD_some] at h
  by_cases hquiescent : cr.quiescent = true
  · rw [if_pos hquiescent] at h
    cases h
  · rw [if_neg hquiescent] at h
    unfold CrowdsecReconciler.filtered at h
    by_cases htrip : shouldSelfProtectTrip bl ex = true
    · rw [if_pos htrip] at h
      cases h
    · rw [if_neg htrip] at h
      dsimp only at h
      by_cases hmode : cr.mode = .enforce ∧ cr.applier = true
      · rw [if_pos hmode] at h
        exact ⟨Bool.eq_false_iff.mpr htrip, (Option.some.inj h).symm⟩
      · rw [if_neg hmode] at h
        cases h

def enforcing : CrowdsecReconciler where
  mode := .enforce
  applier := true
  tripCount := 0
  quiescent := false

theorem tick_enforcing (sorter : Sorter sortsBefore) {bl : CrowdsecBlocklist} {ex : ExclusionSet}
    (htrip : shouldSelfProtectTrip bl ex = false) :
    (enforcing.tick sorter ⟨some (.ok bl), some (.ok ex)⟩).2 = some (capped sorter bl ex) := by
  unfold CrowdsecReconciler.tick CrowdsecReconciler.filtered
  dsimp only [Option.getD_some]
  rw [htrip]
  rfl

/-! ## When the exclusions protect -/

theorem sortsBefore_weak : Weak sortsBefore where
  asymm := by
    intro a b hab
    unfold sortsBefore at hab ⊢
    rw [decide_eq_true_eq] at hab
    exact decide_eq_false (List.lt_asymm hab)
  neg_trans := by
    intro a b c hab hbc
    unfold sortsBefore at hab hbc ⊢
    rw [decide_eq_false_iff_not] at hab hbc ⊢
    exact List.not_lt.mpr (List.le_trans (List.not_lt.mp hab) (List.not_lt.mp hbc))

/-- The bans of a list that some sort writes: of its family, with time left, in no exclusion of the
list's family, and with fewer survivors before it than the cap lets through. -/
def Reaches (isV6 : Bool) (own prefixes : List Prefix) (ttls : List ℤ) (ban : Prefix × ℤ) : Prop :=
  ban ∈ withTtls prefixes ttls ∧ writable isV6 ban = true ∧ excluded own ban.1 = false ∧
    (survivors own prefixes ttls).countP (sortsBefore · ban) < crowdsecBlocklistMaxElements

theorem exists_mem_reached_iff {isV6 : Bool} {own prefixes : List Prefix} {ttls : List ℤ}
    {ban : Prefix × ℤ} : (∃ sorter, ban ∈ reached sorter isV6 own prefixes ttls) ↔
      Reaches isV6 own prefixes ttls ban := by
  have htake := exists_mem_take_sort_iff sortsBefore_weak
    (l := survivors own prefixes ttls) (n := crowdsecBlocklistMaxElements) (a := ban)
  have hsurvives : ban ∈ survivors own prefixes ttls ↔
      ban ∈ withTtls prefixes ttls ∧ excluded own ban.1 = false := by
    unfold survivors
    rw [List.mem_filter, Bool.not_eq_true']
  unfold reached Reaches
  simp only [List.mem_filter, exists_and_right, htake, hsurvives]
  constructor
  · rintro ⟨⟨⟨hmem, hex⟩, hcount⟩, hwritable⟩
    exact ⟨hmem, hwritable, hex, hcount⟩
  · rintro ⟨hmem, hwritable, hex, hcount⟩
    exact ⟨⟨⟨hmem, hex⟩, hcount⟩, hwritable⟩

/-- A ban is not wider than an exclusion of its family, and neither wider nor narrower than one that
is filed under the other family. -/
def NotWider (own other : List Prefix) (p : Prefix) : Prop :=
  (∀ e ∈ own, prefixContainsOrEquals p e = false) ∧
    ∀ e ∈ other, prefixContainsOrEquals p e = false ∧ prefixContainsOrEquals e p = false

theorem notWider_iff {own other : List Prefix} (hex : excluded own p = false) :
    NotWider own other p ↔ ∀ e ∈ own ++ other, ∀ a, e.Covers a → ¬ p.Covers a := by
  have hmeet : ∀ e, (∀ a, e.Covers a → ¬ p.Covers a) ↔
      prefixContainsOrEquals p e = false ∧ prefixContainsOrEquals e p = false := by
    intro e
    rw [← Bool.not_eq_true, ← Bool.not_eq_true, ← not_or, ← exists_covers_iff]
    constructor
    · rintro h ⟨a, hp, he⟩
      exact h a he hp
    · exact fun h a he hp => h ⟨a, hp, he⟩
  have hown : ∀ e ∈ own, prefixContainsOrEquals e p = false := by
    intro e he
    by_contra hcontains
    have : excluded own p = true := List.any_eq_true.mpr ⟨e, he, Bool.not_eq_false _ ▸ hcontains⟩
    rw [hex] at this
    cases this
  constructor
  · rintro ⟨hnarrow, hother⟩ e he
    rw [hmeet]
    rcases List.mem_append.mp he with he | he
    · exact ⟨hnarrow e he, hown e he⟩
    · exact hother e he
  · intro h
    refine ⟨fun e he => ((hmeet e).mp (h e (List.mem_append_left _ he))).1, ?_⟩
    exact fun e he => (hmeet e).mp (h e (List.mem_append_right _ he))

/-- Whatever a tick writes protects every exclusion just when the self-protection trips or no ban
that reaches the block sets is wider than an exclusion. -/
theorem tick_protects_iff (bl : CrowdsecBlocklist) (ex : ExclusionSet) :
    (∀ sorter (cr : CrowdsecReconciler) s,
      (cr.tick sorter ⟨some (.ok bl), some (.ok ex)⟩).2 = some s → Protects ex s) ↔
      shouldSelfProtectTrip bl ex = true ∨
        ((∀ ban, Reaches false ex.v4 bl.v4 bl.ttlv4 ban → NotWider ex.v4 ex.v6 ban.1) ∧
          ∀ ban, Reaches true ex.v6 bl.v6 bl.ttlv6 ban → NotWider ex.v6 ex.v4 ban.1) := by
  constructor
  · intro hall
    cases htrip : shouldSelfProtectTrip bl ex with
    | true => exact .inl rfl
    | false =>
      have hprotects : ∀ sorter, Protects ex (capped sorter bl ex) := fun sorter =>
        hall sorter enforcing _ (tick_enforcing sorter htrip)
      refine .inr ⟨?_, ?_⟩
      · intro ban hreaches
        obtain ⟨sorter, hreached⟩ := exists_mem_reached_iff.mpr hreaches
        apply (notWider_iff hreaches.2.2.1).mpr
        apply hprotects sorter ban.1
        rw [written_capped]
        exact List.mem_append_left _ (List.mem_map_of_mem hreached)
      · intro ban hreaches
        obtain ⟨sorter, hreached⟩ := exists_mem_reached_iff.mpr hreaches
        apply (notWider_iff hreaches.2.2.1).mpr
        intro e he
        refine hprotects sorter ban.1 ?_ e ?_
        · rw [written_capped]
          exact List.mem_append_right _ (List.mem_map_of_mem hreached)
        · exact List.mem_append.mpr (List.mem_append.mp he).symm
  · rintro hcond sorter cr s hs p hp
    obtain ⟨htrip, rfl⟩ := tick_eq_some hs
    rw [htrip] at hcond
    obtain ⟨h4, h6⟩ := hcond.resolve_left Bool.false_ne_true
    rw [written_capped] at hp
    rcases List.mem_append.mp hp with hp | hp
    · obtain ⟨ban, hban, rfl⟩ := List.mem_map.mp hp
      have hreaches := exists_mem_reached_iff.mp ⟨sorter, hban⟩
      exact (notWider_iff hreaches.2.2.1).mp (h4 ban hreaches)
    · obtain ⟨ban, hban, rfl⟩ := List.mem_map.mp hp
      have hreaches := exists_mem_reached_iff.mp ⟨sorter, hban⟩
      intro e he
      apply (notWider_iff hreaches.2.2.1).mp (h6 ban hreaches) e
      exact List.mem_append.mpr (List.mem_append.mp he).symm

/-! ### The lists as they are built -/

def OfFamily (isV6 : Bool) (p : Prefix) : Prop := p.addr.unmap = p.addr ∧ p.addr.is4 = !isV6

theorem containsOrEquals_other_family {isV6 : Bool} (hp : OfFamily isV6 p)
    (hq : OfFamily (!isV6) q) :
    prefixContainsOrEquals p q = false ∧ prefixContainsOrEquals q p = false := by
  have hne : (unmapPrefix p).addr.is4 ≠ (unmapPrefix q).addr.is4 := by
    rw [unmapPrefix_addr, unmapPrefix_addr, hp.1, hq.1, hp.2, hq.2]
    intro heq
    cases isV6 with
    | true => cases heq
    | false => cases heq
  rw [← Bool.not_eq_true, ← Bool.not_eq_true, prefixContainsOrEquals_iff, prefixContainsOrEquals_iff]
  exact ⟨fun h => hne h.1, fun h => hne h.1.symm⟩

theorem unmapPrefix_normal (p : Prefix) : (unmapPrefix p).addr.unmap = (unmapPrefix p).addr := by
  rw [unmapPrefix_addr]
  exact p.addr.unmap_unmap

theorem buildExclusionSet_family (prefixes : List Prefix) :
    (∀ e ∈ (buildExclusionSet prefixes).v4, OfFamily false e) ∧
      ∀ e ∈ (buildExclusionSet prefixes).v6, OfFamily true e := by
  unfold buildExclusionSet
  induction prefixes using List.reverseRecOn with
  | nil => exact ⟨fun e he => (nomatch he), fun e he => (nomatch he)⟩
  | append_singleton prefixes p ih =>
    rw [List.map_append, List.foldl_append]
    obtain ⟨ih4, ih6⟩ := ih
    have hnormal := unmapPrefix_normal p
    change (∀ e ∈ (appendToFamily _ (unmapPrefix p)).v4, _) ∧
      ∀ e ∈ (appendToFamily _ (unmapPrefix p)).v6, _
    unfold appendToFamily
    cases hfamily : (unmapPrefix p).addr.is4 with
    | true =>
      rw [if_pos rfl]
      refine ⟨?_, ih6⟩
      intro e he
      rcases List.mem_append.mp he with he | he
      · exact ih4 e he
      · rw [List.mem_singleton.mp he]
        exact ⟨hnormal, hfamily⟩
    | false =>
      rw [if_neg Bool.false_ne_true]
      refine ⟨ih4, ?_⟩
      intro e he
      rcases List.mem_append.mp he with he | he
      · exact ih6 e he
      · rw [List.mem_singleton.mp he]
        exact ⟨hnormal, hfamily⟩

theorem LapiDecision.ban_normal {d : LapiDecision} {ban : Prefix × ℤ} (h : d.ban = some ban) :
    ban.1.addr.unmap = ban.1.addr := by
  have hvalue : parseLAPIValue d.value = some ban.1 := by
    unfold LapiDecision.ban at h
    split at h
    · cases h
    · split at h
      · cases h
      · split at h
        · rename_i p ttl hp httl
          split at h
          · cases h
          · rw [hp, ← Option.some.inj h]
        · cases h
  cases hparsed : d.value with
  | cidr p =>
    rw [hparsed] at hvalue
    rw [← Option.some.inj hvalue]
    exact unmapPrefix_normal p
  | addr a =>
    rw [hparsed] at hvalue
    rw [← Option.some.inj hvalue]
    exact a.unmap_unmap
  | malformed =>
    rw [hparsed] at hvalue
    cases hvalue

/-- Bans are filed under their family. -/
theorem parseLAPIStream_family (new : List LapiDecision) :
    (∀ p ∈ (parseLAPIStream new).v4, OfFamily false p) ∧
      ∀ p ∈ (parseLAPIStream new).v6, OfFamily true p := by
  have hnormal : ∀ ban ∈ new.filterMap LapiDecision.ban, ban.1.addr.unmap = ban.1.addr := by
    intro ban hban
    obtain ⟨d, -, hd⟩ := List.mem_filterMap.mp hban
    exact LapiDecision.ban_normal hd
  constructor
  · intro p hp
    obtain ⟨ban, hban, rfl⟩ := List.mem_map.mp hp
    obtain ⟨hmem, hfamily⟩ := List.mem_filter.mp hban
    exact ⟨hnormal ban hmem, hfamily⟩
  · intro p hp
    obtain ⟨ban, hban, rfl⟩ := List.mem_map.mp hp
    obtain ⟨hmem, hfamily⟩ := List.mem_filter.mp hban
    exact ⟨hnormal ban hmem, Bool.not_eq_true' _ ▸ hfamily⟩

/-! ### A wide ban -/

def hour : ℤ := 3600 * 1000000000

def node : Addr := .v4 0x01020304

def wideBan : Prefix := { addr := .v4 0x01020300, bits := 24, bits_le := by decide }

/-- The ban of a network is written although it covers the address of a node. -/
theorem wide_ban_written : ¬ ∀ (bl : CrowdsecBlocklist) (ex : ExclusionSet) sorter
    (cr : CrowdsecReconciler) s,
    (cr.tick sorter ⟨some (.ok bl), some (.ok ex)⟩).2 = some s → Protects ex s := by
  intro hall
  have hreaches : Reaches false [hostPrefix node] [wideBan] [hour] (wideBan, hour) :=
    ⟨List.mem_singleton.mpr rfl, by decide, by decide, by decide⟩
  obtain ⟨sorter, hreached⟩ := exists_mem_reached_iff.mpr hreaches
  have htick : (enforcing.tick sorter ⟨some (.ok ⟨[wideBan], [], [hour], []⟩),
      some (.ok ⟨[hostPrefix node], []⟩)⟩).2 = some (capped sorter _ _) :=
    tick_enforcing sorter (by rfl)
  have hwritten : wideBan ∈ (capped sorter ⟨[wideBan], [], [hour], []⟩
    ⟨[hostPrefix node], []⟩).written := by
    rw [written_capped]
    exact List.mem_append_left _ (List.mem_map_of_mem hreached)
  have hnode : (hostPrefix node).Covers node := by
    unfold Prefix.Covers
    rfl
  apply hall _ _ _ _ _ htick wideBan hwritten _ (List.mem_singleton.mpr rfl) node hnode
  unfold Prefix.Covers
  rfl

end Insula.CrowdsecL4
