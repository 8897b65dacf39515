import Insula.FirewallReconcile

/-!
# What the blacklist spares

Which addresses the blacklist sets hold, and which of them are protected. An entry is compared with
the protected prefixes without its mapping, but a mapped network is written as the IPv6 network that
its text names, so that a wide protected IPv6 range may hold what the comparison did not see.
-/

namespace Insula.Firewall

open CrowdsecL4 Networks Nft

/-! ## Prefixes without a mapping -/

/-- The address of the prefix is not a mapped one. -/
def Normal (p : Prefix) : Prop := p.addr.unmap = p.addr

variable {p q : Prefix} {prot : BlacklistProtection} {spec : Reading} {c : Canonical}
  {cfbs : List (Option Reading)} {a : Addr}

theorem unmapPrefix_of_normal (h : Normal p) : unmapPrefix p = p := if_pos h

theorem meet_iff (hp : Normal p) (hq : Normal q) :
    (prefixContainsOrEquals p q || prefixContainsOrEquals q p) = true ↔
      ∃ a, p.contains a = true ∧ q.contains a = true := by
  rw [Bool.or_eq_true, prefixContainsOrEquals_iff, prefixContainsOrEquals_iff,
    unmapPrefix_of_normal hp, unmapPrefix_of_normal hq]
  constructor
  · rintro (h | h)
    · exact ⟨q.addr, h.contains q.contains_addr, q.contains_addr⟩
    · exact ⟨p.addr, p.contains_addr, h.contains p.contains_addr⟩
  · rintro ⟨a, hpa, hqa⟩
    exact Prefix.spans_or_spans hpa hqa

theorem protectedPrefix_normal {r : Reading} (h : protectedPrefix r = some q) : Normal q := by
  cases r with
  | cidr p =>
    obtain rfl : unmapPrefix p = q := Option.some.inj h
    exact unmapPrefix_normal p
  | addr a zone =>
    change prefixFrom a.unmap a.bitLen = some q at h
    unfold prefixFrom at h
    split at h
    · rw [← Option.some.inj h]
      exact a.unmap_unmap
    · cases h
  | malformed => cases h

/-- Every protected prefix is without a mapping. -/
def BlacklistProtection.AllNormal (prot : BlacklistProtection) : Prop :=
  ∀ q ∈ prot.prefixes, Normal q

theorem buildBlacklistProtection_normal (nodeIPs peerV4 peerV6 trustedV4 trustedV6 : List Reading) :
    (buildBlacklistProtection nodeIPs peerV4 peerV6 trustedV4 trustedV6).AllNormal := by
  intro q hq
  obtain ⟨r, -, hr⟩ := List.mem_filterMap.mp hq
  exact protectedPrefix_normal hr

/-- A proposed prefix passes when, without its mapping, it shares no address with a protected
one. -/
theorem intersects_eq_none_iff (hnormal : prot.AllNormal) : prot.intersects p = none ↔
      ∀ q ∈ prot.prefixes, ∀ a, (unmapPrefix p).contains a = true → ¬ q.contains a = true := by
  unfold BlacklistProtection.intersects
  rw [List.find?_eq_none]
  constructor
  · intro h q hq a hpa hqa
    exact h q hq ((meet_iff (unmapPrefix_normal p) (hnormal q hq)).mpr ⟨a, hpa, hqa⟩)
  · intro h q hq hmeet
    obtain ⟨a, hpa, hqa⟩ := (meet_iff (unmapPrefix_normal p) (hnormal q hq)).mp hmeet
    exact h q hq a hpa hqa

/-! ## What is written -/

def Reading.proposed (spec : Reading) : Option Prefix :=
  (parseIPOrCIDR spec).bind fun accepted => accepted.1.parsePrefix

/-- An accepted text stands for its prefix, which is not that of all routes. -/
theorem parse_spec {f : Family} (hparse : parseIPOrCIDR spec = some (c, f))
    (hread : c.parsePrefix = some p) : p.bits ≠ 0 ∧ f = Addr.family p.addr := by
  cases spec with
  | cidr p₀ =>
    change canonicalisePrefix p₀ = some (c, f) at hparse
    unfold canonicalisePrefix at hparse
    split at hparse
    · cases hparse
    · rename_i hbits
      obtain ⟨rfl, rfl⟩ := Prod.mk.inj (Option.some.inj hparse)
      obtain rfl : p₀.masked = p := Option.some.inj hread
      exact ⟨hbits, rfl⟩
  | addr a zone =>
    obtain ⟨rfl, rfl⟩ := Prod.mk.inj (Option.some.inj hparse)
    unfold Canonical.parsePrefix at hread
    split at hread
    · rw [← Option.some.inj hread]
      have hlen := a.unmap.bitLen_ge
      refine ⟨?_, rfl⟩
      change a.unmap.bitLen ≠ 0
      omega
    · cases hread
  | malformed => cases hparse

theorem judge_eq_enforced_iff {f : Family} :
    judge prot (some spec) = .enforced c f ↔ parseIPOrCIDR spec = some (c, f) ∧
        ∃ p, c.parsePrefix = some p ∧ prot.intersects p = none := by
  unfold judge
  dsimp only
  cases hparse : parseIPOrCIDR spec with
  | none => simp
  | some accepted =>
    obtain ⟨c', f'⟩ := accepted
    dsimp only
    cases hread : c'.parsePrefix with
    | none =>
      apply iff_of_false (fun h => nomatch h)
      rintro ⟨heq, p, hp, -⟩
      obtain ⟨rfl, rfl⟩ := Prod.mk.inj (Option.some.inj heq)
      rw [hread] at hp
      cases hp
    | some p =>
      dsimp only
      cases hhit : prot.intersects p with
      | some hit =>
        apply iff_of_false (fun h => nomatch h)
        rintro ⟨heq, p', hp', hnone⟩
        obtain ⟨rfl, rfl⟩ := Prod.mk.inj (Option.some.inj heq)
        rw [hread] at hp'
        obtain rfl := Option.some.inj hp'
        rw [hhit] at hnone
        cases hnone
      | none =>
        constructor
        · intro h
          obtain ⟨rfl, rfl⟩ := Verdict.enforced.inj h
          exact ⟨rfl, p, hread, hhit⟩
        · rintro ⟨heq, -⟩
          obtain ⟨rfl, rfl⟩ := Prod.mk.inj (Option.some.inj heq)
          rfl

theorem mem_enforced_iff {family : Family} :
    c ∈ (cfbs.map (judge prot)).filterMap (Verdict.member family) ↔
      ∃ spec, some spec ∈ cfbs ∧ judge prot (some spec) = .enforced c family := by
  rw [List.mem_filterMap]
  constructor
  · rintro ⟨verdict, hverdict, hmember⟩
    obtain ⟨entry, hentry, rfl⟩ := List.mem_map.mp hverdict
    cases hjudge : judge prot entry with
    | enforced c' f =>
      rw [hjudge] at hmember
      unfold Verdict.member at hmember
      dsimp only at hmember
      split at hmember
      · rename_i hfamily
        obtain rfl := Option.some.inj hmember
        subst hfamily
        cases entry with
        | none => cases hjudge
        | some spec => exact ⟨spec, hentry, hjudge⟩
      · cases hmember
    | invalidSpec =>
      rw [hjudge] at hmember
      cases hmember
    | invalidCidr =>
      rw [hjudge] at hmember
      cases hmember
    | selfProtect c' f hit =>
      rw [hjudge] at hmember
      cases hmember
  · rintro ⟨spec, hspec, hjudge⟩
    refine ⟨_, List.mem_map_of_mem hspec, ?_⟩
    rw [hjudge]
    exact if_pos rfl

def writtenPrefix (isV6 : Bool) (c : Canonical) : Option Prefix :=
  c.parsePrefix.bind fun p => if p.addr.is4 = isV6 then none else some p

theorem intervals_cidrsToElements (cidrs : List Canonical) (isV6 : Bool) :
    intervals (cidrsToElements cidrs isV6) =
      (cidrs.filterMap (writtenPrefix isV6)).map fun p => network p.masked := by
  unfold cidrsToElements
  induction cidrs with
  | nil => rfl
  | cons c cidrs ih =>
    rw [List.flatMap_cons, List.filterMap_cons]
    unfold cidrElements writtenPrefix
    cases hread : c.parsePrefix with
    | none => exact ih
    | some p =>
      dsimp only [Option.bind_some]
      rw [masked_is4]
      by_cases hfamily : p.addr.is4 = isV6
      · rw [if_pos hfamily, if_pos hfamily]
        exact ih
      · rw [if_neg hfamily, if_neg hfamily]
        exact congrArg (network p.masked :: ·) ih

/-- An entry of the list asks for this prefix, and the protection lets it pass. -/
def Accepted (prot : BlacklistProtection) (cfbs : List (Option Reading)) (p : Prefix) : Prop :=
  ∃ spec, some spec ∈ cfbs ∧ spec.proposed = some p ∧ prot.intersects p = none

theorem accepted_iff :
    Accepted prot cfbs p ↔ ∃ spec c, some spec ∈ cfbs ∧ c.parsePrefix = some p ∧
      judge prot (some spec) = .enforced c (Addr.family p.addr) := by
  constructor
  · rintro ⟨spec, hspec, hproposed, hpasses⟩
    obtain ⟨⟨c, f⟩, hparse, hread⟩ := Option.bind_eq_some_iff.mp hproposed
    obtain rfl := (parse_spec hparse hread).2
    exact ⟨spec, c, hspec, hread, judge_eq_enforced_iff.mpr ⟨hparse, p, hread, hpasses⟩⟩
  · rintro ⟨spec, c, hspec, hread, hjudge⟩
    obtain ⟨hparse, p', hread', hpasses⟩ := judge_eq_enforced_iff.mp hjudge
    obtain rfl : p = p' := Option.some.inj (hread.symm.trans hread')
    exact ⟨spec, hspec, Option.bind_eq_some_iff.mpr ⟨_, hparse, hread⟩, hpasses⟩

theorem Accepted.bits_ne (h : Accepted prot cfbs p) : p.bits ≠ 0 := by
  obtain ⟨spec, -, hproposed, -⟩ := h
  obtain ⟨⟨c, f⟩, hparse, hread⟩ := Option.bind_eq_some_iff.mp hproposed
  exact (parse_spec hparse hread).1

theorem writtenPrefix_eq_some_iff {isV6 : Bool} :
    writtenPrefix isV6 c = some p ↔ c.parsePrefix = some p ∧ p.addr.is4 = !isV6 := by
  unfold writtenPrefix
  rw [Option.bind_eq_some_iff]
  constructor
  · rintro ⟨p', hread, hp⟩
    split at hp
    · cases hp
    · rename_i hfamily
      obtain rfl := Option.some.inj hp
      refine ⟨hread, ?_⟩
      cases isV6 with
      | true => exact Bool.eq_false_iff.mpr hfamily
      | false => exact Bool.eq_true_of_not_eq_false hfamily
  · rintro ⟨hread, hfamily⟩
    refine ⟨p, hread, if_neg ?_⟩
    rw [hfamily]
    simp

def BlacklistNftSets.ofFamily (s : BlacklistNftSets) : Family → List Canonical
  | .v4 => s.v4
  | .v6 => s.v6

theorem mem_reconcileBlacklist_iff {family : Family} :
    c ∈ (reconcileBlacklist prot cfbs).ofFamily family ↔
      ∃ spec, some spec ∈ cfbs ∧ judge prot (some spec) = .enforced c family := by
  cases family with
  | v4 => exact mem_uniqueSorted.trans mem_enforced_iff
  | v6 => exact mem_uniqueSorted.trans mem_enforced_iff

theorem mem_written_iff {isV6 : Bool} :
    (∃ c ∈ (reconcileBlacklist prot cfbs).ofFamily (if isV6 then .v6 else .v4),
        writtenPrefix isV6 c = some p) ↔ Accepted prot cfbs p ∧ p.addr.is4 = !isV6 := by
  have hfamily : p.addr.is4 = !isV6 → Addr.family p.addr = if isV6 then .v6 else .v4 := by
    intro h
    unfold Addr.family
    rw [h]
    cases isV6 with
    | true => rfl
    | false => rfl
  rw [accepted_iff]
  constructor
  · rintro ⟨c, hc, hwritten⟩
    obtain ⟨spec, hspec, hjudge⟩ := mem_reconcileBlacklist_iff.mp hc
    obtain ⟨hread, his4⟩ := writtenPrefix_eq_some_iff.mp hwritten
    rw [← hfamily his4] at hjudge
    exact ⟨⟨spec, c, hspec, hread, hjudge⟩, his4⟩
  · rintro ⟨⟨spec, c, hspec, hread, hjudge⟩, his4⟩
    rw [hfamily his4] at hjudge
    exact ⟨c, mem_reconcileBlacklist_iff.mpr ⟨spec, hspec, hjudge⟩,
      writtenPrefix_eq_some_iff.mpr ⟨hread, his4⟩⟩

theorem holds_iff :
    (applyBlacklist (reconcileBlacklist prot cfbs)).Holds a ↔
      ∃ p, Accepted prot cfbs p ∧ p.contains a = true := by
  have hset : ∀ isV6 : Bool, a.is4 = !isV6 →
      ((∃ i ∈ intervals (cidrsToElements ((reconcileBlacklist prot cfbs).ofFamily
        (if isV6 then .v6 else .v4)) isV6), i.Mem a.number) ↔
          ∃ p, Accepted prot cfbs p ∧ p.contains a = true) := by
    intro isV6 ha
    rw [intervals_cidrsToElements]
    constructor
    · rintro ⟨i, hi, hmem⟩
      obtain ⟨p, hp, rfl⟩ := List.mem_map.mp hi
      obtain ⟨haccepted, his4⟩ := mem_written_iff.mp (List.mem_filterMap.mp hp)
      refine ⟨p, haccepted, ?_⟩
      exact (contains_iff_mem_network haccepted.bits_ne (his4.trans ha.symm)).mpr hmem
    · rintro ⟨p, haccepted, hcontains⟩
      have his4 : p.addr.is4 = a.is4 := ((Prefix.contains_iff rfl).mp hcontains).1
      refine ⟨_, List.mem_map_of_mem (List.mem_filterMap.mpr
        (mem_written_iff.mpr ⟨haccepted, his4.trans ha⟩)), ?_⟩
      exact (contains_iff_mem_network haccepted.bits_ne his4).mp hcontains
  cases a with
  | v4 n => exact hset false rfl
  | v6 n => exact hset true rfl

/-! ## Mapped networks -/

/-- `::ffff:0:0/96`, the mapped addresses. -/
def mappedRange : Prefix := { addr := .v6 0xffff00000000, bits := 96, bits_le := by decide }

theorem mappedRange_contains_iff : mappedRange.contains a = true ↔ ¬ a.unmap = a := by
  cases a with
  | v4 n => exact iff_of_false Bool.false_ne_true (not_not_intro rfl)
  | v6 n =>
    have hcontains : mappedRange.contains (.v6 n) = true ↔ n.toNat / 2 ^ 32 = 0xffff := by
      unfold Prefix.contains
      rw [Bool.and_eq_true, decide_eq_true_eq, decide_eq_true_eq]
      exact and_iff_right rfl
    rw [hcontains]
    by_cases hmapped : n.toNat / 2 ^ 32 = 0xffff
    · apply iff_of_true hmapped
      have hunmap : (Addr.v6 n).unmap = .v4 (BitVec.ofNat 32 n.toNat) := if_pos hmapped
      rw [hunmap]
      exact fun h => nomatch h
    · exact iff_of_false hmapped (not_not_intro (Addr.unmap_v6 hmapped))

/-- A prefix without a mapping that holds a mapped address holds them all. -/
theorem spans_mappedRange (hq : Normal q) (hqa : q.contains a = true)
    (ha : mappedRange.contains a = true) : q.Spans mappedRange := by
  rcases Prefix.spans_or_spans hqa ha with h | h
  · exact h
  · exact absurd hq (mappedRange_contains_iff.mp (h.contains q.contains_addr))

theorem mapped_of_masked (hp : ¬ Normal p.masked) (ha : p.contains a = true) :
    mappedRange.contains a = true := by
  have hmapped := mappedRange_contains_iff.mpr hp
  have hmasked : p.masked.contains p.masked.addr = true := p.masked.contains_addr
  rcases Prefix.spans_or_spans hmapped hmasked with h | h
  · rw [← contains_masked] at ha
    exact h.contains ha
  · obtain ⟨hfamily, hbits, -⟩ := h
    change p.bits ≤ 96 at hbits
    by_cases heq : p.bits = 96
    · have hspans : mappedRange.Spans p.masked := by
        refine ⟨hfamily.symm, ?_, (Prefix.contains_iff rfl).mp hmapped |>.2⟩
        rw [masked_bits, heq]
        exact Nat.le_refl _
      rw [← contains_masked] at ha
      exact hspans.contains ha
    · -- A shorter network starts at a multiple of a power that the mapped addresses are not on.
      exfalso
      have hlen : p.addr.bitLen = 128 := by
        have := Addr.bitLen_eq hfamily
        rw [masked_bitLen] at this
        exact this
      have hfirst : p.masked.addr.number / 2 ^ 32 = 0xffff :=
        ((Prefix.contains_iff rfl).mp hmapped).2
      have hpow : 2 ^ (128 - p.bits) = 2 ^ 32 * (2 * 2 ^ (95 - p.bits)) := by
        rw [← Nat.pow_succ', ← Nat.pow_add]
        congr 1
        omega
      rw [masked_number, hlen] at hfirst
      unfold cleared at hfirst
      rw [hpow, Nat.mul_left_comm, Nat.mul_div_cancel_left _ (by omega), Nat.mul_left_comm] at hfirst
      omega

/-! ## What is protected -/

def Spares (prot : BlacklistProtection) (sets : KernelSets) : Prop :=
  ∀ a, sets.Holds a → ∀ q ∈ prot.prefixes, ¬ q.contains a = true

/-- An accepted text whose network, without its mapping, shares no address with a protected prefix
is written in full. -/
def WritesTheRest (prot : BlacklistProtection) (cfbs : List (Option Reading)) (sets : KernelSets) :
    Prop :=
  ∀ spec p, some spec ∈ cfbs → spec.proposed = some p →
    (∀ q ∈ prot.prefixes, ∀ a, (unmapPrefix p).contains a = true → ¬ q.contains a = true) →
    ∀ a, p.contains a = true → sets.Holds a

theorem proposed_normal_iff (h : spec.proposed = some p) : Normal p.masked ↔ Normal p := by
  obtain ⟨⟨c, f⟩, hparse, hread⟩ := Option.bind_eq_some_iff.mp h
  cases spec with
  | cidr p₀ =>
    change canonicalisePrefix p₀ = some (c, f) at hparse
    unfold canonicalisePrefix at hparse
    split at hparse
    · cases hparse
    · obtain ⟨rfl, -⟩ := Prod.mk.inj (Option.some.inj hparse)
      obtain rfl : p₀.masked = p := Option.some.inj hread
      unfold Normal
      rw [masked_masked_addr]
  | addr a zone =>
    obtain ⟨rfl, -⟩ := Prod.mk.inj (Option.some.inj hparse)
    unfold Canonical.parsePrefix at hread
    split at hread
    · obtain rfl := Option.some.inj hread
      have hnormal : Normal ⟨a.unmap, a.unmap.bitLen, Nat.le_refl _⟩ := a.unmap_unmap
      refine iff_of_true ?_ hnormal
      have hhost : (a.unmap.truncated a.unmap.bitLen) = a.unmap := by
        refine Addr.eq_of_number (Addr.is4_withNumber _ _) ?_
        rw [Addr.truncated_number]
        unfold cleared head
        rw [Nat.sub_self, Nat.pow_zero, Nat.div_one, Nat.mul_one]
      unfold Normal
      change (a.unmap.truncated a.unmap.bitLen).unmap = a.unmap.truncated a.unmap.bitLen
      rw [hhost]
      exact a.unmap_unmap
    · cases hread
  | malformed => cases hparse

theorem writes_the_rest (hnormal : prot.AllNormal) (cfbs : List (Option Reading)) :
    WritesTheRest prot cfbs (applyBlacklist (reconcileBlacklist prot cfbs)) := by
  intro spec p hspec hproposed hapart a ha
  exact holds_iff.mpr ⟨p, ⟨spec, hspec, hproposed, (intersects_eq_none_iff hnormal).mpr hapart⟩, ha⟩

/-- The blacklist spares what is protected just when no protected IPv6 prefix holds the whole mapped
range, or the comparison refuses every entry that is a mapped network. -/
theorem spares_iff (hnormal : prot.AllNormal) (cfbs : List (Option Reading)) :
    Spares prot (applyBlacklist (reconcileBlacklist prot cfbs)) ↔
      (∀ q ∈ prot.prefixes, ¬ q.Spans mappedRange) ∨
        ∀ spec p, some spec ∈ cfbs → spec.proposed = some p → ¬ Normal p →
          prot.intersects p ≠ none := by
  constructor
  · intro hspares
    by_contra hcond
    rw [not_or] at hcond
    obtain ⟨hwide, hentry⟩ := hcond
    push Not at hwide hentry
    obtain ⟨q, hq, hspans⟩ := hwide
    obtain ⟨spec, p, hspec, hproposed, hmapped, hpasses⟩ := hentry
    have hheld : (applyBlacklist (reconcileBlacklist prot cfbs)).Holds p.addr :=
      holds_iff.mpr ⟨p, ⟨spec, hspec, hproposed, hpasses⟩, p.contains_addr⟩
    exact hspares p.addr hheld q hq (hspans.contains (mappedRange_contains_iff.mpr hmapped))
  · intro hcond a hheld q hq hqa
    obtain ⟨p, ⟨spec, hspec, hproposed, hpasses⟩, hpa⟩ := holds_iff.mp hheld
    by_cases hmapped : Normal p
    · rw [← unmapPrefix_of_normal hmapped] at hpa
      exact (intersects_eq_none_iff hnormal).mp hpasses q hq a hpa hqa
    · have hinside := mapped_of_masked ((proposed_normal_iff hproposed).not.mpr hmapped) hpa
      rcases hcond with hnone | hrefused
      · exact hnone q hq (spans_mappedRange (hnormal q hq) hqa hinside)
      · exact hrefused spec p hspec hproposed hmapped hpasses

/-! ## The entries and the protection of a pass -/

/-- Whatever the addresses and ranges that build a protection: an accepted entry that overlaps none
of it is written, and the sets spare it just when no mapped network is accepted beside a protected
prefix that holds the whole mapped range. -/
theorem blacklist_spares_iff (nodeIPs peerV4 peerV6 trustedV4 trustedV6 : List Reading)
    (cfbs : List (Option Reading)) :
    let prot := buildBlacklistProtection nodeIPs peerV4 peerV6 trustedV4 trustedV6
    let sets := applyBlacklist (reconcileBlacklist prot cfbs)
    (Spares prot sets ∧ WritesTheRest prot cfbs sets) ↔
      (∀ q ∈ prot.prefixes, ¬ q.Spans mappedRange) ∨
        ∀ spec p, some spec ∈ cfbs → spec.proposed = some p → ¬ Normal p →
          prot.intersects p ≠ none := by
  have hnormal := buildBlacklistProtection_normal nodeIPs peerV4 peerV6 trustedV4 trustedV6
  intro prot sets
  exact (and_iff_left (writes_the_rest hnormal cfbs)).trans (spares_iff hnormal cfbs)

def wideRange : Prefix := { addr := .v6 0, bits := 8, bits_le := by decide }

def mappedTen : Prefix := { addr := .v6 0xffff0a000000, bits := 104, bits_le := by decide }

/-- A mapped network is written beside a trusted range that holds it. -/
theorem mapped_network_written :
    ¬ ∀ (nodeIPs peerV4 peerV6 trustedV4 trustedV6 : List Reading) (cfbs : List (Option Reading)),
      let prot := buildBlacklistProtection nodeIPs peerV4 peerV6 trustedV4 trustedV6
      let sets := applyBlacklist (reconcileBlacklist prot cfbs)
      Spares prot sets ∧ WritesTheRest prot cfbs sets := by
  intro hall
  obtain ⟨hspares, -⟩ := hall [] [] [] [] [.cidr wideRange] [some (.cidr mappedTen)]
  have hheld : (applyBlacklist (reconcileBlacklist
      (buildBlacklistProtection [] [] [] [] [.cidr wideRange]) [some (.cidr mappedTen)])).Holds
        mappedTen.addr := by
    refine holds_iff.mpr ⟨mappedTen.masked, ⟨.cidr mappedTen, List.mem_singleton.mpr rfl, rfl, ?_⟩, ?_⟩
    · rfl
    · rfl
  exact hspares mappedTen.addr hheld wideRange (List.mem_singleton.mpr rfl) (by rfl)

end Insula.Firewall
