import Insula.BlacklistProtection
import Insula.IntervalMarks
import Insula.KeyBytes
import Insula.TenantPorts

/-!
# Reading the interval sets back

The trusted ranges and the tenant ports are written as bytes of keys, and read back to see what is
in the kernel. The reader takes the marks that are written and the elements with both keys that the
kernel returns.
-/

namespace Insula.SetRoundTrips

open CrowdsecL4 Networks Nft Firewall TenantPorts IntervalMarks KeyBytes

abbrev KernelElement := Element Bytes

def sortStrings (l : List Text) : List Text := l.mergeSort textLe

theorem textLe_total (s t : Text) : textLe s t || textLe t s := by
  unfold textLe
  simpa using le_total (s.map Char.toNat) (t.map Char.toNat)

theorem textLe_trans {s t u : Text} (hst : textLe s t) (htu : textLe t u) : textLe s u := by
  unfold textLe at *
  rw [decide_eq_true_eq] at *
  exact le_trans hst htu

theorem textLe_antisymm {s t : Text} (hst : textLe s t) (hts : textLe t s) : s = t := by
  unfold textLe at *
  rw [decide_eq_true_eq] at *
  have hinj : Function.Injective Char.toNat := fun c d h => Char.toNat_inj.mp h
  exact List.map_injective_iff.mpr hinj (le_antisymm hst hts)

theorem sortStrings_eq_iff {l₁ l₂ : List Text} : sortStrings l₁ = sortStrings l₂ ↔ l₁.Perm l₂ := by
  have hperm₁ : (sortStrings l₁).Perm l₁ := List.mergeSort_perm _ _
  have hperm₂ : (sortStrings l₂).Perm l₂ := List.mergeSort_perm _ _
  constructor
  · intro h
    exact hperm₁.symm.trans (h ▸ hperm₂)
  · intro h
    have hsorted : ∀ l : List Text, (sortStrings l).Pairwise fun s t => textLe s t := by
      intro l
      apply List.pairwise_mergeSort
      · intro s t u hst htu
        exact textLe_trans hst htu
      · exact textLe_total
    exact (hperm₁.trans (h.trans hperm₂.symm)).eq_of_pairwise
      (fun s t _ _ hst hts => textLe_antisymm hst hts) (hsorted l₁) (hsorted l₂)

/-! ## Networks -/

def addrBytes (a : Addr) : Bytes := bigEndian (a.bitLen / 8) a.number

def bytesToAddr (b : Bytes) (isV6 : Bool) : Option Addr :=
  if isV6 then if b.length = 16 then some (.v6 (BitVec.ofNat 128 (bigValue b))) else none
  else if b.length = 4 then some (.v4 (BitVec.ofNat 32 (bigValue b))) else none

def addPow2 (a : Addr) (exp : ℕ) : Bytes :=
  let b := addrBytes a
  if b.length ≤ exp / 8 then b.map fun _ => 255 else (addBit exp b.reverse).reverse

def nextNetwork (a : Addr) (bits : ℕ) : Bytes := addPow2 a (a.bitLen - bits)

def cidrElements (isV6 : Bool) (c : Canonical) : List KernelElement :=
  match c.parsePrefix with
  | none => []
  | some p =>
    let p := p.masked
    if p.addr.is4 = isV6 then []
    else [{ key := addrBytes p.addr, keyEnd := none, intervalEnd := false },
      { key := nextNetwork p.addr p.bits, keyEnd := none, intervalEnd := true }]

def cidrsToElements (cidrs : List Canonical) (isV6 : Bool) : List KernelElement :=
  cidrs.flatMap (cidrElements isV6)

/-- The length of a prefix whose addresses are those from `start` on and before `stop`. -/
def prefixFromInterval (start stop : Addr) (totalBits : ℕ) : Option ℕ :=
  if stop.number ≤ start.number then none
  else
    let diff := stop.number - start.number
    let k := Nat.log2 diff
    if diff ≠ 2 ^ k then none else if totalBits < k then none else some (totalBits - k)

def totalBits (isV6 : Bool) : ℕ := if isV6 then 128 else 32

def emitCidr (isV6 : Bool) (start endExcl : Addr) : Option Text :=
  (prefixFromInterval start endExcl (totalBits isV6)).map fun bits =>
    start.text ++ '/' :: IpText.decimal bits

def decodeCidrElements (elems : List KernelElement) (isV6 : Bool) : List Text :=
  sortStrings (decode (fun b => bytesToAddr b isV6) (emitCidr isV6) none elems)

/-! ### Keys -/

theorem bytes_of_bits (a : Addr) : 256 ^ (a.bitLen / 8) = 2 ^ a.bitLen := by
  have hbyte : 256 = 2 ^ 8 := by rfl
  have hlen : 8 * (a.bitLen / 8) = a.bitLen := by
    cases a with
    | v4 n => norm_num [Addr.bitLen]
    | v6 n => norm_num [Addr.bitLen]
  rw [hbyte, ← Nat.pow_mul, hlen]

variable {isV6 : Bool} {a : Addr}

theorem bytesToAddr_addrBytes (h : a.is4 = !isV6) : bytesToAddr (addrBytes a) isV6 = some a := by
  have hnumber : a.number % 256 ^ (a.bitLen / 8) = a.number := by
    rw [bytes_of_bits]
    exact Nat.mod_eq_of_lt a.number_lt
  unfold bytesToAddr addrBytes
  rw [length_bigEndian, bigValue_bigEndian, hnumber]
  cases a with
  | v4 n =>
    cases isV6 with
    | true => cases h
    | false => simp [Addr.bitLen, Addr.number]
  | v6 n =>
    cases isV6 with
    | true => simp [Addr.bitLen, Addr.number]
    | false => cases h

theorem littleEndian_mod (len n : ℕ) : littleEndian len (n % 256 ^ len) = littleEndian len n := by
  have hleft : littleEndian (littleEndian len (n % 256 ^ len)).length
      (value (littleEndian len (n % 256 ^ len))) = littleEndian len (n % 256 ^ len) :=
    littleEndian_value fun b hb => mem_littleEndian hb
  have hright : littleEndian (littleEndian len n).length (value (littleEndian len n)) =
      littleEndian len n := littleEndian_value fun b hb => mem_littleEndian hb
  rw [length_littleEndian, value_littleEndian, Nat.mod_mod] at hleft
  rw [length_littleEndian, value_littleEndian] at hright
  rw [← hleft, hright]

def after (a : Addr) (bits : ℕ) : Addr :=
  a.withNumber ((a.number + 2 ^ (a.bitLen - bits)) % 2 ^ a.bitLen)

/-- The bytes carry as the number does. -/
theorem nextNetwork_eq {bits : ℕ} (hpos : bits ≠ 0) (hbits : bits ≤ a.bitLen) :
    nextNetwork a bits = addrBytes (after a bits) := by
  have hlen := a.bitLen_ge
  have hlt : (a.number + 2 ^ (a.bitLen - bits)) % 2 ^ a.bitLen < 2 ^ a.bitLen :=
    Nat.mod_lt _ (Nat.pow_pos (by omega))
  have hbyte : ¬ a.bitLen / 8 ≤ (a.bitLen - bits) / 8 := by
    cases a with
    | v4 n =>
      change bits ≤ 32 at hbits
      change ¬ 32 / 8 ≤ (32 - bits) / 8
      omega
    | v6 n =>
      change bits ≤ 128 at hbits
      change ¬ 128 / 8 ≤ (128 - bits) / 8
      omega
  unfold nextNetwork addPow2 addrBytes after
  dsimp only
  rw [length_bigEndian, if_neg hbyte, Addr.bitLen_withNumber, Addr.number_withNumber hlt]
  unfold bigEndian
  rw [List.reverse_reverse, addBit_littleEndian _ (by omega), ← bytes_of_bits, littleEndian_mod]

/-- The element as the kernel gets it, with its key in `len` bytes. -/
def kernelElement (len : ℕ) (e : SetElement) : KernelElement :=
  { key := bigEndian len e.key, keyEnd := none, intervalEnd := e.intervalEnd }

theorem nextNetwork_eq_bigEndian {bits : ℕ} (hbits : bits ≤ a.bitLen) :
    nextNetwork a bits = bigEndian (a.bitLen / 8) (CrowdsecL4.nextNetwork a bits) := by
  unfold CrowdsecL4.nextNetwork
  by_cases hzero : bits = 0
  · have hlong : (addrBytes a).length ≤ (a.bitLen - bits) / 8 := by
      rw [addrBytes, length_bigEndian, hzero, Nat.sub_zero]
    rw [if_pos hzero, nextNetwork, addPow2, if_pos hlong, List.map_const', addrBytes, length_bigEndian]
    cases a with
    | v4 n =>
      simp only [Addr.bitLen]
      decide
    | v6 n =>
      simp only [Addr.bitLen]
      decide
  · have hlt : (a.number + 2 ^ (a.bitLen - bits)) % 2 ^ a.bitLen < 2 ^ a.bitLen :=
      Nat.mod_lt _ (Nat.pow_pos (by omega))
    rw [if_neg hzero, nextNetwork_eq hzero hbits, addrBytes, after, Addr.bitLen_withNumber,
      Addr.number_withNumber hlt]

/-- The elements by their bytes are those by their numbers. -/
theorem cidrsToElements_eq_map (cidrs : List Canonical) (isV6 : Bool) :
    cidrsToElements cidrs isV6 =
      (Firewall.cidrsToElements cidrs isV6).map (kernelElement (totalBits isV6 / 8)) := by
  unfold cidrsToElements Firewall.cidrsToElements
  rw [List.map_flatMap]
  congr 1
  funext c
  unfold cidrElements Firewall.cidrElements
  cases c.parsePrefix with
  | none => rfl
  | some p =>
    dsimp only
    by_cases hfamily : p.masked.addr.is4 = isV6
    · rw [if_pos hfamily, if_pos hfamily]
      rfl
    · have hlen : totalBits isV6 = p.masked.addr.bitLen := by
        unfold totalBits
        cases haddr : p.masked.addr with
        | v4 n => cases isV6 <;> simp_all [Addr.is4, Addr.bitLen]
        | v6 n => cases isV6 <;> simp_all [Addr.is4, Addr.bitLen]
      rw [if_neg hfamily, if_neg hfamily, hlen, nextNetwork_eq_bigEndian p.masked.bits_le]
      rfl

/-! ### Accepted networks -/

def familyOf (isV6 : Bool) : Family := if isV6 then .v6 else .v4

/-- A text of this family that `parseIPOrCIDR` accepts, in its canonical form. -/
def AcceptedCidr (isV6 : Bool) (c : Canonical) : Prop :=
  ∃ text, parseIPOrCIDR text = some (c, familyOf isV6)

def InRange (c : Canonical) (n : ℕ) : Prop :=
  c.addr.number ≤ n ∧ n < c.addr.number + 2 ^ (c.addr.bitLen - c.bits)

/-- The network holds the last address of all. -/
def ReachesTop (c : Canonical) : Prop :=
  c.addr.number + 2 ^ (c.addr.bitLen - c.bits) = 2 ^ c.addr.bitLen

instance (c : Canonical) : Decidable (ReachesTop c) := inferInstanceAs (Decidable (_ = _))

theorem is4_of_family (h : Addr.family a = familyOf isV6) : a.is4 = !isV6 := by
  cases a with
  | v4 n =>
    cases isV6 with
    | true => cases h
    | false => rfl
  | v6 n =>
    cases isV6 with
    | true => rfl
    | false => cases h

/-- What is accepted is of the family, is not the network of all addresses and has no host bits. -/
structure CanonicalOf (isV6 : Bool) (c : Canonical) : Prop where
  family : c.addr.is4 = !isV6
  bits_ne : c.bits ≠ 0
  masked : cleared c.addr.bitLen c.bits c.addr.number = c.addr.number

theorem AcceptedCidr.canonical {c : Canonical} (h : AcceptedCidr isV6 c) : CanonicalOf isV6 c := by
  obtain ⟨text, hparse⟩ := h
  cases text with
  | cidr p =>
    change canonicalisePrefix p = some (c, familyOf isV6) at hparse
    unfold canonicalisePrefix at hparse
    split at hparse
    · cases hparse
    next hbits =>
      obtain ⟨rfl, hfamily⟩ := Prod.mk.inj (Option.some.inj hparse)
      refine ⟨is4_of_family hfamily, hbits, ?_⟩
      change cleared p.masked.addr.bitLen p.bits p.masked.addr.number = p.masked.addr.number
      rw [masked_bitLen, masked_number]
      exact cleared_eq_iff.mpr (head_cleared _ _ _)
  | addr a zone =>
    obtain ⟨rfl, hfamily⟩ := Prod.mk.inj (Option.some.inj hparse)
    have hlen := a.unmap.bitLen_ge
    refine ⟨is4_of_family hfamily, ?_, ?_⟩
    · change a.unmap.bitLen ≠ 0
      omega
    · change cleared a.unmap.bitLen a.unmap.bitLen a.unmap.number = a.unmap.number
      unfold cleared head
      rw [Nat.sub_self, Nat.pow_zero, Nat.div_one, Nat.mul_one]
  | malformed => cases hparse

namespace CanonicalOf

variable {isV6 : Bool} {c : Canonical}

theorem bitLen (h : CanonicalOf isV6 c) : c.addr.bitLen = totalBits isV6 := by
  have hfamily := h.family
  cases hc : c.addr with
  | v4 n =>
    rw [hc] at hfamily
    cases isV6 with
    | true => cases hfamily
    | false => rfl
  | v6 n =>
    rw [hc] at hfamily
    cases isV6 with
    | true => rfl
    | false => cases hfamily

theorem le_top (h : CanonicalOf isV6 c) :
    c.addr.number + 2 ^ (c.addr.bitLen - c.bits) ≤ 2 ^ c.addr.bitLen := by
  have hle := cleared_add_le c.bits_le c.addr.number_lt
  rw [h.masked] at hle
  exact hle

/-- The interval of a network; its end is the network and the number of its addresses, or wraps. -/
theorem after_number (h : CanonicalOf isV6 c) : (after c.addr c.bits).number =
    if ReachesTop c then 0 else c.addr.number + 2 ^ (c.addr.bitLen - c.bits) := by
  have hle := h.le_top
  have hlt : (c.addr.number + 2 ^ (c.addr.bitLen - c.bits)) % 2 ^ c.addr.bitLen < 2 ^ c.addr.bitLen :=
    Nat.mod_lt _ (Nat.pow_pos (by omega))
  unfold after
  rw [Addr.number_withNumber hlt]
  by_cases htop : ReachesTop c
  · have heq : c.addr.number + 2 ^ (c.addr.bitLen - c.bits) = 2 ^ c.addr.bitLen := htop
    rw [if_pos htop, heq, Nat.mod_self]
  · have hne : c.addr.number + 2 ^ (c.addr.bitLen - c.bits) ≠ 2 ^ c.addr.bitLen := htop
    rw [if_neg htop]
    exact Nat.mod_eq_of_lt (by omega)

theorem after_family (h : CanonicalOf isV6 c) : (after c.addr c.bits).is4 = !isV6 := by
  unfold after
  rw [Addr.is4_withNumber]
  exact h.family

theorem masked_addr (h : CanonicalOf isV6 c) :
    (Prefix.masked ⟨c.addr, c.bits, c.bits_le⟩).addr = c.addr := by
  apply Addr.eq_of_number (masked_is4 _)
  rw [masked_number]
  exact h.masked

theorem not_other (h : CanonicalOf isV6 c) : ¬ c.addr.is4 = isV6 := by
  rw [h.family]
  cases isV6 with
  | true => exact Bool.noConfusion
  | false => exact Bool.noConfusion

theorem elements (h : CanonicalOf isV6 c) (hzone : c.zone = []) :
    cidrElements isV6 c = marks addrBytes (c.addr, after c.addr c.bits) := by
  have hparse : c.parsePrefix = some ⟨c.addr, c.bits, c.bits_le⟩ := if_pos hzone
  unfold cidrElements
  rw [hparse]
  dsimp only
  rw [h.masked_addr, if_neg h.not_other, masked_bits, nextNetwork_eq h.bits_ne c.bits_le]
  rfl

theorem readable (h : CanonicalOf isV6 c) :
    Readable (fun b => bytesToAddr b isV6) addrBytes (c.addr, after c.addr c.bits) :=
  ⟨bytesToAddr_addrBytes h.family, bytesToAddr_addrBytes h.after_family⟩

/-- The prefix of a network is read back unless it reaches the last address. -/
theorem emit (h : CanonicalOf isV6 c) (hzone : c.zone = []) :
    emitCidr isV6 c.addr (after c.addr c.bits) = if ReachesTop c then none else some c.text := by
  have hpos : 0 < 2 ^ (c.addr.bitLen - c.bits) := Nat.pow_pos (by omega)
  have hbits := c.bits_le
  unfold emitCidr prefixFromInterval
  rw [h.after_number]
  by_cases htop : ReachesTop c
  · rw [if_pos htop, if_pos htop, if_pos (Nat.zero_le _)]
    rfl
  · rw [if_neg htop, if_neg htop, if_neg (by omega), Nat.add_sub_cancel_left]
    dsimp only
    rw [Nat.log2_two_pow, if_neg (not_not_intro rfl), ← h.bitLen, if_neg (by omega), Option.map_some,
      Nat.sub_sub_self hbits]
    unfold Canonical.text
    rw [hzone, List.append_nil]

end CanonicalOf

/-! ### The round trip -/

def networkOf (c : Canonical) : Addr × Addr := (c.addr, after c.addr c.bits)

def joined (elems : List KernelElement) : List KernelElement :=
  match elems with
  | [opening, ending] => [{ key := opening.key, keyEnd := some ending.key, intervalEnd := false }]
  | _ => []

def plain (cidrs : List Canonical) : List Canonical := cidrs.filter fun c => c.zone = []

section RoundTrip

variable {isV6 : Bool} {cidrs : List Canonical} {c : Canonical}

theorem elements_zone (hzone : c.zone ≠ []) : cidrElements isV6 c = [] := by
  have hparse : c.parsePrefix = none := if_neg hzone
  unfold cidrElements
  rw [hparse]

theorem flatMap_plain {f g : Canonical → List KernelElement}
    (hzone : ∀ c ∈ cidrs, c.zone ≠ [] → f c = []) (hplain : ∀ c ∈ cidrs, c.zone = [] → f c = g c) :
    cidrs.flatMap f = (plain cidrs).flatMap g := by
  unfold plain
  induction cidrs with
  | nil => rfl
  | cons c cidrs ih =>
    have hrest := ih (fun d hd => hzone d (List.mem_cons_of_mem _ hd))
      (fun d hd => hplain d (List.mem_cons_of_mem _ hd))
    rw [List.flatMap_cons, hrest]
    by_cases hc : c.zone = []
    · rw [List.filter_cons_of_pos (by simpa using hc), List.flatMap_cons,
        hplain c List.mem_cons_self hc]
    · rw [List.filter_cons_of_neg (by simpa using hc), hzone c List.mem_cons_self hc, List.nil_append]

theorem cidrsToElements_eq (h : ∀ c ∈ cidrs, CanonicalOf isV6 c) :
    cidrsToElements cidrs isV6 = (plain cidrs).flatMap fun c => marks addrBytes (networkOf c) :=
  flatMap_plain (fun _ _ => elements_zone) fun c hc => (h c hc).elements

theorem joined_eq (h : ∀ c ∈ cidrs, CanonicalOf isV6 c) :
    (cidrs.flatMap fun c => joined (cidrElements isV6 c)) =
      ((plain cidrs).map networkOf).map (whole addrBytes) := by
  have hflat : (cidrs.flatMap fun c => joined (cidrElements isV6 c)) =
      (plain cidrs).flatMap fun c => [whole addrBytes (networkOf c)] := by
    apply flatMap_plain
    · intro c _ hzone
      rw [elements_zone hzone]
      rfl
    · intro c hc hzone
      rw [(h c hc).elements hzone]
      rfl
  rw [hflat, List.map_map, List.map_eq_flatMap]
  rfl

theorem mem_plain : c ∈ plain cidrs ↔ c ∈ cidrs ∧ c.zone = [] := by
  unfold plain
  rw [List.mem_filter, decide_eq_true_eq]

theorem bigValue_addrBytes (a : Addr) : bigValue (addrBytes a) = a.number := by
  unfold addrBytes
  rw [bigValue_bigEndian, bytes_of_bits]
  exact Nat.mod_eq_of_lt a.number_lt

theorem readable_plain (h : ∀ c ∈ cidrs, CanonicalOf isV6 c) :
    ∀ c ∈ plain cidrs, Readable (fun b => bytesToAddr b isV6) addrBytes (networkOf c) :=
  fun c hc => (h c (mem_plain.mp hc).1).readable

/-- As many texts as networks are read only when no network has a zone. -/
theorem plain_of_length (h : cidrs.length ≤ (plain cidrs).length) :
    (∀ c ∈ cidrs, c.zone = []) ∧ plain cidrs = cidrs := by
  have heq : plain cidrs = cidrs :=
    List.filter_sublist.eq_of_length (Nat.le_antisymm (List.length_filter_le _ _) h)
  refine ⟨?_, heq⟩
  intro c hc
  rw [← heq] at hc
  exact (mem_plain.mp hc).2

theorem plain_eq (h : ∀ c ∈ cidrs, c.zone = []) : plain cidrs = cidrs := by
  apply List.filter_eq_self.mpr
  intro c hc
  exact decide_eq_true (h c hc)

theorem exists_order (h : ∀ c ∈ cidrs, CanonicalOf isV6 c)
    (hdisjoint : cidrs.Pairwise fun c d => ∀ n, InRange c n → ¬ InRange d n) :
    ∃ order : List (Addr × Addr), order.Perm (cidrs.map networkOf) ∧
      order.Pairwise fun i j => ¬ j.1.number < i.2.number := by
  apply exists_sorted (fun a b => a.number < b.number) Addr.number
  rw [List.pairwise_map]
  apply hdisjoint.imp_of_mem
  intro c d hc hd hcd
  have hcpos : 0 < 2 ^ (c.addr.bitLen - c.bits) := Nat.pow_pos (by omega)
  have hdpos : 0 < 2 ^ (d.addr.bitLen - d.bits) := Nat.pow_pos (by omega)
  have hfirst := hcd c.addr.number
  have hfirst' := hcd d.addr.number
  unfold InRange at hfirst hfirst'
  unfold networkOf
  dsimp only
  rw [(h c hc).after_number, (h d hd).after_number]
  constructor
  · intro hle
    split
    · exact Nat.not_lt_zero _
    · omega
  · intro hle
    split
    · exact Nat.not_lt_zero _
    · omega

theorem before_of_emit {a b : Addr} {o : Text} (h : emitCidr isV6 a b = some o) :
    a.number < b.number := by
  unfold emitCidr prefixFromInterval at h
  by_contra hle
  rw [if_pos (Nat.le_of_not_lt hle)] at h
  cases h

theorem emit_isSome (h : CanonicalOf isV6 c) (hzone : c.zone = []) :
    (emitCidr isV6 (networkOf c).1 (networkOf c).2).isSome ↔ ¬ ReachesTop c := by
  have hemit : emitCidr isV6 (networkOf c).1 (networkOf c).2 = _ := h.emit hzone
  rw [hemit]
  by_cases htop : ReachesTop c
  · simp [htop]
  · simp [htop]

theorem marks_iff (h : ∀ c ∈ cidrs, CanonicalOf isV6 c)
    (hdisjoint : cidrs.Pairwise fun c d => ∀ n, InRange c n → ¬ InRange d n)
    (hzone : ∀ c ∈ cidrs, c.zone = []) {elems : List KernelElement}
    (hperm : elems.Perm (cidrsToElements cidrs isV6)) :
    decodeCidrElements elems isV6 = sortStrings (cidrs.map Canonical.text) ↔
      (∃ order : List Canonical, order.Perm cidrs ∧ elems = cidrsToElements order isV6) ∧
        ∀ c ∈ cidrs, ¬ ReachesTop c := by
  have hmarks : ∀ order : List Canonical, order.Perm cidrs → cidrsToElements order isV6 =
      order.flatMap fun c => marks addrBytes (networkOf c) := by
    intro order horder
    rw [cidrsToElements_eq fun c hc => h c (horder.subset hc), plain_eq fun c hc =>
      hzone c (horder.subset hc)]
  have hread : ∀ c ∈ cidrs, Readable (fun b => bytesToAddr b isV6) addrBytes (networkOf c) :=
    fun c hc => (h c hc).readable
  have hout : ∀ c ∈ cidrs, ∀ o, emitCidr isV6 (networkOf c).1 (networkOf c).2 = some o →
    o = c.text := by
    intro c hc o ho
    have hemit : emitCidr isV6 (networkOf c).1 (networkOf c).2 = _ := (h c hc).emit (hzone c hc)
    rw [hemit] at ho
    split at ho
    · cases ho
    · exact (Option.some.inj ho).symm
  rw [hmarks cidrs (.refl _)] at hperm
  unfold decodeCidrElements
  rw [sortStrings_eq_iff, decode_perm_iff hread (exists_order h hdisjoint) (fun _ _ _ => before_of_emit)
    hout hperm]
  apply and_congr
  · constructor
    · rintro ⟨order, horder, rfl⟩
      exact ⟨order, horder, (hmarks order horder).symm⟩
    · rintro ⟨order, horder, rfl⟩
      exact ⟨order, horder, hmarks order horder⟩
  · constructor
    · intro hsome c hc
      exact (emit_isSome (h c hc) (hzone c hc)).mp (hsome c hc)
    · intro htop c hc
      exact (emit_isSome (h c hc) (hzone c hc)).mpr (htop c hc)

theorem readable_networks {order : List Canonical} (h : ∀ c ∈ order, CanonicalOf isV6 c) :
    ∀ i ∈ order.map networkOf, Readable (fun b => bytesToAddr b isV6) addrBytes i := by
  intro i hi
  obtain ⟨c, hc, rfl⟩ := List.mem_map.mp hi
  exact (h c hc).readable

/-- In elements with both keys the networks that do not reach the last address are read back. -/
theorem decode_joined {order : List Canonical} (h : ∀ c ∈ order, CanonicalOf isV6 c) :
    decode (fun b => bytesToAddr b isV6) (emitCidr isV6) none
        (order.flatMap fun c => joined (cidrElements isV6 c)) =
      ((plain order).filter fun c => ¬ ReachesTop c).map Canonical.text := by
  have hplain : ∀ c ∈ plain order, CanonicalOf isV6 c := fun c hc => h c (mem_plain.mp hc).1
  rw [joined_eq h, decode_whole (readable_networks hplain), List.filterMap_map, ← List.filterMap_eq_map,
    List.filterMap_filter]
  apply List.filterMap_congr
  intro c hc
  have hemit : emitCidr isV6 (networkOf c).1 (networkOf c).2 = _ :=
    (hplain c hc).emit (mem_plain.mp hc).2
  rw [Function.comp_apply, hemit]
  by_cases htop : ReachesTop c
  · simp [htop]
  · simp [htop]

/-- The end key of a network that does not reach the last address is the number after its last
one. -/
theorem end_key_iff (h : CanonicalOf isV6 c) {e : KernelElement} (he : e ∈ cidrElements isV6 c)
    (hend : e.intervalEnd = true) :
    bigValue e.key = c.addr.number + 2 ^ (c.addr.bitLen - c.bits) ↔ ¬ ReachesTop c := by
  have hpos : 0 < 2 ^ (c.addr.bitLen - c.bits) := Nat.pow_pos (by omega)
  by_cases hzone : c.zone = []
  · rw [h.elements hzone] at he
    unfold marks at he
    rcases List.mem_cons.mp he with rfl | he
    · cases hend
    · rw [List.mem_singleton.mp he]
      change bigValue (addrBytes (after c.addr c.bits)) = _ ↔ _
      rw [bigValue_addrBytes, h.after_number]
      split
      next htop => exact iff_of_false (by omega) (not_not_intro htop)
      next htop => exact iff_of_true rfl htop
  · rw [elements_zone hzone] at he
    cases he

/-- The networks are read back as they are just when the marks of each stand one behind the other,
no address has a zone and no network reaches the last address; in elements with both keys the order
does not matter. The end of a network that reaches the last address is not the number after it. -/
theorem cidrs_round_trip_iff (isV6 : Bool) (cidrs : List Canonical)
    (haccepted : ∀ c ∈ cidrs, AcceptedCidr isV6 c)
    (hdisjoint : cidrs.Pairwise fun c d => ∀ n, InRange c n → ¬ InRange d n) :
    (∀ elems : List KernelElement, elems.Perm (cidrsToElements cidrs isV6) →
      (decodeCidrElements elems isV6 = sortStrings (cidrs.map Canonical.text) ↔
        (∃ order : List Canonical, order.Perm cidrs ∧ elems = cidrsToElements order isV6) ∧
          ∀ c ∈ cidrs, c.zone = [] ∧ ¬ ReachesTop c)) ∧
    (∀ order : List Canonical, order.Perm cidrs →
      (decodeCidrElements (order.flatMap fun c => joined (cidrElements isV6 c)) isV6 =
        sortStrings (cidrs.map Canonical.text) ↔ ∀ c ∈ cidrs, c.zone = [] ∧ ¬ ReachesTop c)) ∧
    ∀ c ∈ cidrs, ∀ e ∈ cidrElements isV6 c, e.intervalEnd = true →
      (bigValue e.key = c.addr.number + 2 ^ (c.addr.bitLen - c.bits) ↔ ¬ ReachesTop c) := by
  have hcanonical : ∀ c ∈ cidrs, CanonicalOf isV6 c := fun c hc => (haccepted c hc).canonical
  have hlength : ∀ l : List Text, sortStrings l = sortStrings (cidrs.map Canonical.text) →
      l.length = cidrs.length := by
    intro l h
    rw [(sortStrings_eq_iff.mp h).length_eq, List.length_map]
  refine ⟨?_, ?_, ?_⟩
  · intro elems hperm
    constructor
    · intro hread
      have hperm' := hperm
      rw [cidrsToElements_eq hcanonical] at hperm'
      have hle := length_decode_marks_le (emitCidr isV6) (readable_plain hcanonical) hperm'
      rw [hlength _ hread] at hle
      have hzone := (plain_of_length hle).1
      obtain ⟨horder, htop⟩ := (marks_iff hcanonical hdisjoint hzone hperm).mp hread
      exact ⟨horder, fun c hc => ⟨hzone c hc, htop c hc⟩⟩
    · rintro ⟨horder, hc⟩
      exact (marks_iff hcanonical hdisjoint (fun c h => (hc c h).1) hperm).mpr
        ⟨horder, fun c h => (hc c h).2⟩
  · intro order horder
    have horderCanonical : ∀ c ∈ order, CanonicalOf isV6 c :=
      fun c hc => hcanonical c (horder.subset hc)
    unfold decodeCidrElements
    rw [decode_joined horderCanonical]
    constructor
    · intro hread c hc
      have hlen := hlength _ hread
      rw [List.length_map, ← horder.length_eq] at hlen
      have hsub : ((plain order).filter fun c => ¬ ReachesTop c).Sublist order :=
        List.filter_sublist.trans List.filter_sublist
      have hmem := horder.symm.subset hc
      rw [← hsub.eq_of_length hlen, List.mem_filter, decide_eq_true_eq] at hmem
      exact ⟨(mem_plain.mp hmem.1).2, hmem.2⟩
    · intro hc
      rw [plain_eq fun c h => (hc c (horder.subset h)).1]
      have hfilter : order.filter (fun c => ¬ ReachesTop c) = order := by
        apply List.filter_eq_self.mpr
        intro c h
        exact decide_eq_true (hc c (horder.subset h)).2
      rw [hfilter]
      exact sortStrings_eq_iff.mpr (horder.map Canonical.text)
  · intro c hc e he hend
    exact end_key_iff (hcanonical c hc) he hend

end RoundTrip

def officeNetwork : Prefix := { addr := .v4 0x0a000000, bits := 24, bits_le := Nat.le_add_right 24 8 }

def branchNetwork : Prefix := { addr := .v4 0xc0a80000, bits := 16, bits_le := Nat.le_add_right 16 16 }

def upperHalf : Prefix := { addr := .v4 0x80000000, bits := 1, bits_le := Nat.le_add_right 1 31 }

def officeAndBranch : List Canonical :=
  [Prefix.canonical officeNetwork.masked, Prefix.canonical branchNetwork.masked]

theorem officeAndBranch_read :
    decodeCidrElements (cidrsToElements officeAndBranch.reverse false) false =
      sortStrings (officeAndBranch.map Canonical.text) := by
  have haccepted : ∀ c ∈ officeAndBranch, AcceptedCidr false c := by
    intro c hc
    rcases List.mem_cons.mp hc with rfl | hc
    · exact ⟨.cidr officeNetwork, rfl⟩
    · rw [List.mem_singleton.mp hc]
      exact ⟨.cidr branchNetwork, rfl⟩
  have hdisjoint : officeAndBranch.Pairwise fun c d => ∀ n, InRange c n → ¬ InRange d n := by
    apply List.pairwise_pair.mpr
    intro n hc hd
    have hlt : n < 0x0a000000 + 2 ^ 8 := hc.2
    have hle : 0xc0a80000 ≤ n := hd.1
    omega
  have hends : ∀ c ∈ officeAndBranch, c.zone = [] ∧ ¬ ReachesTop c := by decide
  have hperm : officeAndBranch.reverse.Perm officeAndBranch := List.reverse_perm _
  exact ((cidrs_round_trip_iff false officeAndBranch haccepted hdisjoint).1 _
    (hperm.flatMap_right _)).mpr ⟨⟨_, hperm, rfl⟩, hends⟩

/-- The upper half of the addresses is written and not read back. -/
theorem upperHalf_not_read : ¬ ∀ (isV6 : Bool) (cidrs : List Canonical),
    (∀ c ∈ cidrs, AcceptedCidr isV6 c) →
    (cidrs.Pairwise fun c d => ∀ n, InRange c n → ¬ InRange d n) →
    decodeCidrElements (cidrsToElements cidrs isV6) isV6 = sortStrings (cidrs.map Canonical.text) := by
  intro hall
  have haccepted : ∀ c ∈ [Prefix.canonical upperHalf.masked], AcceptedCidr false c := by
    intro c hc
    rw [List.mem_singleton.mp hc]
    exact ⟨.cidr upperHalf, rfl⟩
  have hread := hall false [Prefix.canonical upperHalf.masked] haccepted (List.pairwise_singleton _ _)
  have hlost : decode (fun b => bytesToAddr b false) (emitCidr false) none
      (cidrsToElements [Prefix.canonical upperHalf.masked] false) = [] := by rfl
  unfold decodeCidrElements at hread
  rw [hlost, sortStrings_eq_iff] at hread
  cases hread.length_eq

/-! ## Ports -/

def portBytes (p : ℕ) : Bytes := [p / 256 % 256, p % 256]

def bytesToPort : Bytes → Option ℕ
  | [a, b] => some (a * 256 + b)
  | _ => none

def rangeElements (range : ℕ × ℕ) : List KernelElement :=
  [{ key := portBytes range.1, keyEnd := none, intervalEnd := false },
    { key := portBytes ((range.2 + 1) % 65536), keyEnd := none, intervalEnd := true }]

def portsToElements (ports : List Text) : List KernelElement :=
  ports.flatMap fun p =>
    match parsePortOrRange p with
    | none => []
    | some range => rangeElements range

def rangeText (lo hi : ℕ) : Text :=
  if hi = lo then IpText.decimal lo else IpText.decimal lo ++ '-' :: IpText.decimal hi

def emitPort (start endExcl : ℕ) : Option Text :=
  if endExcl = 0 then some (rangeText start 65535)
  else if endExcl ≤ start then none
  else some (rangeText start (endExcl - 1))

def decodePortElements (elems : List KernelElement) : List Text :=
  sortStrings (decode bytesToPort emitPort none elems)

theorem portsToElements_eq (ports : List Text) :
    portsToElements ports = (ports.filterMap parsePortOrRange).flatMap rangeElements := by
  unfold portsToElements
  induction ports with
  | nil => rfl
  | cons p ports ih =>
    rw [List.flatMap_cons, List.filterMap_cons, ih]
    cases parsePortOrRange p with
    | none => rfl
    | some range => rfl

theorem portsToElements_eq_map (ports : List Text) :
    portsToElements ports = (TenantPorts.portsToElements ports).map (kernelElement 2) := by
  unfold portsToElements TenantPorts.portsToElements
  rw [List.map_flatMap]
  congr 1
  funext p
  unfold portElements
  cases parsePortOrRange p with
  | none => rfl
  | some range => rfl

theorem bytesToPort_portBytes {p : ℕ} (h : p < 65536) : bytesToPort (portBytes p) = some p := by
  have heq : p / 256 % 256 * 256 + p % 256 = p := by omega
  change some (p / 256 % 256 * 256 + p % 256) = some p
  rw [heq]

def rangeInterval (range : ℕ × ℕ) : ℕ × ℕ := (range.1, (range.2 + 1) % 65536)

theorem readable_range {range : ℕ × ℕ} (h : ValidRange range) :
    Readable bytesToPort portBytes (rangeInterval range) := by
  have hle := h.le
  have hlast := h.last
  constructor
  · exact bytesToPort_portBytes (by unfold rangeInterval; omega)
  · exact bytesToPort_portBytes (Nat.mod_lt _ (by omega))

theorem emit_range {range : ℕ × ℕ} (h : ValidRange range) :
    emitPort (rangeInterval range).1 (rangeInterval range).2 = some (rangeText range.1 range.2) := by
  have hle := h.le
  have hlast := h.last
  unfold emitPort rangeInterval
  dsimp only
  by_cases htop : range.2 = 65535
  · rw [htop]
    rfl
  · rw [Nat.mod_eq_of_lt (by omega), if_neg (by omega), if_neg (by omega), Nat.add_sub_cancel]

/-- A port stands before the end of an interval, which may have wrapped. -/
def BeforeEnd (start endExcl : ℕ) : Prop := endExcl = 0 ∨ start < endExcl

theorem beforeEnd_of_emit {start endExcl : ℕ} {o : Text} (h : emitPort start endExcl = some o) :
    BeforeEnd start endExcl := by
  unfold emitPort at h
  unfold BeforeEnd
  split at h
  next hzero => exact .inl hzero
  next =>
    split at h
    · cases h
    · omega

def RangesApart (r u : ℕ × ℕ) : Prop := r.2 < u.1 ∨ u.2 < r.1

theorem exists_order_of_ranges {ranges : List (ℕ × ℕ)} (h : ∀ r ∈ ranges, ValidRange r)
    (hdisjoint : ranges.Pairwise RangesApart) :
    ∃ order : List (ℕ × ℕ), order.Perm (ranges.map rangeInterval) ∧
      order.Pairwise fun i j => ¬ BeforeEnd j.1 i.2 := by
  apply exists_sorted BeforeEnd id
  rw [List.pairwise_map]
  apply hdisjoint.imp_of_mem
  intro r u hr hu hapart
  have hrle := (h r hr).le
  have hule := (h u hu).le
  have hrlast := (h r hr).last
  have hulast := (h u hu).last
  unfold RangesApart at hapart
  unfold rangeInterval BeforeEnd id
  dsimp only
  constructor
  · intro hle
    rw [Nat.mod_eq_of_lt (by omega)]
    omega
  · intro hle
    rw [Nat.mod_eq_of_lt (by omega)]
    omega

/-- The ranges are read back as they are just when the marks of each stand one behind the other; in
elements with both keys the order does not matter. -/
theorem ports_round_trip_iff (ports : List Text)
    (hdisjoint : (ports.filterMap parsePortOrRange).Pairwise RangesApart) :
    (∀ elems : List KernelElement, elems.Perm (portsToElements ports) → (decodePortElements elems =
          sortStrings ((ports.filterMap parsePortOrRange).map fun r => rangeText r.1 r.2) ↔
        ∃ order : List (ℕ × ℕ), order.Perm (ports.filterMap parsePortOrRange) ∧
          elems = order.flatMap rangeElements)) ∧
    ∀ order : List (ℕ × ℕ), order.Perm (ports.filterMap parsePortOrRange) →
      decodePortElements (order.flatMap fun r => joined (rangeElements r)) =
        sortStrings ((ports.filterMap parsePortOrRange).map fun r => rangeText r.1 r.2) := by
  have hvalid : ∀ r ∈ ports.filterMap parsePortOrRange, ValidRange r := by
    intro r hr
    obtain ⟨p, -, hparse⟩ := List.mem_filterMap.mp hr
    exact parsePortOrRange_valid hparse
  generalize hranges : ports.filterMap parsePortOrRange = ranges at hdisjoint hvalid
  have hread : ∀ r ∈ ranges, Readable bytesToPort portBytes (rangeInterval r) :=
    fun r hr => readable_range (hvalid r hr)
  have hout : ∀ r ∈ ranges, ∀ o, emitPort (rangeInterval r).1 (rangeInterval r).2 = some o →
      o = rangeText r.1 r.2 := by
    intro r hr o ho
    rw [emit_range (hvalid r hr)] at ho
    exact (Option.some.inj ho).symm
  have hsome : ∀ r ∈ ranges, (emitPort (rangeInterval r).1 (rangeInterval r).2).isSome := by
    intro r hr
    rw [emit_range (hvalid r hr)]
    rfl
  constructor
  · intro elems hperm
    rw [portsToElements_eq, hranges] at hperm
    unfold decodePortElements
    rw [sortStrings_eq_iff]
    exact (decode_perm_iff hread (exists_order_of_ranges hvalid hdisjoint)
      (fun _ _ _ => beforeEnd_of_emit) hout hperm).trans (and_iff_left hsome)
  · intro order horder
    have hreadorder : ∀ i ∈ order.map rangeInterval, Readable bytesToPort portBytes i := by
      intro i hi
      obtain ⟨r, hr, rfl⟩ := List.mem_map.mp hi
      exact hread r (horder.subset hr)
    have hjoined : (order.flatMap fun r => joined (rangeElements r)) =
        (order.map rangeInterval).map (whole portBytes) := by
      rw [List.map_map, List.map_eq_flatMap]
      rfl
    have heq : order.filterMap ((fun i => emitPort i.1 i.2) ∘ rangeInterval) =
        order.map fun r => rangeText r.1 r.2 := by
      rw [← List.filterMap_eq_map]
      apply List.filterMap_congr
      intro r hr
      exact emit_range (hvalid r (horder.subset hr))
    unfold decodePortElements
    rw [hjoined, decode_whole hreadorder, List.filterMap_map, heq]
    exact sortStrings_eq_iff.mpr (horder.map _)

def mediaPorts : List Text := ["3478".toList, "60000-65535".toList, "3479".toList]

/-- Two ports that lie side by side, and a range up to the last port. -/
theorem mediaPorts_read : decodePortElements (portsToElements mediaPorts) =
    sortStrings ["3478".toList, "60000-65535".toList, "3479".toList] := by
  have hparse : mediaPorts.filterMap parsePortOrRange =
    [(3478, 3478), (60000, 65535), (3479, 3479)] := by
    rfl
  have hdisjoint : (mediaPorts.filterMap parsePortOrRange).Pairwise RangesApart := by
    rw [hparse]
    unfold RangesApart
    decide
  have htexts : ((mediaPorts.filterMap parsePortOrRange).map fun r => rangeText r.1 r.2) =
      ["3478".toList, "60000-65535".toList, "3479".toList] := by
    rfl
  have hread := ((ports_round_trip_iff mediaPorts hdisjoint).1 _ (.refl _)).mpr
    ⟨_, .refl _, portsToElements_eq mediaPorts⟩
  rw [htexts] at hread
  exact hread

/-- Two opening marks before their ends lose both ports. -/
theorem crossed_marks_lost : ¬ ∀ (ports : List Text) (elems : List KernelElement),
    (ports.filterMap parsePortOrRange).Pairwise RangesApart → elems.Perm (portsToElements ports) →
    decodePortElements elems =
      sortStrings ((ports.filterMap parsePortOrRange).map fun r => rangeText r.1 r.2) := by
  intro hall
  have hparse : ["1".toList, "3".toList].filterMap parsePortOrRange = [(1, 1), (3, 3)] := by
    rfl
  have hlost : decode bytesToPort emitPort none
      [opening portBytes 1, opening portBytes 3, ending portBytes 2, ending portBytes 4] = [] := by
    rfl
  have hperm : [opening portBytes 1, opening portBytes 3, ending portBytes 2, ending portBytes 4].Perm
      (portsToElements ["1".toList, "3".toList]) := by
    rw [portsToElements_eq, hparse]
    exact (List.Perm.swap _ _ _).cons _
  have hdisjoint : (["1".toList, "3".toList].filterMap parsePortOrRange).Pairwise RangesApart := by
    rw [hparse]
    unfold RangesApart
    decide
  have hread := hall _ _ hdisjoint hperm
  unfold decodePortElements at hread
  rw [hlost, sortStrings_eq_iff, hparse] at hread
  cases hread.length_eq

end Insula.SetRoundTrips
