import Insula.CrowdsecReconcile

/-!
# Elements of the interval sets

An interval set of the firewall takes its elements in pairs, a key that opens an interval and a key
that ends it. The keys of a network are its first number and the number after its last one.
-/

namespace Insula.Networks

theorem cleared_add_le {w bits n : ℕ} (hbits : bits ≤ w) (hn : n < 2 ^ w) :
    cleared w bits n + 2 ^ (w - bits) ≤ 2 ^ w := by
  have hpow : 2 ^ w = 2 ^ bits * 2 ^ (w - bits) := by
    rw [← Nat.pow_add, Nat.add_sub_cancel' hbits]
  have hhead : head w bits n < 2 ^ bits := by
    unfold head
    rw [hpow] at hn
    exact Nat.div_lt_of_lt_mul (by rw [Nat.mul_comm]; exact hn)
  unfold cleared
  rw [hpow, ← Nat.succ_mul]
  exact Nat.mul_le_mul_right _ hhead

/-- The numbers of a network lie between its first number and the next network's. -/
theorem head_eq_iff {w bits m n : ℕ} : head w bits n = head w bits m ↔
      cleared w bits m ≤ n ∧ n < cleared w bits m + 2 ^ (w - bits) := by
  have hpos : 0 < 2 ^ (w - bits) := Nat.pow_pos (by omega)
  unfold cleared head
  rw [Nat.div_eq_iff hpos]
  constructor
  · rintro ⟨hle, hlt⟩
    exact ⟨hle, by omega⟩
  · rintro ⟨hle, hlt⟩
    exact ⟨hle, by omega⟩

end Insula.Networks

namespace Insula.Nft

open CrowdsecL4 Networks

/-- The keys before `stop`, or all the last ones when `stop` has wrapped to zero. -/
structure Interval where
  start : ℕ
  stop : ℕ
deriving DecidableEq, Repr

namespace Interval

def Mem (i : Interval) (n : ℕ) : Prop := i.start ≤ n ∧ (n < i.stop ∨ i.stop = 0)

instance (i : Interval) (n : ℕ) : Decidable (i.Mem n) := inferInstanceAs (Decidable (_ ∧ _))

def Disjoint (w : ℕ) (i j : Interval) : Prop := ∀ n, n < 2 ^ w → i.Mem n → ¬ j.Mem n

theorem Disjoint.symm {w : ℕ} {i j : Interval} (h : i.Disjoint w j) : j.Disjoint w i :=
  fun n hn hj hi => h n hn hi hj

end Interval

def intervals : List SetElement → List Interval
  | opening :: ending :: rest => ⟨opening.key, ending.key⟩ :: intervals rest
  | _ => []

def pair (i : Interval) (timeout : ℤ) : List SetElement :=
  [{ key := i.start, timeout := timeout, intervalEnd := false },
    { key := i.stop, timeout := 0, intervalEnd := true }]

theorem intervals_flatMap {α : Type*} {f : α → List SetElement} {g : α → Interval} {t : α → ℤ}
    (h : ∀ a, f a = pair (g a) (t a)) (l : List α) : intervals (l.flatMap f) = l.map g := by
  induction l with
  | nil => rfl
  | cons a l ih =>
    rw [List.flatMap_cons, h, List.map_cons, ← ih]
    rfl

def network (p : Prefix) : Interval := ⟨p.addr.number, nextNetwork p.addr p.bits⟩

@[simp] theorem masked_bits (p : Prefix) : p.masked.bits = p.bits := rfl

theorem masked_number (p : Prefix) :
    p.masked.addr.number = cleared p.addr.bitLen p.bits p.addr.number :=
  p.addr.truncated_number p.bits

@[simp] theorem masked_bitLen (p : Prefix) : p.masked.addr.bitLen = p.addr.bitLen :=
  Addr.bitLen_withNumber _ _

@[simp] theorem masked_is4 (p : Prefix) : p.masked.addr.is4 = p.addr.is4 :=
  Addr.is4_withNumber _ _

theorem mem_network {p : Prefix} (hbits : p.bits ≠ 0) {n : ℕ} (hn : n < 2 ^ p.addr.bitLen) :
    (network p.masked).Mem n ↔
      head p.addr.bitLen p.bits n = head p.addr.bitLen p.bits p.addr.number := by
  have hle := cleared_add_le p.bits_le p.addr.number_lt
  have hpos : 0 < 2 ^ (p.addr.bitLen - p.bits) := Nat.pow_pos (by omega)
  unfold network nextNetwork Interval.Mem
  dsimp only
  rw [masked_bits, if_neg hbits, masked_bitLen, masked_number, head_eq_iff]
  generalize cleared p.addr.bitLen p.bits p.addr.number = c at hle ⊢
  generalize 2 ^ (p.addr.bitLen - p.bits) = k at hle hpos ⊢
  generalize 2 ^ p.addr.bitLen = top at hle hn ⊢
  by_cases hlast : c + k = top
  · rw [hlast, Nat.mod_self]
    omega
  · rw [Nat.mod_eq_of_lt (by omega)]
    omega

theorem contains_iff_mem_network {p : Prefix} (hbits : p.bits ≠ 0) {a : Addr}
    (hfamily : p.addr.is4 = a.is4) : p.contains a = true ↔ (network p.masked).Mem a.number := by
  have hlen : a.number < 2 ^ p.addr.bitLen := by
    rw [Addr.bitLen_eq hfamily]
    exact a.number_lt
  rw [mem_network hbits hlen]
  unfold Prefix.contains
  rw [Bool.and_eq_true, decide_eq_true_eq, decide_eq_true_eq]
  exact and_iff_right hfamily

theorem head_cleared (w bits n : ℕ) : head w bits (cleared w bits n) = head w bits n := by
  rw [head_eq_iff]
  exact ⟨Nat.le_refl _, Nat.lt_add_of_pos_right (Nat.pow_pos (by omega))⟩

theorem contains_masked (p : Prefix) (a : Addr) : p.masked.contains a = p.contains a := by
  unfold Prefix.contains
  rw [masked_is4, masked_bitLen, masked_bits, masked_number, head_cleared]

theorem masked_masked_addr (p : Prefix) : p.masked.masked.addr = p.masked.addr := by
  apply Addr.eq_of_number (masked_is4 _)
  rw [masked_number, masked_bitLen, masked_bits, masked_number]
  exact cleared_eq_iff.mpr (head_cleared _ _ _)

end Insula.Nft
