import Mathlib

/-!
# Networks

The numbers of `w` bits that agree with a base in their first bits. Two such networks are either
disjoint or one lies within the other, and which one is read off their lengths and bases.
-/

namespace Insula.Networks

/-- The first `bits` of the `w` bits of a number. -/
def head (w bits n : ℕ) : ℕ := n / 2 ^ (w - bits)

/-- Numbers that agree in more bits agree in fewer. -/
theorem head_eq_of_le {w b c m n : ℕ} (hbc : b ≤ c) (hcw : c ≤ w) (h : head w c m = head w c n) :
    head w b m = head w b n := by
  have hsplit : w - b = (w - c) + (c - b) := by omega
  unfold head at h ⊢
  rw [hsplit, Nat.pow_add, ← Nat.div_div_eq_div_mul, ← Nat.div_div_eq_div_mul, h]

def cleared (w bits n : ℕ) : ℕ := head w bits n * 2 ^ (w - bits)

theorem cleared_le (w bits n : ℕ) : cleared w bits n ≤ n := Nat.div_mul_le_self n _

theorem cleared_eq_iff {w bits m n : ℕ} :
    cleared w bits m = cleared w bits n ↔ head w bits m = head w bits n :=
  Nat.mul_left_inj (Nat.pos_iff_ne_zero.mp (Nat.pow_pos (by omega)))

structure Net (w : ℕ) where
  base : ℕ
  bits : ℕ
  bits_le : bits ≤ w

namespace Net

variable {w : ℕ} (p q : Net w)

def Mem (n : ℕ) : Prop := head w p.bits n = head w p.bits p.base

/-- `p` is shorter than `q` and agrees with its base. -/
def Spans : Prop := p.bits ≤ q.bits ∧ p.Mem q.base

variable {p q}

theorem mem_base (p : Net w) : p.Mem p.base := rfl

theorem Spans.mem (h : p.Spans q) {n : ℕ} (hn : q.Mem n) : p.Mem n :=
  (head_eq_of_le h.1 q.bits_le hn).trans h.2

theorem spans_or_spans {n : ℕ} (hp : p.Mem n) (hq : q.Mem n) : p.Spans q ∨ q.Spans p := by
  rcases Nat.le_total p.bits q.bits with hle | hle
  · exact .inl ⟨hle, (head_eq_of_le hle q.bits_le hq).symm.trans hp⟩
  · exact .inr ⟨hle, (head_eq_of_le hle p.bits_le hp).symm.trans hq⟩

end Net

end Insula.Networks
