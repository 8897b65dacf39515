import Mathlib.Tactic.Positivity

/-!
# Rounding to the nearest even

A number is cut to a given count of leading bits, to the nearest value that has no more of them, and
halfway to the one whose last bit is even. Rounding keeps the order, and what has few bits is kept.
-/

namespace Insula.HalfEven

def nearest (unit n : ℕ) : ℕ :=
  if unit < 2 * (n % unit) ∨ (2 * (n % unit) = unit ∧ n / unit % 2 = 1) then n / unit + 1 else n / unit

theorem le_nearest (unit n : ℕ) : n / unit ≤ nearest unit n := by
  unfold nearest
  split_ifs <;> omega

theorem nearest_le (unit n : ℕ) : nearest unit n ≤ n / unit + 1 := by
  unfold nearest
  split_ifs <;> omega

theorem nearest_one (n : ℕ) : nearest 1 n = n := by simp [nearest, Nat.mod_one]

variable {n bits : ℕ}

theorem nearest_mono {unit m : ℕ} (h : m ≤ n) : nearest unit m ≤ nearest unit n := by
  rcases Nat.lt_or_eq_of_le (Nat.div_le_div_right (c := unit) h) with hlt | heq
  · calc nearest unit m ≤ m / unit + 1 := nearest_le unit m
      _ ≤ n / unit := hlt
      _ ≤ nearest unit n := le_nearest unit n
  · have hm := Nat.div_add_mod m unit
    have hn := Nat.div_add_mod n unit
    have hrest : m % unit ≤ n % unit := by
      rw [heq] at hm
      omega
    unfold nearest
    rw [heq]
    split_ifs <;> omega

/-- What is left of the number when `bits + 1` bits are kept. -/
def round (bits n : ℕ) : ℕ := nearest (2 ^ (n.log2 - bits)) n * 2 ^ (n.log2 - bits)

theorem round_eq_self (h : n < 2 ^ (bits + 1)) : round bits n = n := by
  have hlog : n.log2 - bits = 0 := by
    by_cases hn : n = 0
    · simp [hn]
    · have := (Nat.log2_lt hn).mpr h
      omega
  rw [round, hlog, pow_zero, nearest_one, mul_one]

theorem round_le (h : bits ≤ n.log2) : round bits n ≤ 2 ^ (n.log2 + 1) := by
  have hkept : n / 2 ^ (n.log2 - bits) < 2 ^ (bits + 1) := by
    rw [Nat.div_lt_iff_lt_mul (by positivity), ← pow_add,
      show bits + 1 + (n.log2 - bits) = n.log2 + 1 by omega]
    exact Nat.lt_log2_self
  calc round bits n ≤ (n / 2 ^ (n.log2 - bits) + 1) * 2 ^ (n.log2 - bits) :=
        Nat.mul_le_mul_right _ (nearest_le _ n)
    _ ≤ 2 ^ (bits + 1) * 2 ^ (n.log2 - bits) := Nat.mul_le_mul_right _ hkept
    _ = 2 ^ (n.log2 + 1) := by
        rw [← pow_add]
        congr 1
        omega

theorem le_round (hn : n ≠ 0) (h : bits ≤ n.log2) : 2 ^ n.log2 ≤ round bits n := by
  have hkept : 2 ^ bits ≤ n / 2 ^ (n.log2 - bits) := by
    rw [Nat.le_div_iff_mul_le (by positivity), ← pow_add, show bits + (n.log2 - bits) = n.log2 by omega]
    exact Nat.log2_self_le hn
  calc 2 ^ n.log2 = 2 ^ bits * 2 ^ (n.log2 - bits) := by
        rw [← pow_add]
        congr 1
        omega
    _ ≤ n / 2 ^ (n.log2 - bits) * 2 ^ (n.log2 - bits) := Nat.mul_le_mul_right _ hkept
    _ ≤ round bits n := Nat.mul_le_mul_right _ (le_nearest _ n)

theorem log2_mono {m : ℕ} (hm : m ≠ 0) (h : m ≤ n) : m.log2 ≤ n.log2 :=
  (Nat.le_log2 (by omega)).mpr ((Nat.log2_self_le hm).trans h)

/-- The order is kept: in one binade by the multiples of one unit, and between two by the power
of two that separates them. -/
theorem round_mono (bits : ℕ) : Monotone (round bits) := by
  intro m n h
  by_cases hm : m < 2 ^ (bits + 1)
  · rw [round_eq_self hm]
    by_cases hn : n < 2 ^ (bits + 1)
    · rwa [round_eq_self hn]
    · have hne : n ≠ 0 := by
        rintro rfl
        exact hn (by positivity)
      have hlog : bits + 1 ≤ n.log2 := (Nat.le_log2 hne).mpr (not_lt.mp hn)
      calc m ≤ 2 ^ (bits + 1) := hm.le
        _ ≤ 2 ^ n.log2 := Nat.pow_le_pow_right (by decide) hlog
        _ ≤ round bits n := le_round hne (by omega)
  · have hne : m ≠ 0 := by
      rintro rfl
      exact hm (by positivity)
    have hlogm : bits + 1 ≤ m.log2 := (Nat.le_log2 hne).mpr (not_lt.mp hm)
    rcases Nat.lt_or_eq_of_le (log2_mono hne h) with hlt | heq
    · calc round bits m ≤ 2 ^ (m.log2 + 1) := round_le (by omega)
        _ ≤ 2 ^ n.log2 := Nat.pow_le_pow_right (by decide) hlt
        _ ≤ round bits n := le_round (by omega) (by omega)
    · unfold round
      rw [heq]
      exact Nat.mul_le_mul_right _ (nearest_mono h)

theorem round_eq_of_dvd (h : 2 ^ (n.log2 - bits) ∣ n) : round bits n = n := by
  have hrest : n % 2 ^ (n.log2 - bits) = 0 := Nat.mod_eq_zero_of_dvd h
  have hunit : 2 ^ (n.log2 - bits) ≠ 0 := by positivity
  have hnearest : nearest (2 ^ (n.log2 - bits)) n = n / 2 ^ (n.log2 - bits) := by
    unfold nearest
    rw [hrest, if_neg (by omega)]
  rw [round, hnearest, Nat.div_mul_cancel h]

end Insula.HalfEven
