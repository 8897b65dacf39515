import Mathlib.Algebra.BigOperators.Group.List.Basic
import Mathlib.Data.Int.Lemmas
import Mathlib.Data.List.Nodup
import Mathlib.Tactic.Linarith
import Mathlib.Tactic.Ring

/-!
# Shares in proportion to weights

An amount is divided among the members of a list by their weights, each share rounded down. The
shares do not exceed the amount, and what is left over completes them when one member takes it.
-/

namespace Insula.ProportionalShares

variable {α : Type}

def share (amount : ℤ) (w total : ℕ) : ℤ := amount * w / total

theorem share_nonneg {amount : ℤ} (h : 0 ≤ amount) (w total : ℕ) : 0 ≤ share amount w total :=
  Int.ediv_nonneg (mul_nonneg h (Int.natCast_nonneg w)) (Int.natCast_nonneg total)

theorem sum_share_mul_le (amount : ℤ) (weight : α → ℕ) {total : ℕ} (htotal : 0 < total) (l : List α) :
    (l.map fun a => share amount (weight a) total).sum * total ≤ amount * (l.map weight).sum := by
  induction l with
  | nil => simp
  | cons a l ih =>
    have ha : share amount (weight a) total * total ≤ amount * weight a :=
      Int.ediv_mul_le _ (by omega)
    simp only [List.map_cons, List.sum_cons, Nat.cast_add, add_mul, mul_add]
    exact add_le_add ha ih

theorem sum_share_le (amount : ℤ) (weight : α → ℕ) {l : List α} (hweight : 0 < (l.map weight).sum) :
    (l.map fun a => share amount (weight a) (l.map weight).sum).sum ≤ amount := by
  have hmul := sum_share_mul_le amount weight hweight l
  have hpos : (0 : ℤ) < (l.map weight).sum := by omega
  exact le_of_mul_le_mul_right hmul hpos

section OneMore

variable {β : Type} [DecidableEq β]

def addAt (key : α → β) (k : β) (extra : ℤ) (x : α → ℤ) (a : α) : ℤ :=
  if key a = k then x a + extra else x a

theorem sum_addAt_of_not_mem {key : α → β} {k : β} (extra : ℤ) (x : α → ℤ) {l : List α}
    (h : k ∉ l.map key) : (l.map (addAt key k extra x)).sum = (l.map x).sum := by
  induction l with
  | nil => rfl
  | cons a l ih =>
    rw [List.map_cons, List.mem_cons, not_or] at h
    have hne : key a ≠ k := fun heq => h.1 heq.symm
    rw [List.map_cons, List.sum_cons, List.map_cons, List.sum_cons, ih h.2, addAt, if_neg hne]

/-- Where keys are distinct, what one member takes more is added once. -/
theorem sum_addAt {key : α → β} {k : β} (extra : ℤ) (x : α → ℤ) {l : List α}
    (hnodup : (l.map key).Nodup) (h : k ∈ l.map key) :
    (l.map (addAt key k extra x)).sum = (l.map x).sum + extra := by
  induction l with
  | nil => cases h
  | cons a l ih =>
    rw [List.map_cons, List.nodup_cons] at hnodup
    rw [List.map_cons, List.sum_cons, List.map_cons, List.sum_cons]
    by_cases ha : key a = k
    · rw [addAt, if_pos ha, sum_addAt_of_not_mem extra x (ha ▸ hnodup.1)]
      ring
    · have hrest : k ∈ l.map key := by
        rw [List.map_cons, List.mem_cons] at h
        exact h.resolve_left fun heq => ha heq.symm
      rw [addAt, if_neg ha, ih hnodup.2 hrest]
      ring

end OneMore

end Insula.ProportionalShares
