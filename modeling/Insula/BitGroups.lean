import Mathlib.Data.Nat.Bitwise
import Mathlib.Data.List.Induction

/-!
# Cutting a row of bits into groups

Numbers as rows of bits, most significant first, and numbers written one behind the other at one
width. A row is cut into groups of a width and a rest that is shorter than a group in one way.
-/

namespace Insula.BitGroups

abbrev Bits := List Bool

/-- The last `width` bits of a number. -/
def bitsOf : ℕ → ℕ → Bits
  | 0, _ => []
  | width + 1, n => bitsOf width (n / 2) ++ [decide (n % 2 = 1)]

def number (bs : Bits) : ℕ := bs.foldl (fun n b => 2 * n + b.toNat) 0

@[simp] theorem length_bitsOf (width n : ℕ) : (bitsOf width n).length = width := by
  induction width generalizing n with
  | zero => rfl
  | succ width ih => rw [bitsOf, List.length_append, ih, List.length_singleton]

@[simp] theorem number_nil : number [] = 0 := rfl

theorem number_snoc (bs : Bits) (b : Bool) : number (bs ++ [b]) = 2 * number bs + b.toNat := by
  rw [number, List.foldl_append, List.foldl_cons, List.foldl_nil, number]

theorem number_append (xs ys : Bits) : number (xs ++ ys) = number xs * 2 ^ ys.length + number ys := by
  induction ys using List.reverseRecOn with
  | nil => rw [List.append_nil, List.length_nil, pow_zero, mul_one, number_nil, add_zero]
  | append_singleton ys b ih =>
    rw [← List.append_assoc, number_snoc, number_snoc, ih, List.length_append, List.length_singleton,
      pow_succ, ← mul_assoc]
    omega

theorem number_lt (bs : Bits) : number bs < 2 ^ bs.length := by
  induction bs using List.reverseRecOn with
  | nil => exact Nat.one_pos
  | append_singleton bs b ih =>
    have hb : b.toNat ≤ 1 := Bool.toNat_le b
    rw [number_snoc, List.length_append, List.length_singleton, pow_succ]
    omega

theorem bitsOf_number (bs : Bits) : bitsOf bs.length (number bs) = bs := by
  induction bs using List.reverseRecOn with
  | nil => rfl
  | append_singleton bs b ih =>
    have hb : b.toNat ≤ 1 := Bool.toNat_le b
    have hhalf : number (bs ++ [b]) / 2 = number bs := by rw [number_snoc]; omega
    have hodd : number (bs ++ [b]) % 2 = b.toNat := by rw [number_snoc]; omega
    rw [List.length_append, List.length_singleton, bitsOf, hhalf, hodd, ih]
    cases b <;> rfl

theorem number_bitsOf (width n : ℕ) : number (bitsOf width n) = n % 2 ^ width := by
  induction width generalizing n with
  | zero => rw [bitsOf, number_nil, pow_zero, Nat.mod_one]
  | succ width ih =>
    have hbit : (decide (n % 2 = 1)).toNat = n % 2 := by
      rcases Nat.mod_two_eq_zero_or_one n with h | h <;> rw [h] <;> rfl
    rw [bitsOf, number_snoc, ih, hbit, pow_succ, mul_comm (2 ^ width), Nat.mod_mul]
    omega

theorem bitsOf_injective {width m n : ℕ} (hm : m < 2 ^ width) (hn : n < 2 ^ width)
    (h : bitsOf width m = bitsOf width n) : m = n := by
  have hnumber := congrArg number h
  rwa [number_bitsOf, number_bitsOf, Nat.mod_eq_of_lt hm, Nat.mod_eq_of_lt hn] at hnumber

/-! ## Groups -/

def written (width : ℕ) (gs : List ℕ) : Bits := gs.flatMap (bitsOf width)

@[simp] theorem written_nil (width : ℕ) : written width [] = [] := rfl

theorem written_cons (width g : ℕ) (gs : List ℕ) :
    written width (g :: gs) = bitsOf width g ++ written width gs := List.flatMap_cons

theorem written_snoc (width : ℕ) (gs : List ℕ) (g : ℕ) :
    written width (gs ++ [g]) = written width gs ++ bitsOf width g := by
  rw [written, List.flatMap_append, List.flatMap_cons, List.flatMap_nil, List.append_nil, written]

/-- A row is cut into whole groups and a rest in one way. -/
theorem written_cancel {width : ℕ} {gs gs' : List ℕ} {zs zs' : Bits} (hgs : ∀ g ∈ gs, g < 2 ^ width)
    (hgs' : ∀ g ∈ gs', g < 2 ^ width) (hzs : zs.length < width) (hzs' : zs'.length < width)
    (h : written width gs ++ zs = written width gs' ++ zs') : gs = gs' := by
  induction gs generalizing gs' with
  | nil =>
    cases gs' with
    | nil => rfl
    | cons g' gs' =>
      have hlength := congrArg List.length h
      rw [written_nil, List.nil_append, written_cons, List.append_assoc, List.length_append,
        length_bitsOf] at hlength
      omega
  | cons g gs ih =>
    cases gs' with
    | nil =>
      have hlength := congrArg List.length h
      rw [written_nil, List.nil_append, written_cons, List.append_assoc, List.length_append,
        length_bitsOf] at hlength
      omega
    | cons g' gs' =>
      rw [written_cons, written_cons, List.append_assoc, List.append_assoc] at h
      obtain ⟨hfirst, hrest⟩ := List.append_inj h (by rw [length_bitsOf, length_bitsOf])
      have hg := bitsOf_injective (hgs g List.mem_cons_self) (hgs' g' List.mem_cons_self) hfirst
      rw [hg, ih (fun x hx => hgs x (List.mem_cons_of_mem _ hx))
        (fun x hx => hgs' x (List.mem_cons_of_mem _ hx)) hrest]

end Insula.BitGroups
