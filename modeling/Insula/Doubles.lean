import Insula.HalfEven
import Mathlib.Data.List.DropRight

/-!
# Whole numbers as doubles

`Number` reads a row of digits to 53 bits, and what is too large is not finite. Two such numbers are
compared, or subtracted, one is counted up, and a number is printed with the fewest digits that are
read back.
-/

namespace Insula.Javascript

open Std (TransCmp)

/-- `Number`, of a row of digits: 53 bits are kept, to the nearest even, and what is too large is
not finite. -/
@[irreducible] def toDouble (n : ℕ) : Option ℕ :=
  let unit := 2 ^ (n.log2 - 52)
  let kept := n / unit
  let rest := n % unit
  let kept := if unit < 2 * rest ∨ (2 * rest = unit ∧ kept % 2 = 1) then kept + 1 else kept
  if kept * unit < 2 ^ 1024 then some (kept * unit) else none

theorem toDouble_eq (n : ℕ) :
    toDouble n = if HalfEven.round 52 n < 2 ^ 1024 then some (HalfEven.round 52 n) else none := by
  unfold toDouble HalfEven.round HalfEven.nearest
  rfl

theorem toDouble_eq_some {n x : ℕ} (h : toDouble n = some x) :
    HalfEven.round 52 n = x ∧ x < 2 ^ 1024 := by
  rw [toDouble_eq] at h
  split_ifs at h with hfinite
  obtain rfl := Option.some.inj h
  exact ⟨rfl, hfinite⟩

theorem lt_two_pow {n a b : ℕ} (h : n < 2 ^ a) (hab : a ≤ b) : n < 2 ^ b :=
  h.trans_le (Nat.pow_le_pow_right (by decide) hab)

theorem toDouble_of_lt {n : ℕ} (h : n < 2 ^ 53) : toDouble n = some n := by
  have hround : HalfEven.round 52 n = n := HalfEven.round_eq_self h
  rw [toDouble_eq, hround, if_pos (lt_two_pow h (by decide))]

theorem isSome_toDouble {n bits : ℕ} (h : n < 2 ^ bits) (hbits : bits < 1024) :
    (toDouble n).isSome = true := by
  have hpower : HalfEven.round 52 (2 ^ bits) = 2 ^ bits := by
    apply HalfEven.round_eq_of_dvd
    rw [Nat.log2_two_pow]
    exact Nat.pow_dvd_pow 2 (by omega)
  have hround : HalfEven.round 52 n ≤ 2 ^ bits := by
    rw [← hpower]
    exact HalfEven.round_mono 52 h.le
  have hpowers : ∀ a, bits < a → 2 ^ bits < 2 ^ a := fun a => Nat.pow_lt_pow_right (by decide)
  have hfinite : HalfEven.round 52 n < 2 ^ 1024 := hround.trans_lt (hpowers 1024 hbits)
  rw [toDouble_eq, if_pos hfinite]
  rfl

/-! ## Comparing -/

def compareDoubles : Option ℕ → Option ℕ → Ordering
  | some x, some y => compare x y
  | some _, none => .lt
  | none, some _ => .gt
  | none, none => .eq

/-- The sign of a difference. That of two infinities is not zero and not negative. -/
def compareDifference : Option ℕ → Option ℕ → Ordering
  | none, none => .gt
  | x, y => compareDoubles x y

@[simp] theorem compareDoubles_some (x y : ℕ) : compareDoubles (some x) (some y) = compare x y := by
  simp [compareDoubles]

@[simp] theorem compareDifference_some (x y : ℕ) :
    compareDifference (some x) (some y) = compare x y := by
  simp [compareDifference]

theorem compareDifference_eq {x y : Option ℕ} (h : x.isSome = true) :
    compareDifference x y = compareDoubles x y := by
  cases x with
  | none => cases h
  | some x => cases y <;> rfl

def compareNumbers (m n : ℕ) : Ordering := compareDoubles (toDouble m) (toDouble n)

def compareNumberDifference (m n : ℕ) : Ordering := compareDifference (toDouble m) (toDouble n)

theorem compareNumberDifference_eq {m n : ℕ} (h : (toDouble m).isSome = true) :
    compareNumberDifference m n = compareNumbers m n := by
  unfold compareNumberDifference compareNumbers
  exact compareDifference_eq h

/-- Infinity is above all other numbers. -/
theorem compareDoubles_eq : compareDoubles =
    compareLex (compareOn Option.isNone) (compareOn fun x => x.getD 0) := by
  funext x y
  cases x <;> cases y <;> simp [compareDoubles, compareLex, compareOn, compare, compareOfLessAndEq]

instance : TransCmp compareDoubles := by
  rw [compareDoubles_eq]
  infer_instance

/-! ## Counting -/

abbrev Double := WithTop ℕ

def double (n : ℕ) : Double := toDouble n

theorem double_eq (n : ℕ) :
    double n = if HalfEven.round 52 n < 2 ^ 1024 then (HalfEven.round 52 n : Double) else ⊤ := by
  unfold double
  rw [toDouble_eq]
  rfl

theorem double_of_le {n : ℕ} (h : n ≤ 2 ^ 53) : double n = n := by
  have hround : HalfEven.round 52 n = n := by
    rcases Nat.lt_or_eq_of_le h with hlt | rfl
    · exact HalfEven.round_eq_self hlt
    · apply HalfEven.round_eq_of_dvd
      rw [Nat.log2_two_pow]
      exact Nat.pow_dvd_pow 2 (by decide)
  have hfinite : n < 2 ^ 54 := by omega
  rw [double_eq, hround, if_pos (lt_two_pow hfinite (by decide))]

theorem double_mono : Monotone double := by
  intro m n h
  have hround := HalfEven.round_mono 52 h
  rw [double_eq, double_eq]
  generalize 2 ^ 1024 = bound
  split_ifs with hm hn hn
  · exact WithTop.coe_le_coe.mpr hround
  · exact le_top
  · exact absurd (hround.trans_lt hn) hm
  · exact le_rfl

def addOne : Double → Double := WithTop.recTopCoe ⊤ fun n => double (n + 1)

theorem addOne_coe {n : ℕ} (h : n < 2 ^ 53) : addOne n = (n + 1 : ℕ) := double_of_le h

theorem addOne_mono : Monotone addOne := by
  intro x y h
  induction y using WithTop.recTopCoe with
  | top => exact le_top
  | coe n =>
    obtain ⟨m, rfl, hmn⟩ := WithTop.le_coe_iff.mp h
    exact double_mono (Nat.succ_le_succ hmn)

/-! ## Printing -/

def shortenTo (zeros x : ℕ) : Option ℕ :=
  [HalfEven.nearest (10 ^ zeros) x * 10 ^ zeros, x / 10 ^ zeros * 10 ^ zeros,
    (x / 10 ^ zeros + 1) * 10 ^ zeros].find? fun y => toDouble y = some x

def shortest (x : ℕ) : ℕ :=
  ((List.range ((Nat.toDigits 10 x).length + 1)).reverse.findSome? (shortenTo · x)).getD x

def exponential (n : ℕ) : List Char :=
  match (Nat.toDigits 10 n).rdropWhile (· = '0') with
  | [] => ['0']
  | d :: ds => d :: (if ds = [] then [] else '.' :: ds) ++ "e+".toList ++
      Nat.toDigits 10 ((Nat.toDigits 10 n).length - 1)

def numberText (n : ℕ) : List Char :=
  match toDouble n with
  | none => "Infinity".toList
  | some x => if shortest x < 10 ^ 21 then Nat.toDigits 10 (shortest x) else exponential (shortest x)

theorem hyphen_notMem_numberText (n : ℕ) : '-' ∉ numberText n := by
  have hdigits : ∀ k, '-' ∉ Nat.toDigits 10 k := fun k hk =>
    absurd (Nat.isDigit_of_mem_toDigits (by decide) (by decide) hk) (by decide)
  have hexponential : ∀ k, '-' ∉ exponential k := by
    intro k
    unfold exponential
    split
    · decide
    · rename_i d ds heq
      have hpart : '-' ∉ d :: ds := fun h =>
        hdigits k ((List.rdropWhile_prefix _ _).subset (heq ▸ h))
      rw [List.mem_cons, not_or] at hpart
      obtain ⟨hd, hds⟩ := hpart
      split_ifs <;> simp [hd, hds, hdigits]
  unfold numberText
  split
  · decide
  · split_ifs
    · exact hdigits _
    · exact hexponential _

end Insula.Javascript
