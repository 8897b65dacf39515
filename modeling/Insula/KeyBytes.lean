import Mathlib.Tactic.Ring

/-!
# Numbers as bytes

The bytes of a key, most significant first, and the addition that carries from the last byte to the
first. Bytes are numbers below 256.
-/

namespace Insula.KeyBytes

abbrev Bytes := List ℕ

/-- The last `len` bytes of a number, least significant first. -/
@[simp] def littleEndian : ℕ → ℕ → Bytes
  | 0, _ => []
  | len + 1, n => n % 256 :: littleEndian len (n / 256)

@[simp] def value : Bytes → ℕ
  | [] => 0
  | b :: bs => b + 256 * value bs

def bigEndian (len n : ℕ) : Bytes := (littleEndian len n).reverse

def bigValue (bs : Bytes) : ℕ := value bs.reverse

@[simp] theorem length_littleEndian (len n : ℕ) : (littleEndian len n).length = len := by
  induction len generalizing n with
  | zero => rfl
  | succ len ih => rw [littleEndian, List.length_cons, ih]

@[simp] theorem length_bigEndian (len n : ℕ) : (bigEndian len n).length = len := by
  unfold bigEndian
  rw [List.length_reverse, length_littleEndian]

theorem digit_mod {d : ℕ} (hd : d < 256) (x m : ℕ) :
    d + 256 * (x % m) = (d + 256 * x) % (256 * m) := by
  rw [Nat.mod_mul, Nat.add_mul_mod_self_left, Nat.mod_eq_of_lt hd, Nat.add_mul_div_left _ _ (by omega),
    Nat.div_eq_of_lt hd, Nat.zero_add]

theorem value_littleEndian (len n : ℕ) : value (littleEndian len n) = n % 256 ^ len := by
  induction len generalizing n with
  | zero => rw [littleEndian, value, Nat.pow_zero, Nat.mod_one]
  | succ len ih =>
    rw [littleEndian, value, ih, digit_mod (Nat.mod_lt n (by omega)), Nat.mod_add_div, Nat.pow_succ,
      Nat.mul_comm (256 ^ len)]

theorem bigValue_bigEndian (len n : ℕ) : bigValue (bigEndian len n) = n % 256 ^ len := by
  unfold bigValue bigEndian
  rw [List.reverse_reverse, value_littleEndian]

variable {bs : Bytes}

theorem value_lt (h : ∀ b ∈ bs, b < 256) : value bs < 256 ^ bs.length := by
  induction bs with
  | nil => exact Nat.one_pos
  | cons b bs ih =>
    have hb := h b List.mem_cons_self
    have hbs := ih fun x hx => h x (List.mem_cons_of_mem _ hx)
    rw [value, List.length_cons, Nat.pow_succ]
    omega

theorem littleEndian_value (h : ∀ b ∈ bs, b < 256) : littleEndian bs.length (value bs) = bs := by
  induction bs with
  | nil => rfl
  | cons b bs ih =>
    have hb := h b List.mem_cons_self
    have hbs := ih fun x hx => h x (List.mem_cons_of_mem _ hx)
    rw [List.length_cons, littleEndian, value, Nat.add_mul_mod_self_left, Nat.mod_eq_of_lt hb,
      Nat.add_mul_div_left _ _ (by omega), Nat.div_eq_of_lt hb, Nat.zero_add, hbs]

theorem value_append (xs ys : Bytes) : value (xs ++ ys) = value xs + 256 ^ xs.length * value ys := by
  induction xs with
  | nil =>
    rw [List.nil_append, List.length_nil, value]
    omega
  | cons x xs ih =>
    rw [List.cons_append, value, value, ih, List.length_cons, Nat.pow_succ]
    ring

theorem mem_littleEndian {len n b : ℕ} (h : b ∈ littleEndian len n) : b < 256 := by
  induction len generalizing n with
  | zero => cases h
  | succ len ih =>
    rw [littleEndian, List.mem_cons] at h
    rcases h with rfl | h
    · exact Nat.mod_lt _ (by omega)
    · exact ih h

/-! ## Addition -/

def addCarry : ℕ → Bytes → Bytes
  | _, [] => []
  | carry, b :: bs =>
    let v := b + carry
    v % 256 :: if v / 256 = 0 then bs else addCarry (v / 256) bs

theorem length_addCarry (carry : ℕ) (bs : Bytes) : (addCarry carry bs).length = bs.length := by
  induction bs generalizing carry with
  | nil => rfl
  | cons b bs ih =>
    rw [addCarry, List.length_cons, List.length_cons]
    split
    · rfl
    · rw [ih]

theorem mem_addCarry {carry x : ℕ} (h : ∀ b ∈ bs, b < 256) (hx : x ∈ addCarry carry bs) :
    x < 256 := by
  induction bs generalizing carry with
  | nil => cases hx
  | cons b bs ih =>
    have hbs : ∀ b ∈ bs, b < 256 := fun y hy => h y (List.mem_cons_of_mem _ hy)
    rw [addCarry, List.mem_cons] at hx
    rcases hx with rfl | hx
    · exact Nat.mod_lt _ (by omega)
    · split at hx
      · exact hbs x hx
      · exact ih hbs hx

theorem value_addCarry (carry : ℕ) (h : ∀ b ∈ bs, b < 256) :
    value (addCarry carry bs) = (value bs + carry) % 256 ^ bs.length := by
  induction bs generalizing carry with
  | nil => rw [addCarry, value, List.length_nil, Nat.pow_zero, Nat.mod_one]
  | cons b bs ih =>
    have hbs : ∀ b ∈ bs, b < 256 := fun x hx => h x (List.mem_cons_of_mem _ hx)
    have hrest : value (if (b + carry) / 256 = 0 then bs else addCarry ((b + carry) / 256) bs) =
        (value bs + (b + carry) / 256) % 256 ^ bs.length := by
      split
      next hzero => rw [hzero, Nat.add_zero, Nat.mod_eq_of_lt (value_lt hbs)]
      next => exact ih _ hbs
    rw [addCarry, value, value, hrest, digit_mod (Nat.mod_lt _ (by omega)), List.length_cons,
      Nat.pow_succ, Nat.mul_comm (256 ^ bs.length)]
    congr 1
    have hsplit := Nat.mod_add_div (b + carry) 256
    omega

def addBit (exp : ℕ) (bs : Bytes) : Bytes :=
  bs.take (exp / 8) ++ addCarry (2 ^ (exp % 8)) (bs.drop (exp / 8))

theorem value_addBit {exp : ℕ} (h : ∀ b ∈ bs, b < 256) (hexp : exp / 8 ≤ bs.length) :
    value (addBit exp bs) = (value bs + 2 ^ exp) % 256 ^ bs.length := by
  have htake : (bs.take (exp / 8)).length = exp / 8 := by
    rw [List.length_take]
    omega
  have hlow : value (bs.take (exp / 8)) < 256 ^ (exp / 8) := by
    have hlt : value (bs.take (exp / 8)) < 256 ^ (bs.take (exp / 8)).length :=
      value_lt fun b hb => h b (List.mem_of_mem_take hb)
    rw [htake] at hlt
    exact hlt
  have hvalue : value bs = value (bs.take (exp / 8)) + 256 ^ (exp / 8) * value (bs.drop (exp / 8)) := by
    have happend := value_append (bs.take (exp / 8)) (bs.drop (exp / 8))
    rw [List.take_append_drop, htake] at happend
    exact happend
  have hpow : 2 ^ exp = 256 ^ (exp / 8) * 2 ^ (exp % 8) := by
    have h256 : 256 = 2 ^ 8 := by rfl
    rw [h256, ← Nat.pow_mul, ← Nat.pow_add, Nat.div_add_mod]
  have htop : 256 ^ bs.length = 256 ^ (exp / 8) * 256 ^ (bs.drop (exp / 8)).length := by
    rw [← Nat.pow_add, List.length_drop]
    congr 1
    omega
  have hsum : value bs + 2 ^ exp = value (bs.take (exp / 8)) +
      256 ^ (exp / 8) * (value (bs.drop (exp / 8)) + 2 ^ (exp % 8)) := by
    rw [hvalue, hpow]
    ring
  have hdrop : ∀ b ∈ bs.drop (exp / 8), b < 256 := fun b hb => h b (List.mem_of_mem_drop hb)
  unfold addBit
  rw [value_append, htake, value_addCarry _ hdrop, hsum, htop, Nat.mod_mul, Nat.add_mul_mod_self_left,
    Nat.mod_eq_of_lt hlow, Nat.add_mul_div_left _ _ (Nat.pow_pos (by omega)), Nat.div_eq_of_lt hlow,
    Nat.zero_add]

theorem addBit_littleEndian {exp len : ℕ} (n : ℕ) (hexp : exp / 8 ≤ len) :
    addBit exp (littleEndian len n) = littleEndian len (n + 2 ^ exp) := by
  have hbytes : ∀ b ∈ littleEndian len n, b < 256 := fun b hb => mem_littleEndian hb
  have hsum : ∀ b ∈ addBit exp (littleEndian len n), b < 256 := by
    intro b hb
    unfold addBit at hb
    rcases List.mem_append.mp hb with hb | hb
    · exact hbytes b (List.mem_of_mem_take hb)
    · exact mem_addCarry (fun x hx => hbytes x (List.mem_of_mem_drop hx)) hb
  have hlength : (addBit exp (littleEndian len n)).length = len := by
    unfold addBit
    rw [List.length_append, length_addCarry, ← List.length_append, List.take_append_drop,
      length_littleEndian]
  have hvalue := value_addBit hbytes (by rw [length_littleEndian]; exact hexp)
  rw [length_littleEndian, value_littleEndian, Nat.mod_add_mod, ← value_littleEndian] at hvalue
  have hleft := littleEndian_value hsum
  have hright : littleEndian (littleEndian len (n + 2 ^ exp)).length
      (value (littleEndian len (n + 2 ^ exp))) = littleEndian len (n + 2 ^ exp) :=
    littleEndian_value fun b hb => mem_littleEndian hb
  rw [hlength, hvalue] at hleft
  rw [length_littleEndian] at hright
  rw [← hleft, hright]

end Insula.KeyBytes
