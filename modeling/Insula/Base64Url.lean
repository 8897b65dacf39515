import Insula.BitGroups

/-!
# Base64 for addresses

The encoding `base64url` of `Buffer`, without padding. A reader takes the letters of both alphabets
of Base64 and passes over everything else, up to the first `=`.
-/

namespace Insula.Base64Url

open BitGroups

abbrev Text := List Char

def alphabet : Text := "ABCDEFGHIJKLMNOPQRSTUVWXYZabcdefghijklmnopqrstuvwxyz0123456789-_".toList

def letter (g : ℕ) : Char := alphabet.getD g 'A'

def cut (width : ℕ) (bits : Bits) : List ℕ × Bits :=
  if _h : 0 < width ∧ width ≤ bits.length then
    (number (bits.take width) :: (cut width (bits.drop width)).1, (cut width (bits.drop width)).2)
  else ([], bits)
termination_by bits.length
decreasing_by all_goals (rw [List.length_drop]; omega)

def sextets (bits : Bits) : List ℕ :=
  let (gs, short) := cut 6 bits
  if short = [] then gs else gs ++ [number (short ++ List.replicate (6 - short.length) false)]

def encode (bytes : List UInt8) : Text := (sextets (written 8 (bytes.map UInt8.toNat))).map letter

def value (c : Char) : Option ℕ :=
  if c = '+' then some 62 else if c = '/' then some 63 else alphabet.idxOf? c

def decode (text : Text) : List UInt8 :=
  (cut 8 (written 6 ((text.takeWhile (· != '=')).filterMap value))).1.map UInt8.ofNat

theorem cut_spec {width : ℕ} (hwidth : 0 < width) (bits : Bits) :
    written width (cut width bits).1 ++ (cut width bits).2 = bits ∧ (cut width bits).2.length < width ∧
      ∀ g ∈ (cut width bits).1, g < 2 ^ width := by
  induction hn : bits.length using Nat.strong_induction_on generalizing bits with
  | _ n ih =>
    rw [cut]
    split
    next h =>
      obtain ⟨hrow, hshort, hlt⟩ := ih (bits.drop width).length (by rw [List.length_drop]; omega) _ rfl
      have htake : (bits.take width).length = width := List.length_take_of_le h.2
      refine ⟨?_, hshort, ?_⟩
      · have hself := bitsOf_number (bits.take width)
        rw [htake] at hself
        rw [written_cons, List.append_assoc, hrow, hself, List.take_append_drop]
      · intro g hg
        rcases List.mem_cons.mp hg with rfl | hg
        · have hlt := number_lt (bits.take width)
          rwa [htake] at hlt
        · exact hlt g hg
    next h =>
      refine ⟨rfl, ?_, fun g hg => (List.not_mem_nil hg).elim⟩
      simp only [not_and, not_le] at h
      exact h hwidth

/-- The groups are the row and some zeros, fewer than a group. -/
theorem sextets_spec (bits : Bits) :
    (∃ k < 6, written 6 (sextets bits) = bits ++ List.replicate k false) ∧
    ∀ g ∈ sextets bits, g < 2 ^ 6 := by
  obtain ⟨hrow, hshort, hlt⟩ := cut_spec (show 0 < 6 by omega) bits
  rw [sextets]
  generalize hcut : cut 6 bits = groups at hrow hshort hlt
  obtain ⟨gs, short⟩ := groups
  simp only at hrow hshort hlt ⊢
  by_cases hnil : short = []
  · rw [if_pos hnil]
    refine ⟨⟨0, by omega, ?_⟩, hlt⟩
    rw [← hrow, hnil, List.append_nil, List.replicate_zero, List.append_nil]
  · rw [if_neg hnil]
    have hlength : (short ++ List.replicate (6 - short.length) false).length = 6 := by
      rw [List.length_append, List.length_replicate]
      omega
    have hpos : 0 < short.length := List.length_pos_iff.mpr hnil
    constructor
    · refine ⟨6 - short.length, by omega, ?_⟩
      have hself := bitsOf_number (short ++ List.replicate (6 - short.length) false)
      rw [hlength] at hself
      rw [written_snoc, hself, ← List.append_assoc, hrow]
    · intro g hg
      rcases List.mem_append.mp hg with hg | hg
      · exact hlt g hg
      · rw [List.mem_singleton.mp hg]
        have hbound := number_lt (short ++ List.replicate (6 - short.length) false)
        rwa [hlength] at hbound

theorem decode_nil : decode [] = [] := by
  have hcut : cut 8 [] = ([], []) := by
    rw [cut, dif_neg (by simp)]
  exact congrArg (fun c => c.1.map UInt8.ofNat) hcut

theorem value_letter : ∀ g < 64, value (letter g) = some g ∧ (letter g != '=') = true := by
  decide +kernel

theorem filterMap_letters {gs : List ℕ} (h : ∀ g ∈ gs, g < 2 ^ 6) :
    ((gs.map letter).takeWhile (· != '=')).filterMap value = gs := by
  induction gs with
  | nil => rfl
  | cons g gs ih =>
    obtain ⟨hvalue, hplain⟩ := value_letter g (h g List.mem_cons_self)
    rw [List.map_cons, List.takeWhile_cons, if_pos hplain, List.filterMap_cons, hvalue,
      ih fun x hx => h x (List.mem_cons_of_mem g hx)]

theorem decode_encode (bytes : List UInt8) : decode (encode bytes) = bytes := by
  obtain ⟨⟨k, hk, hsextets⟩, hlt⟩ := sextets_spec (written 8 (bytes.map UInt8.toNat))
  obtain ⟨hrow, hshort, hoctets⟩ :=
    cut_spec (show 0 < 8 by omega) (written 8 (bytes.map UInt8.toNat) ++ List.replicate k false)
  have hbytes : ∀ b ∈ bytes.map UInt8.toNat, b < 2 ^ 8 := by
    rw [List.forall_mem_map]
    exact fun b _ => b.toNat_lt
  have hsame := written_cancel hoctets hbytes hshort (by rw [List.length_replicate]; omega) hrow
  rw [decode, encode, filterMap_letters hlt, hsextets, hsame, List.map_map]
  exact List.map_id'' (fun b => UInt8.ofNat_toNat) bytes

end Insula.Base64Url
