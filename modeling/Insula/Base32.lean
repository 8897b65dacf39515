import Insula.BitGroups
import Insula.Javascript
import Mathlib.Data.List.Nodup

/-!
# Base32

The two functions of `auth/totp-core.ts` that write a secret for an authenticator app and read it
back. Both shift an accumulator that is never masked: it is a word of 32 bits whose upper bits are
what is left of earlier input. Only its last `bits` bits count, and these are the part of the input
that is not yet written.
-/

namespace Insula.Base32

open BitGroups

abbrev Text := List Char

def base32Alphabet : Text := "ABCDEFGHIJKLMNOPQRSTUVWXYZ234567".toList

def letter (word : BitVec 32) : Char := base32Alphabet.getD (word &&& 31).toNat 'A'

/-! ## Encoding -/

structure Encoding where
  bits : ℕ := 0
  value : BitVec 32 := 0
  out : Text := []

def emit (s : Encoding) : Encoding :=
  if _h : 5 ≤ s.bits then
    emit { s with out := s.out ++ [letter (s.value >>> (s.bits - 5))], bits := s.bits - 5 }
  else s
termination_by s.bits

def encodeByte (s : Encoding) (byte : UInt8) : Encoding :=
  emit { s with value := s.value <<< 8 ||| BitVec.ofNat 32 byte.toNat, bits := s.bits + 8 }

def base32Encode (data : List UInt8) : Text :=
  let s := data.foldl encodeByte {}
  if 0 < s.bits then s.out ++ [letter (s.value <<< (5 - s.bits))] else s.out

/-! ## Decoding -/

structure Decoding where
  bits : ℕ := 0
  value : BitVec 32 := 0
  out : List UInt8 := []

def decodeChar (s : Decoding) (ch : Char) : Except Text Decoding :=
  match base32Alphabet.idxOf? ch with
  | none => .error ("invalid base32 character: ".toList ++ [ch])
  | some idx =>
    let value := s.value <<< 5 ||| BitVec.ofNat 32 idx
    if 8 ≤ s.bits + 5 then
      .ok ⟨s.bits + 5 - 8, value,
        s.out ++ [UInt8.ofNat (value >>> (s.bits + 5 - 8) &&& 255).toNat]⟩
    else .ok ⟨s.bits + 5, value, s.out⟩

section Decode

variable (toUpperCase : Text → Text)

def clean (input : Text) : Text :=
  toUpperCase (input.filter fun c => !(Javascript.isSpace c || c == '='))

def base32Decode (input : Text) : Except Text (List UInt8) :=
  ((clean toUpperCase input).foldlM decodeChar {}).map Decoding.out

end Decode

/-! ## The accumulator -/

/-- The last bits of the accumulator are the row `pending`. -/
def Holds (value : BitVec 32) (pending : Bits) : Prop :=
  value.toNat % 2 ^ pending.length = number pending

theorem holds_nil (value : BitVec 32) : Holds value [] := Nat.mod_one _

variable {value : BitVec 32} {row : Bits} {s : Encoding}

/-- Bits pushed in from the right stand behind those that are there, up to the width of a word. -/
theorem Holds.push {pending : Bits} (h : Holds value pending) {width v : ℕ} (hv : v < 2 ^ width)
    (hfit : pending.length + width ≤ 32) :
    Holds (value <<< width ||| BitVec.ofNat 32 v) (pending ++ bitsOf width v) := by
  have hwidth : 2 ^ width ∣ 2 ^ 32 := Nat.pow_dvd_pow 2 (by omega)
  have hsmall : v < 2 ^ 32 := Nat.lt_of_lt_of_le hv (Nat.le_of_dvd (by decide) hwidth)
  have hsplit : (2 : ℕ) ^ 32 = 2 ^ (32 - width) * 2 ^ width := by
    rw [← pow_add, Nat.sub_add_cancel (by omega)]
  have hshift : value.toNat <<< width % 2 ^ 32 = (value.toNat % 2 ^ (32 - width)) <<< width := by
    rw [Nat.shiftLeft_eq, Nat.shiftLeft_eq, hsplit, Nat.mul_mod_mul_right]
  have hword : (value <<< width ||| BitVec.ofNat 32 v).toNat =
      value.toNat % 2 ^ (32 - width) * 2 ^ width + v := by
    rw [BitVec.toNat_or, BitVec.toNat_shiftLeft, BitVec.toNat_ofNat, Nat.mod_eq_of_lt hsmall, hshift,
      ← Nat.shiftLeft_add_eq_or_of_lt hv, Nat.shiftLeft_eq]
  have hcut : value.toNat % 2 ^ (32 - width) % 2 ^ pending.length = number pending := by
    rw [Nat.mod_mod_of_dvd _ (Nat.pow_dvd_pow 2 (by omega)), h]
  have hbits : number (bitsOf width v) = v := by rw [number_bitsOf, Nat.mod_eq_of_lt hv]
  have hdiv : (value.toNat % 2 ^ (32 - width) * 2 ^ width + v) / 2 ^ width =
      value.toNat % 2 ^ (32 - width) := by
    rw [mul_comm, Nat.mul_add_div (Nat.two_pow_pos width), Nat.div_eq_of_lt hv, add_zero]
  unfold Holds
  rw [hword, List.length_append, number_append, length_bitsOf, hbits, pow_add,
    mul_comm (2 ^ pending.length), Nat.mod_mul, hdiv, hcut, Nat.mul_add_mod_of_lt hv,
    mul_comm (2 ^ width), add_comm]

/-- The bits before the last ones, read by a shift. -/
theorem Holds.read {first rest : Bits} (h : Holds value (first ++ rest)) :
    (value >>> rest.length).toNat % 2 ^ first.length = number first := by
  have hrest := number_lt rest
  unfold Holds at h
  rw [List.length_append, number_append, add_comm first.length, pow_add] at h
  rw [BitVec.toNat_ushiftRight, Nat.shiftRight_eq_div_pow, ← Nat.mod_mul_right_div_self, h, mul_comm,
    Nat.mul_add_div (Nat.two_pow_pos _), Nat.div_eq_of_lt hrest, add_zero]

theorem Holds.drop {first rest : Bits} (h : Holds value (first ++ rest)) : Holds value rest := by
  have hrest := number_lt rest
  unfold Holds at h ⊢
  rw [List.length_append, number_append, pow_add] at h
  rw [← Nat.mod_mul_left_mod _ (2 ^ first.length), h, Nat.mul_add_mod_of_lt hrest]

/-! ## Rows of bits -/

def letters (gs : List ℕ) : Text := gs.map fun g => base32Alphabet.getD g 'A'

theorem letter_eq (word : BitVec 32) : letter word = base32Alphabet.getD (word.toNat % 2 ^ 5) 'A' := by
  have hmask : (word &&& 31).toNat = word.toNat % 2 ^ 5 := by
    rw [BitVec.toNat_and]
    exact Nat.and_two_pow_sub_one_eq_mod word.toNat 5
  rw [letter, hmask]

/-- The letters written so far stand for the row, less the bits that the accumulator holds. -/
def Written (row : Bits) (s : Encoding) : Prop :=
  ∃ gs pending, row = written 5 gs ++ pending ∧ (∀ g ∈ gs, g < 2 ^ 5) ∧ s.out = letters gs ∧
    s.bits = pending.length ∧ Holds s.value pending

theorem Written.letter (h : Written row s) (hbits : 5 ≤ s.bits) :
    Written row { s with out := s.out ++ [letter (s.value >>> (s.bits - 5))], bits := s.bits - 5 } := by
  obtain ⟨gs, pending, hrow, hgs, hout, hlength, hholds⟩ := h
  have hfirst : (pending.take 5).length = 5 := by rw [List.length_take]; omega
  have hrest : (pending.drop 5).length = s.bits - 5 := by rw [List.length_drop, hlength]
  rw [← List.take_append_drop 5 pending] at hholds
  have hsmall := number_lt (pending.take 5)
  have hread := hholds.read
  rw [hfirst] at hsmall hread
  refine ⟨gs ++ [number (pending.take 5)], pending.drop 5, ?_, ?_, ?_, hrest.symm, hholds.drop⟩
  · have hself := bitsOf_number (pending.take 5)
    rw [hfirst] at hself
    rw [hrow, written_snoc, hself, List.append_assoc, List.take_append_drop]
  · intro g hg
    rcases List.mem_append.mp hg with hg | hg
    · exact hgs g hg
    · rw [List.mem_singleton.mp hg]
      exact hsmall
  · show s.out ++ [Base32.letter _] = letters (gs ++ _)
    rw [letter_eq, ← hrest, hread, hout, letters, letters, List.map_append]
    rfl

theorem Written.emit (h : Written row s) : Written row (emit s) ∧ (emit s).bits < 5 := by
  induction s using emit.induct with
  | case1 s hbits ih =>
    rw [Base32.emit, dif_pos hbits]
    exact ih (h.letter hbits)
  | case2 s hbits =>
    rw [Base32.emit, dif_neg hbits]
    exact ⟨h, by omega⟩

theorem Written.encodeByte (h : Written row s) (hbits : s.bits < 5) (byte : UInt8) :
    Written (row ++ bitsOf 8 byte.toNat) (encodeByte s byte) ∧ (encodeByte s byte).bits < 5 := by
  obtain ⟨gs, pending, hrow, hgs, hout, hlength, hholds⟩ := h
  have hpush := @Holds.push _ _ hholds 8 _ byte.toNat_lt (by omega)
  refine Written.emit ⟨gs, pending ++ bitsOf 8 byte.toNat, ?_, hgs, hout, ?_, hpush⟩
  · rw [hrow, List.append_assoc]
  · rw [List.length_append, length_bitsOf]
    exact congrArg (· + 8) hlength

theorem written_foldl (data : List UInt8) :
    Written (written 8 (data.map UInt8.toNat)) (data.foldl encodeByte {}) ∧
      (data.foldl encodeByte {}).bits < 5 := by
  induction data using List.reverseRecOn with
  | nil => exact ⟨⟨[], [], rfl, fun _ hg => (List.not_mem_nil hg).elim, rfl, rfl, holds_nil _⟩, by decide⟩
  | append_singleton data byte ih =>
    rw [List.map_append, List.map_cons, List.map_nil, written_snoc, List.foldl_append, List.foldl_cons,
      List.foldl_nil]
    exact ih.1.encodeByte ih.2 byte

/-- The text of some bytes spells their bits, with fewer than five zeros behind them. -/
theorem base32Encode_spec (data : List UInt8) :
    ∃ gs zs, written 5 gs = written 8 (data.map UInt8.toNat) ++ zs ∧ zs.length < 5 ∧
      (∀ g ∈ gs, g < 2 ^ 5) ∧ base32Encode data = letters gs := by
  obtain ⟨⟨gs, pending, hrow, hgs, hout, hlength, hholds⟩, hbits⟩ := written_foldl data
  unfold base32Encode
  by_cases hpending : 0 < (data.foldl encodeByte {}).bits
  · have hpush := @Holds.push _ _ hholds (5 - pending.length) 0 (Nat.two_pow_pos _) (by omega)
    have hzeros := length_bitsOf (5 - pending.length) 0
    have hgroup : (pending ++ bitsOf (5 - pending.length) 0).length = 5 := by
      rw [List.length_append, hzeros]
      omega
    have hself := bitsOf_number (pending ++ bitsOf (5 - pending.length) 0)
    have hsmall := number_lt (pending ++ bitsOf (5 - pending.length) 0)
    rw [BitVec.or_zero, Holds, hgroup] at hpush
    rw [hgroup] at hself hsmall
    rw [if_pos hpending, hlength]
    refine ⟨gs ++ [number (pending ++ bitsOf (5 - pending.length) 0)], bitsOf (5 - pending.length) 0,
      ?_, by omega, ?_, ?_⟩
    · rw [written_snoc, hself, hrow, List.append_assoc]
    · intro g hg
      rcases List.mem_append.mp hg with hg | hg
      · exact hgs g hg
      · rw [List.mem_singleton.mp hg]
        exact hsmall
    · rw [letter_eq, hpush, hout, letters, letters, List.map_append]
      rfl
  · have hnil : pending = [] := List.length_eq_zero_iff.mp (by omega)
    rw [if_neg hpending]
    exact ⟨gs, [], by rw [hrow, hnil, List.append_nil, List.append_nil], by decide, hgs, hout⟩

/-- The bytes read so far stand for the row, less the bits that the accumulator holds. -/
def Read (row : Bits) (s : Decoding) : Prop :=
  ∃ bytes pending, row = written 8 bytes ++ pending ∧ (∀ b ∈ bytes, b < 2 ^ 8) ∧
    s.out = bytes.map UInt8.ofNat ∧ s.bits = pending.length ∧ pending.length < 8 ∧
    Holds s.value pending

theorem idxOf_letter : ∀ g < 32, base32Alphabet.idxOf? (base32Alphabet.getD g 'A') = some g := by
  decide

theorem Read.decodeChar {s : Decoding} (h : Read row s) {g : ℕ} (hg : g < 2 ^ 5) :
    ∃ s', decodeChar s (base32Alphabet.getD g 'A') = .ok s' ∧ Read (row ++ bitsOf 5 g) s' := by
  obtain ⟨bytes, pending, hrow, hbytes, hout, hlength, hshort, hholds⟩ := h
  have hpush := @Holds.push _ _ hholds 5 g hg (by omega)
  have hrow' : row ++ bitsOf 5 g = written 8 bytes ++ (pending ++ bitsOf 5 g) := by
    rw [hrow, List.append_assoc]
  have hlength' : (pending ++ bitsOf 5 g).length = s.bits + 5 := by
    rw [List.length_append, length_bitsOf, hlength]
  rw [Base32.decodeChar, idxOf_letter g hg]
  generalize pending ++ bitsOf 5 g = pending' at *
  set value := s.value <<< 5 ||| BitVec.ofNat 32 g
  show ∃ s', (if 8 ≤ s.bits + 5 then _ else _) = Except.ok s' ∧ _
  split
  · have hfirst : (pending'.take 8).length = 8 := by rw [List.length_take]; omega
    have hrest : (pending'.drop 8).length = s.bits + 5 - 8 := by rw [List.length_drop, hlength']
    rw [← List.take_append_drop 8 pending'] at hpush
    have hsmall := number_lt (pending'.take 8)
    have hread := hpush.read
    have hself := bitsOf_number (pending'.take 8)
    rw [hfirst] at hsmall hread hself
    refine ⟨_, rfl, bytes ++ [number (pending'.take 8)], pending'.drop 8, ?_, ?_, ?_, hrest.symm,
      by omega, hpush.drop⟩
    · rw [hrow', written_snoc, hself, List.append_assoc, List.take_append_drop]
    · intro b hb
      rcases List.mem_append.mp hb with hb | hb
      · exact hbytes b hb
      · rw [List.mem_singleton.mp hb]
        exact hsmall
    · have hmask : (value >>> (s.bits + 5 - 8) &&& 255).toNat = number (pending'.take 8) := by
        rw [BitVec.toNat_and, ← hread, hrest]
        exact Nat.and_two_pow_sub_one_eq_mod _ 8
      show s.out ++ [UInt8.ofNat (value >>> (s.bits + 5 - 8) &&& 255).toNat] = _
      rw [hmask, hout, List.map_append]
      rfl
  · exact ⟨_, rfl, bytes, pending', hrow', hbytes, hout, hlength'.symm, by omega, hpush⟩

theorem Read.foldlM {s : Decoding} (h : Read row s) {gs : List ℕ} (hgs : ∀ g ∈ gs, g < 2 ^ 5) :
    ∃ s', (letters gs).foldlM Base32.decodeChar s = .ok s' ∧ Read (row ++ written 5 gs) s' := by
  induction gs generalizing row s with
  | nil => exact ⟨s, rfl, by rwa [written_nil, List.append_nil]⟩
  | cons g gs ih =>
    obtain ⟨s₁, hchar, hread⟩ := h.decodeChar (hgs g List.mem_cons_self)
    obtain ⟨s₂, hfold, hread'⟩ := ih hread fun x hx => hgs x (List.mem_cons_of_mem _ hx)
    refine ⟨s₂, ?_, ?_⟩
    · rw [letters, List.map_cons, List.foldlM_cons, hchar]
      exact hfold
    · rwa [written_cons, ← List.append_assoc]

/-! ## Round trips -/

section RoundTrip

variable {toUpperCase : Text → Text}

/-- Letters of the alphabet are neither white space nor padding, and are upper case. -/
theorem letter_plain : ∀ g < 32,
    (!(Javascript.isSpace (base32Alphabet.getD g 'A') || base32Alphabet.getD g 'A' == '=')) = true ∧
      (base32Alphabet.getD g 'A').toNat < 128 ∧
      (base32Alphabet.getD g 'A').toUpper = base32Alphabet.getD g 'A' := by
  decide

theorem clean_letters
    (hascii : ∀ text : Text, (∀ c ∈ text, c.toNat < 128) → toUpperCase text = text.map Char.toUpper)
    {gs : List ℕ} (hgs : ∀ g ∈ gs, g < 2 ^ 5) : clean toUpperCase (letters gs) = letters gs := by
  have hkept : (letters gs).filter (fun c => !(Javascript.isSpace c || c == '=')) = letters gs := by
    rw [List.filter_eq_self, letters, List.forall_mem_map]
    exact fun g hg => (letter_plain g (hgs g hg)).1
  have hplain : ∀ c ∈ letters gs, c.toNat < 128 := by
    rw [letters, List.forall_mem_map]
    exact fun g hg => (letter_plain g (hgs g hg)).2.1
  have hupper : ∀ c ∈ letters gs, c.toUpper = c := by
    rw [letters, List.forall_mem_map]
    exact fun g hg => (letter_plain g (hgs g hg)).2.2
  rw [clean, hkept, hascii _ hplain, List.map_congr_left hupper, List.map_id']

/-- Whatever bytes are written, they are read back; and a text that encoding can produce is what the
bytes read from it encode to. The upper case of a text of ASCII characters is that of each. -/
theorem base32_roundTrips (toUpperCase : Text → Text)
    (hascii : ∀ text : Text, (∀ c ∈ text, c.toNat < 128) → toUpperCase text = text.map Char.toUpper) :
    (∀ data, base32Decode toUpperCase (base32Encode data) = .ok data) ∧
      ∀ text data, base32Decode toUpperCase text = .ok data → (∃ data', base32Encode data' = text) →
        base32Encode data = text := by
  have hback : ∀ data, base32Decode toUpperCase (base32Encode data) = .ok data := by
    intro data
    obtain ⟨gs, zs, hrow, hzs, hgs, htext⟩ := base32Encode_spec data
    have hstart : Read [] {} :=
      ⟨[], [], rfl, fun _ hb => (List.not_mem_nil hb).elim, rfl, rfl, by decide, holds_nil _⟩
    obtain ⟨s, hfold, bytes, pending, hread, hbytes, hout, -, hshort, -⟩ := hstart.foldlM hgs
    have hdata : ∀ b ∈ data.map UInt8.toNat, b < 2 ^ 8 := by
      rw [List.forall_mem_map]
      exact fun b _ => b.toNat_lt
    rw [List.nil_append, hrow] at hread
    have hsame := written_cancel hdata hbytes (by omega) hshort hread
    have hcast : (data.map UInt8.toNat).map UInt8.ofNat = data := by
      rw [List.map_map]
      exact List.map_id'' (fun b => UInt8.ofNat_toNat) data
    rw [base32Decode, htext, clean_letters hascii hgs, hfold, Except.map, hout, ← hsame, hcast]
  refine ⟨hback, ?_⟩
  rintro text data hdecode ⟨data', rfl⟩
  rw [hback data'] at hdecode
  rw [Except.ok.inj hdecode]

theorem base32_roundTrips_ascii :
    (∀ data, base32Decode (List.map Char.toUpper) (base32Encode data) = .ok data) ∧
      ∀ text data, base32Decode (List.map Char.toUpper) text = .ok data →
        (∃ data', base32Encode data' = text) → base32Encode data = text :=
  base32_roundTrips (List.map Char.toUpper) fun _ _ => rfl

end RoundTrip

end Insula.Base32
