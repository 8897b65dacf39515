import Mathlib.Tactic

/-!
# Text read in pieces

Bytes of UTF-8 are decoded piece by piece, each piece on its own. Where the border of two pieces is
inside a character each side has replacement characters in its place, so the text that is read has
more of these than the text that was written.
-/

namespace Insula.Utf8Chunks

def encode (t : List Char) : List UInt8 := t.flatMap String.utf8EncodeChar

def replacement : Char := '\uFFFD'

structure Decoder where
  codePoint : ℕ
  needed : ℕ
  lower : ℕ
  upper : ℕ

def start : Decoder := ⟨0, 0, 0x80, 0xbf⟩

def lead (b : ℕ) : List Char × Decoder :=
  if b < 0x80 then ([Char.ofNat b], start)
  else if 0xc2 ≤ b ∧ b ≤ 0xdf then ([], ⟨b - 0xc0, 1, 0x80, 0xbf⟩)
  else if 0xe0 ≤ b ∧ b ≤ 0xef then
    ([], ⟨b - 0xe0, 2, if b = 0xe0 then 0xa0 else 0x80, if b = 0xed then 0x9f else 0xbf⟩)
  else if 0xf0 ≤ b ∧ b ≤ 0xf4 then
    ([], ⟨b - 0xf0, 3, if b = 0xf0 then 0x90 else 0x80, if b = 0xf4 then 0x8f else 0xbf⟩)
  else ([replacement], start)

def step (d : Decoder) (b : ℕ) : List Char × Decoder :=
  if d.needed = 0 then lead b
  else if d.lower ≤ b ∧ b ≤ d.upper then
    if d.needed = 1 then ([Char.ofNat (64 * d.codePoint + (b - 0x80))], start)
    else ([], ⟨64 * d.codePoint + (b - 0x80), d.needed - 1, 0x80, 0xbf⟩)
  else (replacement :: (lead b).1, (lead b).2)

def decodeFrom : Decoder → List ℕ → List Char
  | d, [] => if d.needed = 0 then [] else [replacement]
  | d, b :: bytes => (step d b).1 ++ decodeFrom (step d b).2 bytes

def decode (bytes : List UInt8) : List Char := decodeFrom start (bytes.map UInt8.toNat)

def received (chunks : List (List UInt8)) : List Char := chunks.flatMap decode

/-- No border of pieces is inside a character. -/
def Whole (chunks : List (List UInt8)) : Prop := ∀ chunk ∈ chunks, ∃ t, chunk = encode t

/-! ## One character -/

section Character

variable {c : Char} {bytes conts : List ℕ} {needed lower upper : ℕ}

def octets (c : Char) : List ℕ := (String.utf8EncodeChar c).map UInt8.toNat

/-- Bytes that a decoder with these bounds takes as the next ones of a character. -/
def Continues (lower upper : ℕ) : List ℕ → Prop
  | [] => True
  | b :: rest => (lower ≤ b ∧ b ≤ upper) ∧ ∀ x ∈ rest, 0x80 ≤ x ∧ x ≤ 0xbf

theorem Continues.tail {b : ℕ} (h : Continues lower upper (b :: conts)) :
    Continues 0x80 0xbf conts := by
  cases conts with
  | nil => trivial
  | cons x rest =>
    exact ⟨h.2 x List.mem_cons_self, fun y hy => h.2 y (List.mem_cons_of_mem x hy)⟩

def value (codePoint : ℕ) (conts : List ℕ) : ℕ := conts.foldl (fun v b => 64 * v + (b - 0x80)) codePoint

theorem value_cons (codePoint b : ℕ) (conts : List ℕ) :
    value codePoint (b :: conts) = value (64 * codePoint + (b - 0x80)) conts := by
  rw [value, value, List.foldl_cons]

theorem step_last {b codePoint : ℕ} (h : lower ≤ b ∧ b ≤ upper) :
    step ⟨codePoint, 1, lower, upper⟩ b = ([Char.ofNat (64 * codePoint + (b - 0x80))], start) := by
  simp only [step, Nat.one_ne_zero, if_false, if_pos h, if_true]

theorem step_more {b codePoint n : ℕ} (h : lower ≤ b ∧ b ≤ upper) :
    step ⟨codePoint, n + 2, lower, upper⟩ b =
    ([], ⟨64 * codePoint + (b - 0x80), n + 1, 0x80, 0xbf⟩) := by
  have hone : n + 2 ≠ 1 := by omega
  simp only [step, Nat.succ_ne_zero, if_false, if_pos h, if_neg hone]
  rfl

theorem decodeFrom_character (codePoint : ℕ) (hne : conts ≠ []) (h : Continues lower upper conts) :
    decodeFrom ⟨codePoint, conts.length, lower, upper⟩ (conts ++ bytes) =
      Char.ofNat (value codePoint conts) :: decodeFrom start bytes := by
  induction conts generalizing codePoint lower upper with
  | nil => exact absurd rfl hne
  | cons b rest ih =>
    rw [List.cons_append, decodeFrom]
    cases rest with
    | nil =>
      rw [List.length_singleton, step_last h.1]
      rfl
    | cons x rest =>
      have hrest := ih (64 * codePoint + (b - 0x80)) (List.cons_ne_nil x rest) h.tail
      rw [List.length_cons, List.length_cons, step_more h.1, value_cons, ← hrest, List.nil_append,
        List.length_cons]

/-- A character that breaks off. -/
theorem decodeFrom_part (codePoint : ℕ) (hlt : conts.length < needed)
    (h : Continues lower upper conts) :
    decodeFrom ⟨codePoint, needed, lower, upper⟩ conts = [replacement] := by
  induction conts generalizing codePoint needed lower upper with
  | nil =>
    have hzero : needed ≠ 0 := Nat.ne_of_gt hlt
    simp only [decodeFrom, if_neg hzero]
  | cons b rest ih =>
    rw [List.length_cons] at hlt
    obtain ⟨n, rfl⟩ : ∃ n, needed = n + 2 := ⟨needed - 2, by omega⟩
    rw [decodeFrom, step_more h.1]
    exact ih _ (by omega) h.tail

/-- The bytes of a character: a first one that is the whole, or that says how many follow it. -/
theorem octets_cases (c : Char) : ∃ b conts, octets c = b :: conts ∧
    (conts = [] ∧ lead b = ([c], start) ∨ conts ≠ [] ∧ ∃ codePoint lower upper,
        lead b = ([], ⟨codePoint, conts.length, lower, upper⟩) ∧ Continues lower upper conts ∧
          (∀ x ∈ conts, 0x80 ≤ x ∧ x ≤ 0xbf) ∧ Char.ofNat (value codePoint conts) = c) := by
  have hvalid : c.val.toNat < 0xd800 ∨ 0xdfff < c.val.toNat ∧ c.val.toNat < 0x110000 := c.valid
  have hchar : Char.ofNat c.val.toNat = c := Char.ofNat_toNat c
  rw [octets, String.utf8EncodeChar]
  generalize c.val.toNat = v at hvalid hchar
  by_cases h1 : v ≤ 0x7f
  · refine ⟨v, [], ?_, .inl ⟨rfl, ?_⟩⟩
    · simp only [if_pos h1, List.map_cons, List.map_nil, UInt8.toNat_ofNat']
      rw [Nat.mod_eq_of_lt (by omega)]
    · rw [lead, if_pos (by omega), hchar]
  · by_cases h2 : v ≤ 0x7ff
    · refine ⟨v / 64 + 0xc0, [v % 64 + 0x80], ?_,
        .inr ⟨List.cons_ne_nil _ _, v / 64, 0x80, 0xbf, ?_, ?_, ?_, ?_⟩⟩
      · simp only [if_neg h1, if_pos h2, List.map_cons, List.map_nil, UInt8.toNat_ofNat']
        congr 1
        · omega
        · congr 1
          omega
      · rw [lead, if_neg (by omega), if_pos (by omega), Nat.add_sub_cancel]
        rfl
      · exact ⟨by omega, by simp⟩
      · intro x hx
        rw [List.mem_singleton.mp hx]
        omega
      · rw [← hchar]
        apply congrArg Char.ofNat
        simp only [value, List.foldl_cons, List.foldl_nil]
        omega
    · by_cases h3 : v ≤ 0xffff
      · refine ⟨v / 4096 + 0xe0, [v / 64 % 64 + 0x80, v % 64 + 0x80], ?_,
          .inr ⟨List.cons_ne_nil _ _, v / 4096,
          if v / 4096 + 0xe0 = 0xe0 then 0xa0 else 0x80, if v / 4096 + 0xe0 = 0xed then 0x9f else 0xbf,
          ?_, ?_, ?_, ?_⟩⟩
        · simp only [if_neg h1, if_neg h2, if_pos h3, List.map_cons, List.map_nil, UInt8.toNat_ofNat']
          congr 1
          · omega
          · congr 1
            · omega
            · congr 1
              omega
        · rw [lead, if_neg (by omega), if_neg (by omega), if_pos (by omega), Nat.add_sub_cancel]
          rfl
        · constructor
          · split <;> split <;> omega
          · intro x hx
            rw [List.mem_singleton.mp hx]
            omega
        · intro x hx
          simp only [List.mem_cons, List.not_mem_nil, or_false] at hx
          omega
        · rw [← hchar]
          apply congrArg Char.ofNat
          simp only [value, List.foldl_cons, List.foldl_nil]
          omega
      · refine ⟨v / 262144 + 0xf0, [v / 4096 % 64 + 0x80, v / 64 % 64 + 0x80, v % 64 + 0x80], ?_, .inr
          ⟨List.cons_ne_nil _ _, v / 262144, if v / 262144 + 0xf0 = 0xf0 then 0x90 else 0x80,
            if v / 262144 + 0xf0 = 0xf4 then 0x8f else 0xbf, ?_, ?_, ?_, ?_⟩⟩
        · simp only [if_neg h1, if_neg h2, if_neg h3, List.map_cons, List.map_nil, UInt8.toNat_ofNat']
          congr 1
          · omega
          · congr 1
            · omega
            · congr 1
              · omega
              · congr 1
                omega
        · rw [lead, if_neg (by omega), if_neg (by omega), if_neg (by omega), if_pos (by omega),
            Nat.add_sub_cancel]
          rfl
        · constructor
          · split <;> split <;> omega
          · intro x hx
            simp only [List.mem_cons, List.not_mem_nil, or_false] at hx
            omega
        · intro x hx
          simp only [List.mem_cons, List.not_mem_nil, or_false] at hx
          omega
        · rw [← hchar]
          apply congrArg Char.ofNat
          simp only [value, List.foldl_cons, List.foldl_nil]
          omega

theorem lead_continuation {b : ℕ} (h : 0x80 ≤ b ∧ b ≤ 0xbf) : lead b = ([replacement], start) := by
  rw [lead, if_neg (by omega), if_neg (by omega), if_neg (by omega), if_neg (by omega)]

end Character

/-! ## Pieces of a text -/

section Pieces

variable {c : Char} {t : List Char} {u v bytes : List UInt8}

def Trailing (u : List UInt8) : Prop := ∀ x ∈ u, 0x80 ≤ x.toNat ∧ x.toNat ≤ 0xbf

theorem decode_cons (b : UInt8) (bytes : List UInt8) :
    decode (b :: bytes) = (lead b.toNat).1 ++ decodeFrom (lead b.toNat).2 (bytes.map UInt8.toNat) := rfl

theorem decode_character (c : Char) (bytes : List UInt8) :
    decode (String.utf8EncodeChar c ++ bytes) = c :: decode bytes := by
  obtain ⟨b, conts, hoctets, hcase⟩ := octets_cases c
  rw [decode, List.map_append, show (String.utf8EncodeChar c).map UInt8.toNat = _ from hoctets]
  rcases hcase with ⟨rfl, hlead⟩ | ⟨hne, codePoint, lower, upper, hlead, hcontinues, -, hvalue⟩
  · show (lead b).1 ++ decodeFrom (lead b).2 _ = _
    rw [hlead]
    rfl
  · show (lead b).1 ++ decodeFrom (lead b).2 _ = _
    rw [hlead]
    exact (decodeFrom_character codePoint hne hcontinues).trans (congrArg (· :: _) hvalue)

/-- The two sides of a border inside a character. -/
theorem decode_broken (h : String.utf8EncodeChar c = u ++ v) (hu : u ≠ []) (hv : v ≠ []) :
    decode u = [replacement] ∧ Trailing v := by
  obtain ⟨b, conts, hoctets, hcase⟩ := octets_cases c
  obtain ⟨x, rest, rfl⟩ := List.exists_cons_of_ne_nil hu
  rw [octets, h, List.cons_append, List.map_cons, List.map_append] at hoctets
  obtain ⟨rfl, rfl⟩ := List.cons.inj hoctets
  rcases hcase with ⟨hnil, -⟩ | ⟨-, codePoint, lower, upper, hlead, hcontinues, htrailing, -⟩
  · rw [List.append_eq_nil_iff, List.map_eq_nil_iff, List.map_eq_nil_iff] at hnil
    exact absurd hnil.2 hv
  · constructor
    · rw [decode_cons, hlead]
      apply decodeFrom_part codePoint
      · rw [List.length_append, List.length_map, List.length_map]
        exact Nat.lt_add_of_pos_right (List.length_pos_iff.mpr hv)
      · cases rest with
        | nil => trivial
        | cons y rest =>
          exact ⟨hcontinues.1, fun z hz => hcontinues.2 z (List.mem_append_left _ hz)⟩
    · intro y hy
      exact htrailing _ (List.mem_append_right _ (List.mem_map_of_mem hy))

theorem decode_trailing (h : Trailing u) (bytes : List UInt8) :
    decode (u ++ bytes) = List.replicate u.length replacement ++ decode bytes := by
  induction u with
  | nil => rfl
  | cons x u ih =>
    rw [List.cons_append, decode_cons, lead_continuation (h x List.mem_cons_self)]
    exact congrArg (replacement :: ·) (ih fun y hy => h y (List.mem_cons_of_mem x hy))

theorem encode_append (s t : List Char) : encode (s ++ t) = encode s ++ encode t := List.flatMap_append

theorem encode_cons (c : Char) (t : List Char) :
    encode (c :: t) = String.utf8EncodeChar c ++ encode t := rfl

theorem decode_encode (t : List Char) (bytes : List UInt8) :
    decode (encode t ++ bytes) = t ++ decode bytes := by
  induction t with
  | nil => rfl
  | cons c t ih => rw [encode_cons, List.append_assoc, decode_character, ih, List.cons_append]

/-- A border in the bytes of a text is between two characters or inside one. -/
theorem encode_split (h : encode t = u ++ v) :
    (∃ t₁ t₂, t = t₁ ++ t₂ ∧ u = encode t₁ ∧ v = encode t₂) ∨
      ∃ t₁ c t₂ u' v', t = t₁ ++ c :: t₂ ∧ String.utf8EncodeChar c = u' ++ v' ∧ u' ≠ [] ∧ v' ≠ [] ∧
        u = encode t₁ ++ u' ∧ v = v' ++ encode t₂ := by
  induction t generalizing u with
  | nil =>
    obtain ⟨rfl, rfl⟩ := List.append_eq_nil_iff.mp h.symm
    exact .inl ⟨[], [], rfl, rfl, rfl⟩
  | cons c t ih =>
    rw [encode_cons, List.append_eq_append_iff] at h
    rcases h with ⟨rest, rfl, h⟩ | ⟨rest, h, rfl⟩
    · rcases ih h with ⟨t₁, t₂, rfl, rfl, rfl⟩ | ⟨t₁, d, t₂, u', v', rfl, hd, hu, hv, rfl, rfl⟩
      · exact .inl ⟨c :: t₁, t₂, rfl, rfl, rfl⟩
      · exact .inr ⟨c :: t₁, d, t₂, u', v', rfl, hd, hu,
          hv, by rw [encode_cons, List.append_assoc], rfl⟩
    · by_cases hu : u = []
      · subst hu
        exact .inl ⟨[], c :: t, rfl, rfl, by rw [encode_cons, h, List.nil_append]⟩
      · by_cases hrest : rest = []
        · subst hrest
          rw [List.append_nil] at h
          refine .inl ⟨[c], t, rfl, ?_, rfl⟩
          rw [← h, encode_cons]
          exact (List.append_nil _).symm
        · exact .inr ⟨[], c, t, u, rest, rfl, h, hu, hrest, rfl, rfl⟩

theorem decode_encode_self (t : List Char) : decode (encode t) = t := by
  have h := decode_encode t []
  have hnil : decode [] = [] := rfl
  rwa [hnil, List.append_nil, List.append_nil] at h

theorem received_cons (chunk : List UInt8) (chunks : List (List UInt8)) :
    received (chunk :: chunks) = decode chunk ++ received chunks := rfl

theorem encode_received {chunks : List (List UInt8)} (h : Whole chunks) :
    encode (received chunks) = chunks.flatten := by
  induction chunks with
  | nil => rfl
  | cons chunk chunks ih =>
    obtain ⟨t, rfl⟩ := h chunk List.mem_cons_self
    rw [received_cons, encode_append, decode_encode_self,
      ih fun other hother => h other (List.mem_cons_of_mem _ hother), List.flatten_cons]

theorem Whole.cons {chunks : List (List UInt8)} (h : Whole chunks) (t : List Char) :
    Whole (encode t :: chunks) := by
  intro chunk hchunk
  rcases List.mem_cons.mp hchunk with rfl | hchunk
  · exact ⟨t, rfl⟩
  · exact h chunk hchunk

/-- How often the replacement stands in what is read, when bytes are left over of a character
before. -/
theorem replacement_le (chunks : List (List UInt8)) (hu : Trailing u)
    (h : chunks.flatten = u ++ encode t) :
    t.count replacement + (if u = [] then 0 else 1) ≤ (received chunks).count replacement ∧
      (u = [] → ¬ Whole chunks → t.count replacement < (received chunks).count replacement) := by
  induction chunks generalizing u t with
  | nil =>
    obtain ⟨rfl, ht⟩ := List.append_eq_nil_iff.mp h.symm
    have hnil : t = [] := by rw [← decode_encode_self t, ht]; rfl
    subst hnil
    exact ⟨Nat.le_refl 0, fun _ hnot => absurd (fun _ hx => absurd hx List.not_mem_nil) hnot⟩
  | cons chunk chunks ih =>
    rw [List.flatten_cons, List.append_eq_append_iff] at h
    rw [received_cons, List.count_append]
    rcases h with ⟨rest, rfl, h⟩ | ⟨rest, rfl, h⟩
    · have hchunk : Trailing chunk := fun x hx => hu x (List.mem_append_left _ hx)
      have hrest : Trailing rest := fun x hx => hu x (List.mem_append_right _ hx)
      obtain ⟨hle, hlt⟩ := ih hrest h
      have hcount : (decode chunk).count replacement = chunk.length := by
        have hdecode := decode_trailing hchunk []
        rw [List.append_nil] at hdecode
        rw [hdecode, List.count_append, List.count_replicate_self]
        rfl
      rw [hcount]
      constructor
      · by_cases hnil : chunk = []
        · subst hnil
          rw [List.nil_append, List.length_nil, Nat.zero_add]
          exact hle
        · have hpos := List.length_pos_iff.mpr hnil
          split <;> omega
      · intro hboth hnot
        obtain ⟨rfl, rfl⟩ := List.append_eq_nil_iff.mp hboth
        have hlater := hlt rfl fun hwhole => hnot (hwhole.cons [])
        rw [List.length_nil, Nat.zero_add]
        exact hlater
    · rw [decode_trailing hu, List.count_append, List.count_replicate_self]
      have hpiece : (if u = [] then 0 else 1) ≤ u.length := by
        split
        · exact Nat.zero_le _
        · next hne => exact List.length_pos_iff.mpr hne
      rcases encode_split h with ⟨t₁, t₂, rfl, rfl, hlater⟩ |
        ⟨t₁, c, t₂, u', v', rfl, hc, hu', hv', rfl, hlater⟩
      · obtain ⟨hle, hlt⟩ := @ih t₂ [] (fun x hx => absurd hx List.not_mem_nil) hlater
        rw [if_pos rfl] at hle
        rw [decode_encode_self, List.count_append]
        constructor
        · omega
        · intro hnil hnot
          subst hnil
          have := hlt rfl fun hwhole => hnot (hwhole.cons t₁)
          omega
      · obtain ⟨hbroken, htrailing⟩ := decode_broken hc hu' hv'
        obtain ⟨hle, -⟩ := ih htrailing hlater
        rw [if_neg hv'] at hle
        rw [decode_encode, hbroken, List.count_append, List.count_append, List.count_cons,
          List.count_singleton_self]
        have hone : (if (c == replacement) = true then 1 else 0) ≤ 1 := by split <;> omega
        constructor
        · omega
        · intro _ _
          omega

/-- The text is read back exactly when no border is inside a character, and otherwise it has more
replacement characters. -/
theorem received_cases (chunks : List (List UInt8)) (h : chunks.flatten = encode t) :
    Whole chunks ∧ received chunks = t ∨
      ¬ Whole chunks ∧ t.count replacement < (received chunks).count replacement := by
  by_cases hwhole : Whole chunks
  · refine .inl ⟨hwhole, ?_⟩
    rw [← decode_encode_self (received chunks), encode_received hwhole, h, decode_encode_self]
  · exact .inr ⟨hwhole, (replacement_le chunks (fun _ hx => absurd hx List.not_mem_nil) h).2 rfl hwhole⟩

end Pieces

end Insula.Utf8Chunks
