import Insula.Lookup

/-!
# Addresses and their text

IPv4 and IPv6 addresses with the text a URL parser gives a host and the text a resolver gives an
answer, and the addresses that lead inside. The two texts differ where an IPv6 address ends in an
IPv4 address.
-/

namespace Insula.IpText

open scoped Lookup

abbrev Text := List Char

structure V4 where
  a : Fin 256
  b : Fin 256
  c : Fin 256
  d : Fin 256
deriving DecidableEq, Repr

structure V6 where
  w0 : Fin 65536
  w1 : Fin 65536
  w2 : Fin 65536
  w3 : Fin 65536
  w4 : Fin 65536
  w5 : Fin 65536
  w6 : Fin 65536
  w7 : Fin 65536
deriving DecidableEq, Repr

inductive Address
  | v4 (a : V4)
  | v6 (a : V6)
deriving DecidableEq, Repr

def hex (n : ℕ) : Text := Nat.toDigits 16 n

def decimal (n : ℕ) : Text := Nat.toDigits 10 n

def dotted (a : V4) : Text := ['.'].intercalate [decimal a.a, decimal a.b, decimal a.c, decimal a.d]

namespace V6

variable (a : V6)

def words : List ℕ := [a.w0, a.w1, a.w2, a.w3, a.w4, a.w5, a.w6, a.w7]

def octets (high low : Fin 65536) : V4 :=
  ⟨⟨high / 256, by omega⟩, ⟨high % 256, by omega⟩, ⟨low / 256, by omega⟩, ⟨low % 256, by omega⟩⟩

def low : V4 := octets a.w6 a.w7

end V6

def zeros : List ℕ → ℕ
  | [] => 0
  | w :: ws => if w = 0 then zeros ws + 1 else 0

def longestZeros : List ℕ → ℕ × ℕ
  | [] => (0, 0)
  | w :: ws =>
    if (longestZeros ws).2 ≤ zeros (w :: ws) then (0, zeros (w :: ws))
    else ((longestZeros ws).1 + 1, (longestZeros ws).2)

def joined (groups : List Text) : Text := [':'].intercalate groups

def shortened (ws : List ℕ) : Text :=
  let z := longestZeros ws
  if z.2 < 2 then joined (ws.map hex)
  else joined ((ws.take z.1).map hex) ++ ':' :: ':' :: joined ((ws.drop (z.1 + z.2)).map hex)

def V6.urlText (a : V6) : Text := shortened a.words

/-- `inet_ntop`: an address that is mapped or compatible ends in dotted decimals. -/
def V6.resolverText (a : V6) : Text :=
  let z := longestZeros a.words
  if z.1 = 0 ∧ (z.2 = 6 ∨ z.2 = 5 ∧ a.w5 = 0xffff) then
    ':' :: ':' :: joined (((a.words.take 6).drop z.2).map hex ++ [dotted a.low])
  else shortened a.words

def V6.ofWords (ws : ℕ → ℕ) : V6 :=
  let word := fun i => Fin.ofNat 65536 (ws i)
  ⟨word 0, word 1, word 2, word 3, word 4, word 5, word 6, word 7⟩

namespace Address

def resolverText : Address → Text
  | .v4 a => dotted a
  | .v6 a => a.resolverText

end Address

/-! ## Digits -/

variable {n w : ℕ} {c : Char} {ws : List ℕ}

theorem digit_of_mem_toDigits {base : ℕ} (hbase : 1 < base) (h : c ∈ Nat.toDigits base n) :
    ∃ d < base, c = Nat.digitChar d := by
  induction n using Nat.strongRecOn with
  | _ n ih =>
    rw [Nat.toDigits_eq_if hbase] at h
    split at h
    · rename_i hlt
      exact ⟨n, hlt, List.mem_singleton.mp h⟩
    · rename_i hge
      rcases List.mem_append.mp h with h | h
      · exact ih (n / base) (Nat.div_lt_self (by omega) hbase) h
      · exact ⟨n % base, Nat.mod_lt _ (by omega), List.mem_singleton.mp h⟩

theorem mem_hex (h : c ∈ hex n) : c ∈ "0123456789abcdef".toList := by
  obtain ⟨d, hd, rfl⟩ := digit_of_mem_toDigits (by decide) h
  have hdigits : ∀ d < 16, Nat.digitChar d ∈ "0123456789abcdef".toList := by decide
  exact hdigits d hd

theorem mem_decimal (h : c ∈ decimal n) : c ∈ "0123456789".toList := by
  obtain ⟨d, hd, rfl⟩ := digit_of_mem_toDigits (by decide) h
  have hdigits : ∀ d < 10, Nat.digitChar d ∈ "0123456789".toList := by decide
  exact hdigits d hd

theorem hex_ne_nil (n : ℕ) : hex n ≠ [] := Nat.toDigits_ne_nil

theorem decimal_ne_nil (n : ℕ) : decimal n ≠ [] := Nat.toDigits_ne_nil

theorem colon_notMem_hex (n : ℕ) : ':' ∉ hex n := by
  intro h
  have := mem_hex h
  revert this
  decide

theorem notMem_decimal (n : ℕ) : ':' ∉ decimal n ∧ '.' ∉ decimal n := by
  constructor
  all_goals
    intro h
    have := mem_decimal h
    revert this
    decide

/-! ## Groups -/

theorem joined_cons (g : Text) {gs : List Text} (h : gs ≠ []) :
    joined (g :: gs) = g ++ ':' :: joined gs := by
  unfold joined
  rw [List.intercalate_cons_of_ne_nil h]
  simp

theorem joined_singleton (g : Text) : joined [g] = g := by simp [joined]

theorem zeros_cons_of_ne (ws : List ℕ) (h : w ≠ 0) : zeros (w :: ws) = 0 := if_neg h

theorem longestZeros_of_ne (h : w ≠ 0) : longestZeros (w :: ws) = (0, 0) ∨
      longestZeros (w :: ws) = ((longestZeros ws).1 + 1, (longestZeros ws).2) := by
  rw [longestZeros, zeros_cons_of_ne ws h]
  split
  · exact .inl rfl
  · exact .inr rfl

/-- An address whose first word is not zero begins with that word. -/
theorem shortened_of_ne (h : w ≠ 0) (hws : ws ≠ []) :
    ∃ rest, shortened (w :: ws) = hex w ++ ':' :: rest := by
  unfold shortened
  by_cases hshort : (longestZeros (w :: ws)).2 < 2
  · refine ⟨joined (ws.map hex), ?_⟩
    simp only [if_pos hshort, List.map_cons]
    exact joined_cons _ (by simpa using hws)
  · rcases @longestZeros_of_ne w ws h with hz | hz
    · rw [hz] at hshort
      omega
    · simp only [hz] at hshort ⊢
      simp only [if_neg hshort, List.take_succ_cons, List.map_cons]
      by_cases htake : (ws.take (longestZeros ws).1).map hex = []
      · exact ⟨_, by rw [htake, joined_singleton]⟩
      · exact ⟨_, by rw [joined_cons _ htake, List.append_assoc, List.cons_append]⟩

namespace V6

variable {a : V6}

theorem urlText_of_ne (h : a.w0.val ≠ 0) : ∃ rest, a.urlText = hex a.w0 ++ ':' :: rest :=
  shortened_of_ne h (by simp)

theorem resolverText_of_ne (h : a.w0.val ≠ 0) :
    ∃ rest, a.resolverText = hex a.w0 ++ ':' :: rest := by
  have hz : ¬((longestZeros a.words).1 = 0 ∧
      ((longestZeros a.words).2 = 6 ∨ (longestZeros a.words).2 = 5 ∧ a.w5 = 0xffff)) := by
    rintro ⟨hstart, hlen⟩
    unfold words at hstart hlen
    rcases longestZeros_of_ne h with hz | hz
    · rw [hz] at hlen
      omega
    · rw [hz] at hstart
      omega
  unfold resolverText
  simp only [if_neg hz]
  exact shortened_of_ne h (by simp)

def Low (a : V6) : Prop := a.w0 = 0 ∧ a.w1 = 0 ∧ a.w2 = 0 ∧ a.w3 = 0 ∧ a.w4 = 0

instance (a : V6) : Decidable a.Low := by
  unfold Low
  infer_instance

theorem longestZeros_low (h : a.Low) :
    longestZeros a.words = (0, 5 + zeros [a.w5.val, a.w6.val, a.w7.val]) := by
  obtain ⟨h0, h1, h2, h3, h4⟩ := h
  unfold words
  rw [h0, h1, h2, h3, h4]
  by_cases h5 : a.w5.val = 0
  all_goals by_cases h6 : a.w6.val = 0
  all_goals by_cases h7 : a.w7.val = 0
  all_goals simp [longestZeros, zeros, h5, h6, h7]

theorem urlText_low (h : a.Low) : a.urlText = ':' :: ':' ::
    joined ((a.words.drop (5 + zeros [a.w5.val, a.w6.val, a.w7.val])).map hex) := by
  unfold urlText shortened
  simp only [longestZeros_low h]
  rw [if_neg (by omega)]
  simp [joined]

theorem resolverText_low (h : a.Low) (hz : zeros [a.w5.val, a.w6.val, a.w7.val] = 1 ∨
      zeros [a.w5.val, a.w6.val, a.w7.val] = 0 ∧ a.w5 = 0xffff) : a.resolverText = ':' :: ':' ::
      joined (((a.words.take 6).drop (5 + zeros [a.w5.val, a.w6.val, a.w7.val])).map hex ++
        [dotted a.low]) := by
  unfold resolverText
  simp only [longestZeros_low h]
  rw [if_pos ⟨trivial, by omega⟩]

theorem resolverText_low_of_not (h : a.Low) (hz : ¬(zeros [a.w5.val, a.w6.val, a.w7.val] = 1 ∨
      zeros [a.w5.val, a.w6.val, a.w7.val] = 0 ∧ a.w5 = 0xffff)) : a.resolverText = a.urlText := by
  unfold resolverText
  simp only [longestZeros_low h]
  rw [if_neg]
  · rfl
  · rintro ⟨-, hlen⟩
    apply hz
    omega

/-! ### Mapped and compatible addresses -/

def mapped (a : V6) : Prop := a.Low ∧ a.w5 = 0xffff

def compatible (a : V6) : Prop := a.Low ∧ a.w5 = 0

instance (a : V6) : Decidable a.mapped := inferInstanceAs (Decidable (_ ∧ _))

instance (a : V6) : Decidable a.compatible := inferInstanceAs (Decidable (_ ∧ _))

theorem urlText_mapped (h : a.mapped) :
    a.urlText = "::ffff:".toList ++ (hex a.w6 ++ ':' :: hex a.w7) := by
  have hzeros : zeros [a.w5.val, a.w6.val, a.w7.val] = 0 := by
    rw [h.2]
    rfl
  rw [urlText_low h.1, hzeros]
  simp only [words, List.drop_succ_cons, List.drop_zero, List.map_cons, List.map_nil, h.2]
  rw [joined_cons _ (by simp), joined_cons _ (by simp), joined_singleton]
  rfl

theorem resolverText_mapped (h : a.mapped) : a.resolverText = "::ffff:".toList ++ dotted a.low := by
  have hzeros : zeros [a.w5.val, a.w6.val, a.w7.val] = 0 := by
    rw [h.2]
    rfl
  rw [resolverText_low h.1 (.inr ⟨hzeros, h.2⟩), hzeros]
  simp only [words, List.take_succ_cons, List.take_zero, List.drop_succ_cons, List.drop_zero,
    List.map_cons, List.map_nil, h.2, List.cons_append, List.nil_append]
  rw [joined_cons _ (by simp), joined_singleton]
  rfl

/-- Without its zeros a compatible address is the two words left, the last one, or nothing. -/
theorem urlText_compatible (h : a.compatible) :
    a.urlText = ':' :: ':' :: (if a.w6 = 0 then (if a.w7 = 0 then [] else hex a.w7)
      else hex a.w6 ++ ':' :: hex a.w7) := by
  rw [urlText_low h.1, h.2]
  by_cases h6 : a.w6 = 0
  · by_cases h7 : a.w7 = 0
    · simp [h6, h7, zeros, words, joined]
    · have h7' : a.w7.val ≠ 0 := by
        intro hzero
        exact h7 (Fin.ext hzero)
      simp [h6, h7, zeros, words, joined]
  · have h6' : a.w6.val ≠ 0 := by
      intro hzero
      exact h6 (Fin.ext hzero)
    simp [h6, zeros, words, joined]

theorem resolverText_compatible (h : a.compatible) :
    a.resolverText = if a.w6 = 0 then a.urlText else ':' :: ':' :: dotted a.low := by
  by_cases h6 : a.w6 = 0
  · rw [if_pos h6]
    apply resolverText_low_of_not h.1
    rw [h.2, h6]
    by_cases h7 : a.w7.val = 0
    all_goals simp [zeros, h7]
  · have h6' : a.w6.val ≠ 0 := by
      intro hzero
      exact h6 (Fin.ext hzero)
    have hzeros : zeros [a.w5.val, a.w6.val, a.w7.val] = 1 := by
      rw [h.2]
      simp [zeros, h6']
    rw [if_neg h6, resolverText_low h.1 (.inl hzeros), hzeros]
    simp [words, joined]

end V6

/-! ## Characters -/

def ofAddress (c : Char) : Prop := c ∈ "0123456789abcdef:.".toList

theorem ofAddress_hex : ∀ c ∈ hex n, ofAddress c := by
  intro c hc
  have hdigits : ∀ c ∈ "0123456789abcdef".toList, ofAddress c := by
    unfold ofAddress
    decide
  exact hdigits c (mem_hex hc)

theorem ofAddress_decimal : ∀ c ∈ decimal n, ofAddress c := by
  intro c hc
  have hdigits : ∀ c ∈ "0123456789".toList, ofAddress c := by
    unfold ofAddress
    decide
  exact hdigits c (mem_decimal hc)

theorem ofAddress_colon : ofAddress ':' := by
  unfold ofAddress
  decide

theorem mem_intercalate {d : Char} {gs : List Text} (h : c ∈ [d].intercalate gs) :
    c = d ∨ ∃ g ∈ gs, c ∈ g := by
  induction gs with
  | nil => simp at h
  | cons g gs ih =>
    by_cases hgs : gs = []
    · subst hgs
      exact .inr ⟨g, by simp, by simpa using h⟩
    · rw [List.intercalate_cons_of_ne_nil hgs] at h
      simp only [List.mem_append, List.mem_singleton] at h
      rcases h with (h | h) | h
      · exact .inr ⟨g, by simp, h⟩
      · exact .inl h
      · rcases ih h with h | ⟨g', hg', h⟩
        · exact .inl h
        · exact .inr ⟨g', List.mem_cons_of_mem _ hg', h⟩

theorem colon_notMem_dotted (a : V4) : ':' ∉ dotted a := by
  intro hc
  rcases mem_intercalate hc with h | ⟨g, hg, hc⟩
  · cases h
  · simp only [List.mem_cons, List.not_mem_nil, or_false] at hg
    rcases hg with rfl | rfl | rfl | rfl
    all_goals exact (notMem_decimal _).1 hc

theorem ofAddress_dotted (a : V4) : ∀ c ∈ dotted a, ofAddress c := by
  intro c hc
  rcases mem_intercalate hc with rfl | ⟨g, hg, hc⟩
  · unfold ofAddress
    decide
  · simp only [List.mem_cons, List.not_mem_nil, or_false] at hg
    rcases hg with rfl | rfl | rfl | rfl
    all_goals exact ofAddress_decimal c hc

theorem ofAddress_joined : ∀ c ∈ joined (ws.map hex), ofAddress c := by
  intro c hc
  rcases mem_intercalate hc with rfl | ⟨g, hg, hc⟩
  · exact ofAddress_colon
  · obtain ⟨w, -, rfl⟩ := List.mem_map.mp hg
    exact ofAddress_hex c hc

theorem ofAddress_shortened (ws : List ℕ) : ∀ c ∈ shortened ws, ofAddress c := by
  intro c hc
  unfold shortened at hc
  simp only at hc
  split at hc
  · exact ofAddress_joined c hc
  · simp only [List.mem_append, List.mem_cons] at hc
    rcases hc with hc | rfl | rfl | hc
    · exact ofAddress_joined c hc
    · exact ofAddress_colon
    · exact ofAddress_colon
    · exact ofAddress_joined c hc

theorem ofAddress_urlText (a : V6) : ∀ c ∈ a.urlText, ofAddress c := ofAddress_shortened a.words

theorem ofAddress_resolverText (a : V6) : ∀ c ∈ a.resolverText, ofAddress c := by
  intro c hc
  unfold V6.resolverText at hc
  simp only at hc
  split at hc
  · simp only [List.mem_cons] at hc
    rcases hc with rfl | rfl | hc
    · exact ofAddress_colon
    · exact ofAddress_colon
    · rcases mem_intercalate hc with rfl | ⟨g, hg, hc⟩
      · exact ofAddress_colon
      · simp only [List.mem_append, List.mem_singleton] at hg
        rcases hg with hg | rfl
        · obtain ⟨w, -, rfl⟩ := List.mem_map.mp hg
          exact ofAddress_hex c hc
        · exact ofAddress_dotted _ c hc
  · exact ofAddress_shortened _ c hc

/-! ## Internal addresses -/

/-- "This host", loopback, private, link-local or of the shared space of carriers. -/
def V4.Internal (a : V4) : Prop :=
  a.a = 0 ∨ a.a = 127 ∨ a.a = 10 ∨ (a.a = 172 ∧ 16 ≤ a.b ∧ a.b ≤ 31) ∨ (a.a = 192 ∧ a.b = 168) ∨
    (a.a = 169 ∧ a.b = 254) ∨ (a.a = 100 ∧ 64 ≤ a.b ∧ a.b ≤ 127)

instance (a : V4) : Decidable a.Internal := by
  unfold V4.Internal
  infer_instance

theorem V4.Internal.first_ne {a : V4} (h : a.Internal) : a.a.val ≠ 255 := by
  intro hfirst
  have hall : a.a = 255 := Fin.ext hfirst
  unfold V4.Internal at h
  rw [hall] at h
  rcases h with h | h | h | h | h | h | h
  · exact absurd h (by decide)
  · exact absurd h (by decide)
  · exact absurd h (by decide)
  all_goals exact absurd h.1 (by decide)

namespace V6

variable (a : V6)

def unspecified : Prop := a.compatible ∧ a.w6 = 0 ∧ a.w7 = 0

def loopback : Prop := a.compatible ∧ a.w6 = 0 ∧ a.w7 = 1

def linkLocal : Prop := 0xfe80 ≤ a.w0.val ∧ a.w0.val ≤ 0xfebf

def uniqueLocal : Prop := 0xfc00 ≤ a.w0.val ∧ a.w0.val ≤ 0xfdff

def sixToFour : Prop := a.w0 = 0x2002

def nat64 : Prop :=
  a.w0 = 0x64 ∧ a.w1 = 0xff9b ∧ a.w2 = 0 ∧ a.w3 = 0 ∧ a.w4 = 0 ∧ a.w5 = 0

/-- The address carries an IPv4 address in one of the standard embeddings. -/
def Carries (b : V4) : Prop :=
  ((a.mapped ∨ a.compatible ∨ a.nat64) ∧ b = a.low) ∨ (a.sixToFour ∧ b = octets a.w1 a.w2)

def Internal : Prop :=
  a.unspecified ∨ a.loopback ∨ a.linkLocal ∨ a.uniqueLocal ∨ ∃ b, a.Carries b ∧ b.Internal

/-- An internal IPv4 address in a compatible address or behind NAT64. -/
def Hidden : Prop :=
  ((a.compatible ∧ ¬a.unspecified ∧ ¬a.loopback) ∨ a.nat64) ∧ a.low.Internal

instance : Decidable a.Hidden := by
  unfold Hidden unspecified loopback nat64
  infer_instance

variable {a}

theorem Hidden.internal (h : a.Hidden) : a.Internal := by
  obtain ⟨hform, hlow⟩ := h
  have hcarries : a.Carries a.low := by
    refine .inl ⟨?_, rfl⟩
    rcases hform with ⟨hcompatible, -, -⟩ | hnat
    · exact .inr (.inl hcompatible)
    · exact .inr (.inr hnat)
  exact .inr (.inr (.inr (.inr ⟨a.low, hcarries, hlow⟩)))

end V6

namespace Address

def Internal : Address → Prop
  | .v4 a => a.Internal
  | .v6 a => a.Internal

def Hidden : Address → Prop
  | .v4 _ => False
  | .v6 a => a.Hidden

theorem Hidden.internal {a : Address} (h : a.Hidden) : a.Internal := by
  cases a with
  | v4 a => exact h.elim
  | v6 a => exact V6.Hidden.internal h

end Address

end Insula.IpText
