import Insula.Versions

/-!
# Whole numbers read leniently

`parseInt` skips white space, takes a sign and as many digits as there are, and leaves what follows
unread. It agrees with the number of a text of digits, and reads a number in many other texts.
-/

namespace Insula.LenientNumbers

open Javascript (isSpace digits number readSign)

abbrev Text := List Char

def signed (sign : Text) (n : ℕ) : ℤ := if sign = ['-'] then -n else n

def parseInt (s : Text) : Option ℤ :=
  let (sign, rest) := readSign (s.dropWhile isSpace)
  let numeral := rest.takeWhile Char.isDigit
  if numeral = [] then none else some (signed sign (number numeral))

structure BeginsWith (s : Text) (n : ℤ) where
  space : Text
  sign : Text
  numeral : Text
  rest : Text
  text : s = space ++ sign ++ numeral ++ rest
  spaces : ∀ c ∈ space, isSpace c = true
  signs : sign = [] ∨ sign = ['+'] ∨ sign = ['-']
  digits : digits numeral = true
  ends : ∀ c ∈ rest.head?, c.isDigit = false
  value : n = signed sign (number numeral)

variable {s : Text} {n : ℤ}

theorem digits_iff : digits s = true ↔ s ≠ [] ∧ ∀ c ∈ s, c.isDigit = true := by
  simp only [digits, Bool.and_eq_true, decide_eq_true_eq, List.all_eq_true]

theorem not_space_of_isDigit {c : Char} (h : c.isDigit = true) : isSpace c = false :=
  Versions.not_space_of_isDigit (.inl h)

/-- What stands before and behind the first run of characters of a kind. -/
theorem takeWhile_of_ends {p : Char → Bool} {a b : Text} (ha : ∀ c ∈ a, p c = true)
    (hb : ∀ c ∈ b.head?, p c = false) : (a ++ b).takeWhile p = a ∧ (a ++ b).dropWhile p = b := by
  rw [List.takeWhile_append_of_pos ha, List.dropWhile_append_of_pos ha]
  cases b with
  | nil => simp
  | cons c b => simp [hb c rfl]

theorem readSign_append {sign rest : Text} (hsign : sign = [] ∨ sign = ['+'] ∨ sign = ['-'])
    (hrest : ∃ c t, rest = c :: t ∧ c.isDigit = true) : readSign (sign ++ rest) = (sign, rest) := by
  obtain ⟨c, t, rfl, hc⟩ := hrest
  rcases hsign with rfl | rfl | rfl
  · have hminus : c ≠ '-' := fun h => by rw [h] at hc; cases hc
    have hplus : c ≠ '+' := fun h => by rw [h] at hc; cases hc
    rw [List.nil_append, readSign]
    · exact fun _ h => hminus (List.cons.inj h).1
    · exact fun _ h => hplus (List.cons.inj h).1
  · rfl
  · rfl

theorem of_readSign {sign rest : Text} (h : readSign s = (sign, rest)) :
    s = sign ++ rest ∧ (sign = [] ∨ sign = ['+'] ∨ sign = ['-']) := by
  unfold readSign at h
  split at h
  · cases h
    exact ⟨rfl, .inr (.inr rfl)⟩
  · cases h
    exact ⟨rfl, .inr (.inl rfl)⟩
  · cases h
    exact ⟨rfl, .inl rfl⟩

theorem BeginsWith.parseInt (h : BeginsWith s n) : parseInt s = some n := by
  obtain ⟨space, sign, numeral, rest, rfl, hspaces, hsigns, hdigits, hends, rfl⟩ := h
  obtain ⟨hne, hall⟩ := digits_iff.mp hdigits
  obtain ⟨c, t, hnumeral⟩ := List.exists_cons_of_ne_nil hne
  have hc : c.isDigit = true := hall c (by rw [hnumeral]; exact List.mem_cons_self)
  have hhead : ∀ d ∈ (sign ++ (numeral ++ rest)).head?, isSpace d = false := by
    intro d hd
    rcases hsigns with rfl | rfl | rfl
    · rw [List.nil_append, hnumeral] at hd
      cases hd
      exact not_space_of_isDigit hc
    · cases hd
      decide
    · cases hd
      decide
  have hdrop : (space ++ sign ++ numeral ++ rest).dropWhile isSpace = sign ++ (numeral ++ rest) := by
    rw [List.append_assoc, List.append_assoc]
    exact (takeWhile_of_ends hspaces hhead).2
  have hsign : readSign (sign ++ (numeral ++ rest)) = (sign, numeral ++ rest) :=
    readSign_append hsigns ⟨c, t ++ rest, by rw [hnumeral]; rfl, hc⟩
  have htake : (numeral ++ rest).takeWhile Char.isDigit = numeral := (takeWhile_of_ends hall hends).1
  simp only [LenientNumbers.parseInt, hdrop, hsign, htake, if_neg hne]

theorem parseInt_eq_some (h : parseInt s = some n) : Nonempty (BeginsWith s n) := by
  unfold parseInt at h
  cases hsign : readSign (s.dropWhile isSpace) with
  | mk sign rest =>
    rw [hsign] at h
    dsimp only at h
    split_ifs at h with hnil
    obtain ⟨hrest, hsigns⟩ := of_readSign hsign
    refine ⟨s.takeWhile isSpace, sign, rest.takeWhile Char.isDigit, rest.dropWhile Char.isDigit, ?_, ?_,
      hsigns, ?_, ?_, (Option.some.inj h).symm⟩
    · rw [List.append_assoc, List.append_assoc, List.takeWhile_append_dropWhile, ← hrest,
        List.takeWhile_append_dropWhile]
    · exact fun c hc => List.mem_takeWhile_imp hc
    · exact digits_iff.mpr ⟨hnil, fun c hc => List.mem_takeWhile_imp hc⟩
    · intro c hc
      have hnot := List.head?_dropWhile_not Char.isDigit rest
      rw [Option.mem_def.mp hc] at hnot
      simpa using hnot

theorem parseInt_iff : parseInt s = some n ↔ Nonempty (BeginsWith s n) :=
  ⟨parseInt_eq_some, fun ⟨h⟩ => h.parseInt⟩

theorem parseInt_of_digits (h : digits s = true) : parseInt s = some (number s : ℤ) :=
  BeginsWith.parseInt
    { space := [], sign := [], numeral := s, rest := [], text := by simp,
      spaces := fun _ hc => absurd hc List.not_mem_nil, signs := .inl rfl, digits := h,
      ends := fun _ hc => absurd hc (Option.not_mem_none _), value := rfl }

end Insula.LenientNumbers
