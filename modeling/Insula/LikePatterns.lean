import Mathlib.Data.List.Infix

/-!
# Patterns of LIKE

What a pattern of LIKE matches, with a backslash as the escape character, and texts that are escaped
to stand for themselves in a pattern.
-/

namespace Insula.LikePatterns

abbrev Text := List Char

/-- A pattern that ends in a lone backslash is an error and matches nothing. -/
def like : Text → Text → Bool
  | [], s => s == []
  | '%' :: p, s => s.tails.any fun t => like p t
  | '_' :: p, s => !s.isEmpty && like p s.tail
  | '\\' :: c :: p, s => s.head? == some c && like p s.tail
  | ['\\'], _ => false
  | c :: p, s => s.head? == some c && like p s.tail

def isSpecial (c : Char) : Bool := c == '\\' || c == '%' || c == '_'

def escape (s : Text) : Text := s.flatMap fun c => if isSpecial c then ['\\', c] else [c]

theorem escape_cons (c : Char) (s : Text) :
    escape (c :: s) = (if isSpecial c then ['\\', c] else [c]) ++ escape s := rfl

theorem head_cons {c : Char} {s : Text} {b : Text → Bool} :
    (s.head? == some c && b s.tail) = true ↔ ∃ t, s = c :: t ∧ b t = true := by
  cases s with
  | nil => simp
  | cons d t =>
    rw [Bool.and_eq_true_iff, List.head?_cons, beq_iff_eq, Option.some.injEq, List.tail_cons]
    constructor
    · rintro ⟨rfl, h⟩
      exact ⟨t, rfl, h⟩
    · rintro ⟨t', ht, h⟩
      obtain ⟨rfl, rfl⟩ := List.cons.inj ht
      exact ⟨rfl, h⟩

theorem like_char {c : Char} (h : isSpecial c = false) (p s : Text) :
    like (c :: p) s = (s.head? == some c && like p s.tail) := by
  rw [isSpecial, Bool.or_eq_false_iff, Bool.or_eq_false_iff, beq_eq_false_iff_ne, beq_eq_false_iff_ne,
    beq_eq_false_iff_ne] at h
  rw [like]
  · exact h.1.2
  · exact h.2
  · exact fun _ _ hc _ => h.1.1 hc
  · exact fun hc _ => h.1.1 hc

theorem like_escapeChar (c : Char) (p s : Text) :
    like ((if isSpecial c then ['\\', c] else [c]) ++ p) s = true ↔ ∃ t, s = c :: t ∧
    like p t = true := by
  rw [← head_cons]
  cases hc : isSpecial c with
  | true => exact Iff.rfl
  | false => exact iff_of_eq (congrArg (· = true) (like_char hc p s))

/-- An escaped text in a pattern matches that text alone. -/
theorem like_escape (t p s : Text) : like (escape t ++ p) s = true ↔ ∃ r, s = t ++ r ∧
    like p r = true := by
  induction t generalizing s with
  | nil =>
    constructor
    · exact fun h => ⟨s, rfl, h⟩
    · rintro ⟨r, rfl, h⟩
      exact h
  | cons c t ih =>
    rw [escape_cons, List.append_assoc, like_escapeChar]
    constructor
    · rintro ⟨s', rfl, h⟩
      obtain ⟨r, rfl, hr⟩ := (ih s').mp h
      exact ⟨r, rfl, hr⟩
    · rintro ⟨r, rfl, hr⟩
      exact ⟨t ++ r, rfl, (ih _).mpr ⟨r, rfl, hr⟩⟩

theorem like_any (p s : Text) : like ('%' :: p) s = true ↔ ∃ r, r <:+ s ∧ like p r = true := by
  rw [like, List.any_eq_true]
  exact exists_congr fun r => and_congr_left fun _ => List.mem_tails _ _

theorem like_all (s : Text) : like ['%'] s = true := (like_any [] s).mpr ⟨[], List.nil_suffix, rfl⟩

/-- An escaped text between two `%` is looked for anywhere. -/
theorem like_contains (t s : Text) : like ('%' :: (escape t ++ ['%'])) s = true ↔ t <:+: s := by
  rw [like_any]
  constructor
  · rintro ⟨r, ⟨before, rfl⟩, h⟩
    obtain ⟨after, rfl, -⟩ := (like_escape t ['%'] r).mp h
    exact ⟨before, after, List.append_assoc _ _ _⟩
  · rintro ⟨before, after, rfl⟩
    exact ⟨t ++ after, ⟨before, (List.append_assoc _ _ _).symm⟩,
      (like_escape t ['%'] _).mpr ⟨after, rfl, like_all after⟩⟩

/-- An escaped text before a `%` is looked for at the start. -/
theorem like_begins (t s : Text) : like (escape t ++ ['%']) s = true ↔ t <+: s := by
  rw [like_escape]
  constructor
  · rintro ⟨after, rfl, -⟩
    exact ⟨after, rfl⟩
  · rintro ⟨after, rfl⟩
    exact ⟨after, rfl, like_all after⟩

theorem escape_map {f : Char → Char} (hf : ∀ c, isSpecial (f c) = isSpecial c)
    (hspecial : ∀ c, isSpecial c = true → f c = c) (t : Text) :
    (escape t).map f = escape (t.map f) := by
  induction t with
  | nil => rfl
  | cons c t ih =>
    rw [List.map_cons, escape_cons, escape_cons, List.map_append, ih, hf c]
    cases hc : isSpecial c with
    | true =>
      have hslash : f '\\' = '\\' := hspecial '\\' rfl
      simp only [if_true, List.map_cons, List.map_nil, hslash]
    | false => rfl

end Insula.LikePatterns
