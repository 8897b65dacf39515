import Insula.Javascript

/-!
# Lower-casing of text

The lower-casing of a text replaces each of its characters, on sight of the text before and after
it, by a short text. Of the full table only a few facts matter here: the characters of ASCII are
replaced by one of ASCII, whatever stands around them; any other character is kept or replaced by a
text that begins with another character and holds neither a dot, an at sign nor a space; a final dot
changes nothing before it.
-/

namespace Insula.Lowercase

open Javascript

def IsAscii (c : Char) : Prop := c.toNat < 128

instance (c : Char) : Decidable (IsAscii c) := by
  unfold IsAscii
  infer_instance

structure Lowering where
  lower : List Char → Char → List Char → List Char
  ascii : ∀ before c after, IsAscii c → lower before c after = [c.toLower]
  ne_nil : ∀ before c after, lower before c after ≠ []
  kept : ∀ before c after rest, ¬ IsAscii c → lower before c after = c :: rest → rest = []
  plain : ∀ before c after, ¬ IsAscii c → ∀ d ∈ lower before c after, d ≠ c →
    d ≠ '.' ∧ d ≠ '@' ∧ isSpace d = false
  beforeDot : ∀ before c after, lower before c (after ++ ['.']) = lower before c after

def foldCase (s : List Char) : List Char := s.map Char.toLower

variable {c : Char}

theorem ascii_induction {p : Char → Prop} (h : ∀ n < 128, p (Char.ofNat n)) (hc : IsAscii c) :
    p c := by
  rw [← Char.ofNat_toNat c]
  exact h c.toNat hc

theorem toLower_of_not_ascii (h : ¬ IsAscii c) : c.toLower = c := by
  unfold Char.toLower
  have hle : ¬ (c.val ≥ 'A'.val ∧ c.val ≤ 'Z'.val) := by
    rintro ⟨-, hz⟩
    have hnat : c.val.toNat ≤ 90 := hz
    exact h (by unfold IsAscii Char.toNat; omega)
  exact dif_neg hle

theorem toLower_ascii (h : IsAscii c) : IsAscii c.toLower ∧ c.toLower.toLower = c.toLower ∧
    isSpace c.toLower = isSpace c ∧ (c ≠ '.' → c.toLower ≠ '.') ∧ (c ≠ '@' → c.toLower ≠ '@') ∧
      (c ≠ ' ' → c.toLower ≠ ' ') :=
  ascii_induction (p := fun c => IsAscii c.toLower ∧ c.toLower.toLower = c.toLower ∧
    isSpace c.toLower = isSpace c ∧ (c ≠ '.' → c.toLower ≠ '.') ∧ (c ≠ '@' → c.toLower ≠ '@') ∧
      (c ≠ ' ' → c.toLower ≠ ' ')) (by decide) h

theorem isAscii_toLower (h : IsAscii c) : IsAscii c.toLower := (toLower_ascii h).1

theorem toLower_toLower (c : Char) : c.toLower.toLower = c.toLower := by
  by_cases h : IsAscii c
  · exact (toLower_ascii h).2.1
  · rw [toLower_of_not_ascii h, toLower_of_not_ascii h]

theorem toLower_ne_plain {d : Char} (hd : d ∈ ['.', '@', ' ']) (h : c ≠ d) : c.toLower ≠ d := by
  by_cases hc : IsAscii c
  · obtain ⟨-, -, -, hdot, hat, hspace⟩ := toLower_ascii hc
    simp only [List.mem_cons, List.not_mem_nil, or_false] at hd
    rcases hd with rfl | rfl | rfl
    · exact hdot h
    · exact hat h
    · exact hspace h
  · rw [toLower_of_not_ascii hc]
    exact h

theorem isSpace_toLower (c : Char) : isSpace c.toLower = isSpace c := by
  by_cases hc : IsAscii c
  · exact (toLower_ascii hc).2.2.1
  · rw [toLower_of_not_ascii hc]

theorem foldCase_append (s t : List Char) : foldCase (s ++ t) = foldCase s ++ foldCase t :=
  List.map_append

theorem foldCase_foldCase (s : List Char) : foldCase (foldCase s) = foldCase s := by
  unfold foldCase
  rw [List.map_map]
  exact List.map_congr_left fun c _ => toLower_toLower c

theorem length_foldCase (s : List Char) : (foldCase s).length = s.length := List.length_map ..

namespace Lowering

variable (lc : Lowering) {s before : List Char} {d : Char}

def lowerFrom : List Char → List Char → List Char
  | _, [] => []
  | before, c :: after => lc.lower before c after ++ lowerFrom (c :: before) after

def toLowerCase (s : List Char) : List Char := lc.lowerFrom [] s

@[simp] theorem lowerFrom_nil (before : List Char) : lc.lowerFrom before [] = [] := rfl

theorem lowerFrom_cons (before after : List Char) (c : Char) :
    lc.lowerFrom before (c :: after) = lc.lower before c after ++ lc.lowerFrom (c :: before) after :=
  rfl

/-- Text in ASCII is lower-cased letter by letter. -/
theorem lowerFrom_of_ascii (h : ∀ c ∈ s, IsAscii c) (before : List Char) :
    lc.lowerFrom before s = foldCase s := by
  induction s generalizing before with
  | nil => rfl
  | cons c s ih =>
    rw [lowerFrom_cons, lc.ascii _ _ _ (h c List.mem_cons_self),
      ih fun d hd => h d (List.mem_cons_of_mem c hd)]
    rfl

theorem toLowerCase_of_ascii (h : ∀ c ∈ s, IsAscii c) :
    lc.toLowerCase s = foldCase s := lc.lowerFrom_of_ascii h []

theorem lowerFrom_dot (before s : List Char) :
    lc.lowerFrom before (s ++ ['.']) = lc.lowerFrom before s ++ ['.'] := by
  induction s generalizing before with
  | nil =>
    have hdot := lc.ascii before '.' [] (by decide)
    rw [List.nil_append, lowerFrom_cons, hdot]
    rfl
  | cons c s ih =>
    rw [List.cons_append, lowerFrom_cons, lowerFrom_cons, lc.beforeDot, ih, List.append_assoc]

/-- A final dot stays, and changes nothing before it. -/
theorem toLowerCase_dot (s : List Char) : lc.toLowerCase (s ++ ['.']) = lc.toLowerCase s ++ ['.'] :=
  lc.lowerFrom_dot [] s

theorem lowerFrom_ne_nil (h : s ≠ []) (before : List Char) : lc.lowerFrom before s ≠ [] := by
  cases s with
  | nil => exact absurd rfl h
  | cons c s =>
    rw [lowerFrom_cons]
    exact List.append_ne_nil_of_left_ne_nil (lc.ne_nil _ _ _) _

theorem toLowerCase_eq_nil : lc.toLowerCase s = [] ↔ s = [] := by
  constructor
  · intro h
    by_contra hne
    exact lc.lowerFrom_ne_nil hne [] h
  · rintro rfl
    rfl

/-- Dots, at signs and spaces come only from themselves. -/
theorem mem_lower_iff (hd : d = '.' ∨ d = '@') (before : List Char) (c : Char) (after : List Char) :
    d ∈ lc.lower before c after → d = c := by
  intro hmem
  by_cases hc : IsAscii c
  · rw [lc.ascii _ _ _ hc, List.mem_singleton] at hmem
    by_contra hne
    have hin : d ∈ ['.', '@', ' '] := by
      rcases hd with rfl | rfl <;> decide
    exact toLower_ne_plain hin (Ne.symm hne) hmem.symm
  · by_contra hne
    obtain ⟨hdot, hat, -⟩ := lc.plain _ _ _ hc d hmem hne
    rcases hd with rfl | rfl
    · exact hdot rfl
    · exact hat rfl

theorem mem_lowerFrom (hd : d = '.' ∨ d = '@') (h : d ∈ lc.lowerFrom before s) : d ∈ s := by
  induction s generalizing before with
  | nil => exact h
  | cons c s ih =>
    rw [lowerFrom_cons, List.mem_append] at h
    rcases h with h | h
    · rw [lc.mem_lower_iff hd _ _ _ h]
      exact List.mem_cons_self
    · exact List.mem_cons_of_mem c (ih h)

theorem lowerFrom_concat (before s : List Char) (c : Char) :
    ∃ front b, lc.lowerFrom before (s ++ [c]) = front ++ lc.lower b c [] := by
  induction s generalizing before with
  | nil => exact ⟨[], before, by rw [List.nil_append, lowerFrom_cons]; simp⟩
  | cons d s ih =>
    obtain ⟨front, b, hrest⟩ := ih (d :: before)
    refine ⟨lc.lower before d (s ++ [c]) ++ front, b, ?_⟩
    rw [List.cons_append, lowerFrom_cons, hrest, List.append_assoc]

theorem getLast?_toLowerCase_dot (s : List Char) :
    (lc.toLowerCase s).getLast? = some '.' ↔ s.getLast? = some '.' := by
  rcases List.eq_nil_or_concat s with rfl | ⟨t, c, rfl⟩
  · rfl
  · rw [List.concat_eq_append]
    obtain ⟨front, b, hconcat⟩ := lc.lowerFrom_concat [] t c
    have hlast : (lc.toLowerCase (t ++ [c])).getLast? = (lc.lower b c []).getLast? := by
      rw [toLowerCase, hconcat, List.getLast?_append_of_ne_nil _ (lc.ne_nil _ _ _)]
    rw [hlast, List.getLast?_concat, Option.some.injEq]
    constructor
    · intro h
      exact (lc.mem_lower_iff (.inl rfl) _ _ _ (List.mem_of_getLast? h)).symm
    · rintro rfl
      rw [lc.ascii _ _ _ (by decide)]
      rfl

theorem toLowerCase_eq_at : lc.toLowerCase s = ['@'] ↔ s = ['@'] := by
  constructor
  · intro h
    have hmem : '@' ∈ s := lc.mem_lowerFrom (.inr rfl) (by
      rw [show lc.lowerFrom [] s = ['@'] from h]
      exact List.mem_cons_self)
    cases s with
    | nil => cases hmem
    | cons c t =>
      have hsplit : lc.lower [] c t ++ lc.lowerFrom [c] t = ['@'] := h
      have hrest : t = [] := by
        by_contra hne
        have hfirst := List.length_pos_iff.mpr (lc.ne_nil [] c t)
        have hlater := List.length_pos_iff.mpr (lc.lowerFrom_ne_nil hne [c])
        have hlength := congrArg List.length hsplit
        rw [List.length_append, List.length_singleton] at hlength
        omega
      subst hrest
      rw [List.mem_singleton.mp hmem]
  · rintro rfl
    apply lc.toLowerCase_of_ascii
    intro c hc
    rw [List.mem_singleton.mp hc]
    decide

/-- A text that does not begin with a space does not come to begin with one. -/
theorem isSpace_head {rest : List Char} {c : Char} (h : lc.lowerFrom before (c :: s) = d :: rest)
    (hc : isSpace c = false) : isSpace d = false := by
  rw [lowerFrom_cons] at h
  have hmem : d ∈ lc.lower before c s := by
    cases hpiece : lc.lower before c s with
    | nil => exact absurd hpiece (lc.ne_nil _ _ _)
    | cons x xs =>
      rw [hpiece, List.cons_append, List.cons.injEq] at h
      rw [h.1]
      exact List.mem_cons_self
  by_cases hascii : IsAscii c
  · rw [lc.ascii _ _ _ hascii, List.mem_singleton] at hmem
    rw [hmem, isSpace_toLower, hc]
  · by_cases hsame : d = c
    · rw [hsame, hc]
    · exact (lc.plain _ _ _ hascii d hmem hsame).2.2

theorem eq_or_differs {u : List Char} (h : foldCase (lc.lowerFrom before s) = foldCase u) :
    foldCase s = foldCase u ∨ ∃ p x s' q y u', s = p ++ x :: s' ∧ u = q ++ y :: u' ∧
      foldCase p = foldCase q ∧ y.toLower ≠ x.toLower ∧ ¬ IsAscii x := by
  induction s generalizing before u with
  | nil => exact .inl h
  | cons c s ih =>
    cases hpiece : lc.lower before c s with
    | nil => exact absurd hpiece (lc.ne_nil _ _ _)
    | cons d piece =>
      rw [lowerFrom_cons, hpiece] at h
      cases u with
      | nil => simp [foldCase] at h
      | cons y u =>
        obtain ⟨hhead, htail⟩ : d.toLower = y.toLower ∧
            foldCase (piece ++ lc.lowerFrom (c :: before) s) = foldCase u := by
          simpa [foldCase] using h
        by_cases hsame : y.toLower = c.toLower
        · have hnil : piece = [] := by
            by_cases hascii : IsAscii c
            · rw [lc.ascii _ _ _ hascii] at hpiece
              exact (List.cons.inj hpiece).2.symm
            · have hd : d = c := by
                rw [toLower_of_not_ascii hascii] at hsame
                by_contra hne
                by_cases hdascii : IsAscii d
                · have := isAscii_toLower hdascii
                  rw [hhead, hsame] at this
                  exact hascii this
                · rw [toLower_of_not_ascii hdascii] at hhead
                  exact hne (hhead.trans hsame)
              exact lc.kept _ _ _ _ hascii (by rw [hpiece, hd])
          rw [hnil, List.nil_append] at htail
          rcases ih htail with heq | ⟨p, x, s', q, z, u', rfl, rfl, hpq, hdiffer, hx⟩
          · left
            simp only [foldCase, List.map_cons] at heq ⊢
            rw [hsame, heq]
          · refine .inr ⟨c :: p, x, s', y :: q, z, u', rfl, rfl, ?_, hdiffer, hx⟩
            simp only [foldCase, List.map_cons] at hpq ⊢
            rw [hsame, hpq]
        · refine .inr ⟨[], c, s, [], y, u, rfl, rfl, rfl, hsame, ?_⟩
          intro hascii
          rw [lc.ascii _ _ _ hascii] at hpiece
          obtain ⟨rfl, -⟩ := List.cons.inj hpiece
          rw [toLower_toLower] at hhead
          exact hsame hhead.symm

/-- A lower-cased text that is a proper beginning of another, or begins with it, but for case, is
equal to it but for case. -/
theorem foldCase_eq_of_append {u v w : List Char}
    (h : foldCase (lc.lowerFrom before s) = foldCase u) (hsv : foldCase s ++ v = foldCase u ++ w) :
    foldCase s = foldCase u := by
  rcases lc.eq_or_differs h with heq | ⟨p, x, s', q, y, u', rfl, rfl, hpq, hdiffer, -⟩
  · exact heq
  · have hlength : (foldCase p).length = (foldCase q).length := by rw [hpq]
    simp only [foldCase_append, List.append_assoc] at hsv
    have htail := (List.append_inj hsv hlength).2
    have hhead : x.toLower = y.toLower := by
      have hcons : x.toLower :: _ = y.toLower :: _ := htail
      exact (List.cons.inj hcons).1
    exact absurd hhead.symm hdiffer

end Lowering

def asciiLowering : Lowering where
  lower _ c _ := [c.toLower]
  ascii _ _ _ _ := rfl
  ne_nil _ _ _ := List.cons_ne_nil _ _
  kept _ c _ rest _ h := (List.cons.inj h).2.symm
  plain _ c _ hc d hd hne := by
    rw [toLower_of_not_ascii hc, List.mem_singleton] at hd
    exact absurd hd hne
  beforeDot _ _ _ := rfl

end Insula.Lowercase
