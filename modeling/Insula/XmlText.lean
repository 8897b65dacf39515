import Mathlib.Data.List.Infix

/-!
# Characters and references in XML

What stands between two tags is read as text: a character stands for itself, and a reference for the
character that it names. What is read as it stands has neither references nor markup.
-/

namespace Insula.XmlText

abbrev Text := List Char

/-- A character that a document may hold, other than the carriage return, which is read as a line
end. -/
def isChar (c : Char) : Bool :=
  c = '\t' || c = '\n' || (0x20 ≤ c.toNat && c.toNat ≠ 0xfffe && c.toNat ≠ 0xffff)

def hexDigit (c : Char) : Option ℕ :=
  if c.isDigit then some (c.toNat - 48)
  else if 'a' ≤ c ∧ c ≤ 'f' then some (c.toNat - 87)
  else if 'A' ≤ c ∧ c ≤ 'F' then some (c.toNat - 55)
  else none

def hexNumber (ds : Text) : Option ℕ := ds.foldlM (fun n d => (hexDigit d).map (16 * n + ·)) 0

def charOf (n : ℕ) : Option Char :=
  if n.isValidChar ∧ isChar (Char.ofNat n) then some (Char.ofNat n) else none

/-- The character that a reference names, by what stands between `&` and `;`. -/
def reference (body : Text) : Option Char :=
  if body = "amp".toList then some '&'
  else if body = "lt".toList then some '<'
  else if body = "gt".toList then some '>'
  else if body = "quot".toList then some '"'
  else if body = "apos".toList then some '\''
  else
    match body with
    | '#' :: 'x' :: ds => if ds = [] then none else (hexNumber ds).bind charOf
    | '#' :: ds => if ds ≠ [] ∧ ds.all Char.isDigit then charOf (Nat.ofDigitChars 10 ds 0) else none
    | _ => none

def cdataEnd : Text := "]]>".toList

/-- Reading with the part of a reference that has been read. `none` where more stands there than
characters and references. -/
def readFrom : Option Text → Text → Option Text
  | none, [] => some []
  | some _, [] => none
  | none, c :: rest =>
    if c = '&' then readFrom (some []) rest
    else if c = '<' ∨ ! isChar c ∨ cdataEnd <+: c :: rest then none
    else (readFrom none rest).map (c :: ·)
  | some body, c :: rest =>
    if c = ';' then (reference body).bind fun d => (readFrom none rest).map (d :: ·)
    else readFrom (some (body ++ [c])) rest

def read (s : Text) : Option Text := readFrom none s

def Verbatim : Text → Prop
  | [] => True
  | c :: rest => c ≠ '&' ∧ c ≠ '<' ∧ isChar c = true ∧ ¬ cdataEnd <+: c :: rest ∧ Verbatim rest

def mark (c : Char) : Bool := c = '&' || c = ';'

/-- A character that stands for itself wherever it stands. -/
def plain (c : Char) : Bool := isChar c && c ≠ '&' && c ≠ '<' && c ∉ cdataEnd

theorem verbatim_of_plain {s : Text} (h : ∀ c ∈ s, plain c = true) : Verbatim s := by
  induction s with
  | nil => trivial
  | cons c rest ih =>
    have hc := h c List.mem_cons_self
    simp only [plain, Bool.and_eq_true, decide_eq_true_eq] at hc
    obtain ⟨⟨⟨hchar, hamp⟩, hlt⟩, hend⟩ := hc
    refine ⟨hamp, hlt, hchar, fun hprefix => ?_, ih fun d hd => h d (List.mem_cons_of_mem _ hd)⟩
    have hhead : ']' = c := (List.cons_prefix_cons.mp hprefix).1
    exact hend (hhead ▸ List.mem_cons_self)

theorem read_of_verbatim {s : Text} (h : Verbatim s) : read s = some s := by
  unfold read
  induction s with
  | nil => rfl
  | cons c rest ih =>
    obtain ⟨hamp, hlt, hchar, hend, hrest⟩ := h
    rw [readFrom, if_neg hamp, if_neg (by simp [hlt, hchar, hend]), ih hrest]
    rfl

/-- Reading keeps a text of characters alone, and takes marks from any other. -/
theorem readFrom_spec {s u : Text} :
    (readFrom none s = some u → (Verbatim s ∧ u = s) ∨ u.countP mark < s.countP mark) ∧
      ∀ body, readFrom (some body) s = some u → u.countP mark ≤ s.countP mark := by
  induction s generalizing u with
  | nil =>
    refine ⟨fun h => ?_, fun body h => by cases h⟩
    obtain rfl := Option.some.inj h
    exact .inl ⟨trivial, rfl⟩
  | cons c rest ih =>
    constructor
    · intro h
      rw [readFrom] at h
      split_ifs at h with hamp hbad
      · have hle := (ih (u := u)).2 [] h
        right
        rw [List.countP_cons_of_pos (by simp [mark, hamp])]
        omega
      · obtain ⟨v, hv, rfl⟩ := Option.map_eq_some_iff.mp h
        rcases (ih (u := v)).1 hv with ⟨hverbatim, rfl⟩ | hlt
        · left
          simp only [not_or, Bool.not_eq_true', Bool.not_eq_false] at hbad
          exact ⟨⟨hamp, hbad.1, hbad.2.1, hbad.2.2, hverbatim⟩, rfl⟩
        · right
          simp only [List.countP_cons]
          omega
    · intro body h
      rw [readFrom] at h
      split_ifs at h with hend
      · obtain ⟨d, -, h⟩ := Option.bind_eq_some_iff.mp h
        obtain ⟨v, hv, rfl⟩ := Option.map_eq_some_iff.mp h
        have hle : v.countP mark ≤ rest.countP mark := by
          rcases (ih (u := v)).1 hv with ⟨-, rfl⟩ | hlt
          · exact le_rfl
          · exact hlt.le
        have hmark : mark c = true := by simp [mark, hend]
        have hone : (if mark d = true then 1 else 0) ≤ 1 := by split_ifs <;> omega
        rw [List.countP_cons, List.countP_cons, if_pos hmark]
        omega
      · have hle := (ih (u := u)).2 _ h
        exact hle.trans (by rw [List.countP_cons]; omega)

theorem read_spec {s u : Text} (h : read s = some u) :
    (Verbatim s ∧ u = s) ∨ u.countP mark < s.countP mark := readFrom_spec.1 h

theorem verbatim_append {s t : Text} (ht : ∀ c ∈ t, plain c = true) :
    Verbatim (s ++ t) ↔ Verbatim s := by
  induction s with
  | nil => exact iff_of_true (verbatim_of_plain ht) trivial
  | cons c s ih =>
    have hend : cdataEnd <+: c :: (s ++ t) ↔ cdataEnd <+: c :: s := by
      refine ⟨fun h => ?_, fun h => h.trans ⟨t, rfl⟩⟩
      rcases List.prefix_or_prefix_of_prefix h (⟨t, rfl⟩ : c :: s <+: c :: (s ++ t)) with h | ⟨w, hw⟩
      · exact h
      rw [← hw, ← List.cons_append, List.prefix_append_right_inj] at h
      cases w with
      | nil => exact ⟨[], by rw [← hw, List.append_nil, List.append_nil]⟩
      | cons d w =>
        have hmem : d ∈ cdataEnd := hw ▸ List.mem_append_right _ List.mem_cons_self
        have hd := ht d (h.subset List.mem_cons_self)
        simp [plain, hmem] at hd
    rw [List.cons_append, Verbatim, Verbatim, hend, ih]

end Insula.XmlText
