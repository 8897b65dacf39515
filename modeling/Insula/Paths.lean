import Mathlib.Data.List.Basic

/-!
# Lexical paths

A rooted path read component by component: empty components and `.` stand still, `..` leaves the
last directory, and at the root it stands still. A path is normal when it is written back from what
was read.
-/

namespace Insula.Paths

abbrev Text := List Char

-- A property of all members is decided along the list, not over all characters.
scoped instance (priority := high) decidableAll {α : Type} (p : α → Prop) [DecidablePred p]
    (l : List α) : Decidable (∀ x ∈ l, p x) := List.decidableBAll p l

scoped instance (priority := high) decidableExists {α : Type} (p : α → Prop) [DecidablePred p]
    (l : List α) : Decidable (∃ x ∈ l, p x) := List.decidableBEx p l

def enter (dirs : List Text) (part : Text) : List Text :=
  if part = [] ∨ part = ['.'] then dirs
  else if part = ['.', '.'] then dirs.dropLast
  else dirs ++ [part]

def parts (path : Text) : List Text := (path.splitOn '/').foldl enter []

def render (dirs : List Text) : Text := '/' :: ['/'].intercalate dirs

def clean (path : Text) : Text := render (parts path)

structure Plain (part : Text) : Prop where
  nonempty : part ≠ []
  dot : part ≠ ['.']
  dots : part ≠ ['.', '.']
  slash : '/' ∉ part

def Rooted (path : Text) : Prop := path.head? = some '/'

instance (path : Text) : Decidable (Rooted path) := inferInstanceAs (Decidable (_ = _))

def AtOrBelow (root path : Text) : Prop := Rooted path ∧ parts root <+: parts path

instance (root path : Text) : Decidable (AtOrBelow root path) := inferInstanceAs (Decidable (_ ∧ _))

/-! ## Components -/

theorem notMem_of_mem_splitOn {c : Char} (text : Text) : ∀ part ∈ text.splitOn c, c ∉ part := by
  induction text with
  | nil =>
    intro part hpart
    rw [List.splitOn_nil, List.mem_singleton] at hpart
    subst hpart
    exact List.not_mem_nil
  | cons d text ih =>
    intro part hpart
    rw [List.splitOn_cons_eq_if_modifyHead] at hpart
    by_cases hd : (d == c) = true
    · rw [if_pos hd] at hpart
      rcases List.mem_cons.mp hpart with rfl | hpart
      · exact List.not_mem_nil
      · exact ih part hpart
    · rw [if_neg hd] at hpart
      obtain ⟨head, tail, hsplit⟩ := List.exists_cons_of_ne_nil (List.splitOn_ne_nil c text)
      rw [hsplit] at hpart ih
      rw [List.modifyHead_cons] at hpart
      rcases List.mem_cons.mp hpart with rfl | hpart
      · have hhead := ih head List.mem_cons_self
        have hne : c ≠ d := fun h => hd (beq_iff_eq.mpr h.symm)
        exact fun hmem => (List.mem_cons.mp hmem).elim hne hhead
      · exact ih part (List.mem_cons_of_mem _ hpart)

theorem enter_of_plain {part : Text} (h : Plain part) (dirs : List Text) :
    enter dirs part = dirs ++ [part] := by
  have hstay : ¬(part = [] ∨ part = ['.']) := by simp [h.nonempty, h.dot]
  rw [enter, if_neg hstay, if_neg h.dots]

theorem foldl_enter_plain {names : List Text} (h : ∀ part ∈ names, Plain part) (dirs : List Text) :
    names.foldl enter dirs = dirs ++ names := by
  induction names generalizing dirs with
  | nil => simp
  | cons part names ih =>
    have hpart := h part List.mem_cons_self
    rw [List.foldl_cons, enter_of_plain hpart,
      ih (fun p hp => h p (List.mem_cons_of_mem _ hp)), List.append_assoc]
    rfl

/-- What was read is names, when each component is free of the separator. -/
theorem plain_foldl_enter {text dirs : List Text} (htext : ∀ part ∈ text, '/' ∉ part)
    (hdirs : ∀ part ∈ dirs, Plain part) : ∀ part ∈ text.foldl enter dirs, Plain part := by
  induction text generalizing dirs with
  | nil => exact hdirs
  | cons p text ih =>
    apply ih (fun q hq => htext q (List.mem_cons_of_mem _ hq))
    intro q hq
    unfold enter at hq
    split at hq
    · exact hdirs q hq
    · next hstay =>
      split at hq
      · exact hdirs q (List.dropLast_subset _ hq)
      · next hdots =>
        rcases List.mem_append.mp hq with hq | hq
        · exact hdirs q hq
        · cases List.mem_singleton.mp hq
          exact ⟨fun h => hstay (.inl h), fun h => hstay (.inr h), hdots,
            htext p List.mem_cons_self⟩

theorem plain_of_mem_parts (path : Text) : ∀ part ∈ parts path, Plain part :=
  plain_foldl_enter (notMem_of_mem_splitOn path) (by simp)

/-! ## Normal paths -/

theorem splitOn_cons_slash (path : Text) : ('/' :: path).splitOn '/' = [] :: path.splitOn '/' := by
  have hsplit := List.splitOn_append_cons_self (a := '/') [] path
  rwa [List.nil_append, List.splitOn_nil] at hsplit

theorem parts_cons_slash (path : Text) : parts ('/' :: path) = parts path := by
  simp [parts, splitOn_cons_slash, enter]

theorem parts_append_slash (path rest : Text) :
    parts (path ++ '/' :: rest) = (rest.splitOn '/').foldl enter (parts path) := by
  rw [parts, List.splitOn_append_cons_self, List.foldl_append, parts]

theorem parts_append_slash_nil (path : Text) : parts (path ++ ['/']) = parts path := by
  rw [parts_append_slash, List.splitOn_nil]
  simp [enter]

theorem parts_render {dirs : List Text} (h : ∀ part ∈ dirs, Plain part) :
    parts (render dirs) = dirs := by
  rw [render, parts_cons_slash]
  by_cases hnil : dirs = []
  · subst hnil
    rfl
  · rw [parts, List.splitOn_intercalate '/' (fun part hpart => (h part hpart).slash) hnil,
      foldl_enter_plain h, List.nil_append]

theorem splitOn_render {dirs : List Text} (h : ∀ part ∈ dirs, Plain part) (hne : dirs ≠ []) :
    (render dirs).splitOn '/' = [] :: dirs := by
  rw [render, splitOn_cons_slash,
    List.splitOn_intercalate '/' (fun part hpart => (h part hpart).slash) hne]

theorem render_append {above below : List Text} (habove : above ≠ []) (hbelow : below ≠ []) :
    render (above ++ below) = render above ++ render below := by
  induction above with
  | nil => exact absurd rfl habove
  | cons name above ih =>
    cases above with
    | nil =>
      obtain ⟨first, rest, rfl⟩ := List.exists_cons_of_ne_nil hbelow
      simp [render, List.intercalate_cons_cons]
    | cons next above =>
      have hrest := ih (by simp)
      simp only [render, List.cons_append, List.cons.injEq, true_and] at hrest
      simp only [render, List.cons_append, List.intercalate_cons_cons, hrest, List.append_assoc,
        List.nil_append]

/-- A relative path is a name or goes on behind it when that is its first component. -/
theorem head_splitOn_iff (path : Text) {name : Text} (h : '/' ∉ name) :
    path = name ∨ (name ++ ['/']) <+: path ↔ (path.splitOn '/').head? = some name := by
  constructor
  · rintro (rfl | ⟨rest, rfl⟩)
    · rw [List.splitOn_eq_singleton h]
      rfl
    · rw [List.append_assoc, List.singleton_append, List.splitOn_append_cons_self,
        List.splitOn_eq_singleton h]
      rfl
  · intro hhead
    have hjoin : ['/'].intercalate (path.splitOn '/') = path := List.intercalate_splitOn '/'
    obtain ⟨first, rest, hsplit⟩ := List.exists_cons_of_ne_nil (List.splitOn_ne_nil '/' path)
    rw [hsplit] at hhead hjoin
    cases hhead
    cases rest with
    | nil =>
      left
      rw [← hjoin]
      simp
    | cons next rest =>
      right
      refine ⟨['/'].intercalate (next :: rest), ?_⟩
      rw [← hjoin, List.intercalate_cons_cons]

@[simp] theorem parts_clean (path : Text) : parts (clean path) = parts path :=
  parts_render (plain_of_mem_parts path)

theorem rooted_clean (path : Text) : Rooted (clean path) := rfl

theorem parts_append_clean (path rest : Text) :
    parts (path ++ clean rest) = parts path ++ parts rest := by
  rw [clean, render, parts_append_slash]
  by_cases hnil : parts rest = []
  · rw [hnil]
    simp [enter]
  · rw [List.splitOn_intercalate '/' (fun part hpart => (plain_of_mem_parts rest part hpart).slash)
      hnil, foldl_enter_plain (plain_of_mem_parts rest)]

theorem AtOrBelow.refl {root : Text} (h : Rooted root) : AtOrBelow root root :=
  ⟨h, List.prefix_refl _⟩

theorem AtOrBelow.slash {root path : Text} (h : AtOrBelow root path) :
    AtOrBelow root (path ++ ['/']) := by
  constructor
  · have hrooted := h.1
    unfold Rooted at hrooted ⊢
    rw [List.head?_append, hrooted]
    rfl
  · rw [parts_append_slash_nil]
    exact h.2

end Insula.Paths
