import Mathlib.Data.List.Induction
import Mathlib.Data.List.GetD

/-!
# Writing at positions

A file as a list of cells. Resizing cuts it or fills it up with zeros; a write puts its cells where
it is told to, behind a gap of zeros when the file is shorter. Operations that all put a part of one
content in its place and resize to its length only assemble the content in any order, up to the
cells that none of them writes.
-/

namespace Insula.PositionalWrites

variable {α : Type*} (zero : α) {p : ℕ}

def resize (n : ℕ) (f : List α) : List α := (f ++ List.replicate (n - f.length) zero).take n

def writeAt (f : List α) (pos : ℕ) (cells : List α) : List α :=
  if cells = [] then f else resize zero pos f ++ cells ++ f.drop (pos + cells.length)

inductive Op (α : Type*)
  | resize (n : ℕ)
  | write (pos : ℕ) (cells : List α)

def apply (f : List α) : Op α → List α
  | .resize n => resize zero n f
  | .write pos cells => writeAt zero f pos cells

def run (f : List α) (ops : List (Op α)) : List α := ops.foldl (apply zero) f

/-! ## One operation -/

@[simp] theorem length_resize (n : ℕ) (f : List α) : (resize zero n f).length = n := by
  unfold resize
  rw [List.length_take, List.length_append, List.length_replicate]
  omega

theorem getD_resize {n : ℕ} (f : List α) (h : p < n) :
    (resize zero n f).getD p zero = f.getD p zero := by
  unfold resize
  rw [List.getD_eq_getElem?_getD, List.getElem?_take_of_lt h]
  by_cases hp : p < f.length
  · rw [List.getElem?_append_left hp, List.getD_eq_getElem?_getD]
  · rw [List.getElem?_append_right (by omega), List.getD_eq_default _ _ (by omega),
      List.getElem?_replicate]
    split <;> rfl

theorem lt_length_writeAt (f : List α) (pos p : ℕ) (cells : List α) :
    p < (writeAt zero f pos cells).length ↔ p < f.length ∨ (cells ≠ [] ∧ p < pos + cells.length) := by
  unfold writeAt
  by_cases hnil : cells = []
  · simp [hnil]
  · rw [if_neg hnil, List.length_append, List.length_append, length_resize, List.length_drop]
    simp only [ne_eq, hnil, not_false_eq_true, true_and]
    omega

theorem getD_writeAt (f : List α) (pos p : ℕ) (cells : List α) :
    (writeAt zero f pos cells).getD p zero =
      if pos ≤ p ∧ p < pos + cells.length then cells.getD (p - pos) zero else f.getD p zero := by
  unfold writeAt
  by_cases hnil : cells = []
  · rw [if_pos hnil, if_neg (by rw [hnil, List.length_nil]; omega)]
  rw [if_neg hnil]
  have hlength : (resize zero pos f ++ cells).length = pos + cells.length := by
    rw [List.length_append, length_resize]
  by_cases hbefore : p < pos
  · rw [if_neg (by omega), List.append_assoc,
      List.getD_append _ _ _ _ (by rw [length_resize]; exact hbefore), getD_resize zero f hbefore]
  by_cases hin : p < pos + cells.length
  · rw [if_pos ⟨by omega, hin⟩, List.getD_append _ _ _ _ (by omega),
      List.getD_append_right _ _ _ _ (by rw [length_resize]; omega), length_resize]
  · rw [if_neg (by omega), List.getD_append_right _ _ _ _ (by omega), hlength,
      List.getD_eq_getElem?_getD, List.getElem?_drop, List.getD_eq_getElem?_getD]
    congr 2
    omega

/-! ## Parts of one content -/

def PartOf (content : List α) : Op α → Prop
  | .resize n => n = content.length
  | .write pos cells => pos + cells.length ≤ content.length ∧
      ∀ k < cells.length, cells.getD k zero = content.getD (pos + k) zero

def Covers (p : ℕ) : Op α → Prop
  | .resize _ => False
  | .write pos cells => pos ≤ p ∧ p < pos + cells.length

variable {zero} {content : List α}

theorem getD_apply {op : Op α} (hop : PartOf zero content op) (f : List α)
    (hp : p < content.length) : (apply zero f op).getD p zero = content.getD p zero ∧ Covers p op ∨
      (apply zero f op).getD p zero = f.getD p zero ∧ ¬ Covers p op := by
  cases op with
  | resize n => exact .inr ⟨getD_resize zero f (by rw [show n = _ from hop]; exact hp), id⟩
  | write pos cells =>
    rw [apply, getD_writeAt]
    by_cases hcovers : pos ≤ p ∧ p < pos + cells.length
    · have hcell := hop.2 (p - pos) (by omega)
      rw [Nat.add_sub_cancel' hcovers.1] at hcell
      exact .inl ⟨by rw [if_pos hcovers, hcell], hcovers⟩
    · exact .inr ⟨if_neg hcovers, hcovers⟩

/-- A cell of the result is that of the content where some operation wrote it, else what was
there. -/
theorem getD_run {ops : List (Op α)} (hops : ∀ op ∈ ops, PartOf zero content op) (f : List α)
    (hp : p < content.length) :
    (run zero f ops).getD p zero = content.getD p zero ∧ (∃ op ∈ ops, Covers p op) ∨
      (run zero f ops).getD p zero = f.getD p zero ∧ ∀ op ∈ ops, ¬ Covers p op := by
  induction ops using List.reverseRecOn with
  | nil => exact .inr ⟨rfl, fun _ hop => (List.not_mem_nil hop).elim⟩
  | append_singleton ops op ih =>
    have hstep := getD_apply (hops op (by simp)) (run zero f ops) hp
    have hrun : run zero f (ops ++ [op]) = apply zero (run zero f ops) op := by
      rw [run, List.foldl_append, List.foldl_cons, List.foldl_nil, run]
    rw [hrun]
    rcases hstep with ⟨heq, hcovers⟩ | ⟨heq, hnot⟩
    · exact .inl ⟨heq, op, by simp, hcovers⟩
    · rw [heq]
      rcases ih fun op' hop' => hops op'
        (List.mem_append_left _ hop') with ⟨heq', op', hop', hcovers⟩ | ⟨heq', hnone⟩
      · exact .inl ⟨heq', op', List.mem_append_left _ hop', hcovers⟩
      · refine .inr ⟨heq', fun op' hop' => ?_⟩
        rcases List.mem_append.mp hop' with hop' | hop'
        · exact hnone op' hop'
        · rw [List.mem_singleton.mp hop']
          exact hnot

/-! ## The length -/

theorem length_apply {op : Op α} (hop : PartOf zero content op) {f : List α}
    (hf : f.length = content.length) : (apply zero f op).length = content.length := by
  cases op with
  | resize n => rw [apply, length_resize, show n = _ from hop]
  | write pos cells =>
    have hend := hop.1
    have hlt := fun p => lt_length_writeAt zero f pos p cells
    rw [apply]
    apply Nat.le_antisymm
    · by_contra hover
      rcases (hlt content.length).mp (by omega) with h | ⟨-, h⟩ <;> omega
    · by_contra hunder
      exact hunder (Nat.not_lt.mp fun h => absurd ((hlt _).mpr (.inl (by omega : _ < f.length)))
        (Nat.lt_irrefl _))

theorem length_run_of_eq {ops : List (Op α)} (hops : ∀ op ∈ ops, PartOf zero content op) {f : List α}
    (hf : f.length = content.length) : (run zero f ops).length = content.length := by
  induction ops generalizing f with
  | nil => exact hf
  | cons op ops ih =>
    exact ih (fun op' hop' => hops op' (List.mem_cons_of_mem _ hop'))
      (length_apply (hops op List.mem_cons_self) hf)

theorem length_run_of_mem {ops : List (Op α)} (hops : ∀ op ∈ ops, PartOf zero content op) {n : ℕ}
    (h : .resize n ∈ ops) (f : List α) : (run zero f ops).length = content.length := by
  obtain ⟨before, after, rfl⟩ := List.append_of_mem h
  have hn : n = content.length := hops _ h
  have hafter : ∀ op ∈ after, PartOf zero content op := fun op hop =>
    hops op (List.mem_append_right _ (List.mem_cons_of_mem _ hop))
  rw [run, List.foldl_append, List.foldl_cons]
  exact length_run_of_eq hafter (by rw [apply, length_resize, hn])

/-- Without one a position is in the file when it was there before or is in front of the end of a
write. -/
theorem lt_length_run {ops : List (Op α)} (h : ∀ n, .resize n ∉ ops) (f : List α) (p : ℕ) :
    p < (run zero f ops).length ↔
      p < f.length ∨ ∃ pos cells, .write pos cells ∈ ops ∧ cells ≠ [] ∧ p < pos + cells.length := by
  induction ops using List.reverseRecOn with
  | nil => simp [run]
  | append_singleton ops op ih =>
    have hrun : run zero f (ops ++ [op]) = apply zero (run zero f ops) op := by
      rw [run, List.foldl_append, List.foldl_cons, List.foldl_nil, run]
    have ih' := ih fun n hn => h n (List.mem_append_left _ hn)
    cases op with
    | resize n => exact (h n (by simp)).elim
    | write pos cells =>
      have hmem : ∀ pos' cells', .write pos' cells' ∈ ops ++ [.write pos cells] ↔
          .write pos' cells' ∈ ops ∨ (pos' = pos ∧ cells' = cells) := by simp
      rw [hrun, apply, lt_length_writeAt, ih', or_assoc]
      refine or_congr_right ⟨?_, ?_⟩
      · rintro (⟨pos', cells', hin, hne, hp⟩ | ⟨hne, hp⟩)
        · exact ⟨pos', cells', (hmem _ _).mpr (.inl hin), hne, hp⟩
        · exact ⟨pos, cells, (hmem _ _).mpr (.inr ⟨rfl, rfl⟩), hne, hp⟩
      · rintro ⟨pos', cells', hin, hne, hp⟩
        rcases (hmem _ _).mp hin with hin | ⟨rfl, rfl⟩
        · exact .inl ⟨pos', cells', hin, hne, hp⟩
        · exact .inr ⟨hne, hp⟩

/-- The length comes out right: by a resize, or because the file was as long before, or because it
was shorter and its last cell is written. -/
theorem length_run_iff {ops : List (Op α)} (hops : ∀ op ∈ ops, PartOf zero content op) (f : List α) :
    (run zero f ops).length = content.length ↔ (∃ n, .resize n ∈ ops) ∨ f.length = content.length ∨
        (f.length < content.length ∧ ∃ op ∈ ops, Covers (content.length - 1) op) := by
  by_cases hresize : ∃ n, .resize n ∈ ops
  · obtain ⟨n, hn⟩ := hresize
    exact ⟨fun _ => .inl ⟨n, hn⟩, fun _ => length_run_of_mem hops hn f⟩
  · have hnone : ∀ n, Op.resize n ∉ ops := fun n hn => hresize ⟨n, hn⟩
    have hlt := @lt_length_run _ zero ops hnone f
    have hbound : ∀ pos cells, .write pos cells ∈ ops → pos + cells.length ≤ content.length :=
      fun pos cells hin => (hops _ hin).1
    constructor
    · intro hlength
      rcases Nat.lt_trichotomy f.length content.length with hf | hf | hf
      · have hlast := (hlt (content.length - 1)).mp (by omega)
        rcases hlast with hlast | ⟨pos, cells, hin, hne, hlast⟩
        · omega
        · have hend := hbound pos cells hin
          have hpos := List.length_pos_iff.mpr hne
          exact .inr (.inr ⟨hf, _, hin, by omega, by omega⟩)
      · exact .inr (.inl hf)
      · have hover := (hlt content.length).mpr (.inl hf)
        omega
    · intro hright
      have hle : ¬ content.length < (run zero f ops).length := by
        intro hover
        rcases (hlt _).mp hover with hf | ⟨pos, cells, hin, -, hp⟩
        · rcases hright with hn | hf' | ⟨hf', -⟩
          · exact hresize hn
          · omega
          · omega
        · have hend := hbound pos cells hin
          omega
      rcases hright with hn | hf | ⟨hf, op, hin, hcovers⟩
      · exact (hresize hn).elim
      · exact length_run_of_eq hops hf
      · cases op with
        | resize n => exact hcovers.elim
        | write pos cells =>
          have hne : cells ≠ [] := by
            intro hnil
            rw [hnil] at hcovers
            have h1 := hcovers.1
            have h2 := hcovers.2
            rw [List.length_nil] at h2
            omega
          have hlast := (hlt (content.length - 1)).mpr (.inr ⟨pos, cells, hin, hne, hcovers.2⟩)
          omega

/-- Operations on parts of one content leave exactly the content when the length comes out right and
every cell that none of them writes was there before. -/
theorem run_eq_iff {ops : List (Op α)} (hops : ∀ op ∈ ops, PartOf zero content op) (f : List α) :
    run zero f ops = content ↔ ((∃ n, .resize n ∈ ops) ∨ f.length = content.length ∨
        (f.length < content.length ∧ ∃ op ∈ ops, Covers (content.length - 1) op)) ∧
      ∀ p < content.length, (∀ op ∈ ops, ¬ Covers p op) → f.getD p zero = content.getD p zero := by
  rw [← length_run_iff hops]
  constructor
  · intro heq
    refine ⟨by rw [heq], fun p hp hnone => ?_⟩
    rcases getD_run hops f hp with ⟨-, op, hop, hcovers⟩ | ⟨hcell, -⟩
    · exact (hnone op hop hcovers).elim
    · rw [← hcell, heq]
  · rintro ⟨hlength, hcells⟩
    refine List.ext_getElem hlength fun p hp hp' => ?_
    have hcell : (run zero f ops).getD p zero = content.getD p zero := by
      rcases getD_run hops f hp' with ⟨hcell, -⟩ | ⟨hcell, hnone⟩
      · exact hcell
      · rw [hcell, hcells p hp' hnone]
    rwa [List.getD_eq_getElem _ _ hp, List.getD_eq_getElem _ _ hp'] at hcell

end Insula.PositionalWrites
