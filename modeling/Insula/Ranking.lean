import Mathlib.Data.List.Nodup
import Mathlib.Data.List.Perm.Subperm

/-!
# Ranked lists

A list in the order of a strict relation ranks its members: the rank of one is the number of those
that come before it. Two rankings of the same members agree as soon as, for every count, what one
drops after its first `n` the other drops too. A sort by an order in which members may tie is any
function that gives an ordered rearrangement.
-/

namespace Insula.Ranking

variable {α : Type*}

/-- The place of a member is the number of members before it. -/
theorem countP_eq_of_getElem? {before : α → α → Bool} (hirrefl : ∀ a, before a a = false)
    (hasymm : ∀ a b, before a b = true → before b a = false) {l : List α}
    (hl : l.Pairwise fun a b => before a b = true) {i : ℕ} {a : α} (hi : l[i]? = some a) :
    l.countP (before · a) = i := by
  induction l generalizing i with
  | nil => cases hi
  | cons b rest ih =>
    obtain ⟨hb, hrest⟩ := List.pairwise_cons.mp hl
    cases i with
    | zero =>
      obtain rfl : b = a := Option.some.inj hi
      have hnone : rest.countP (before · b) = 0 := by
        refine List.countP_eq_zero.mpr fun c hc => ?_
        rw [hasymm b c (hb c hc)]
        exact Bool.false_ne_true
      rw [List.countP_cons_of_neg (by simp [hirrefl]), hnone]
    | succ i =>
      rw [List.getElem?_cons_succ] at hi
      have hbefore := hb a (List.mem_of_getElem? hi)
      rw [List.countP_cons_of_pos (p := (before · a)) hbefore, ih hrest hi]

/-- A member comes after the first `n` when at least `n` members are before it. -/
theorem mem_drop_iff {before : α → α → Bool} (hirrefl : ∀ a, before a a = false)
    (hasymm : ∀ a b, before a b = true → before b a = false) {l : List α}
    (hl : l.Pairwise fun a b => before a b = true) {n : ℕ} {a : α} :
    a ∈ l.drop n ↔ a ∈ l ∧ n ≤ l.countP (before · a) := by
  constructor
  · intro ha
    obtain ⟨i, hi⟩ := List.mem_iff_getElem?.mp ha
    rw [List.getElem?_drop] at hi
    refine ⟨List.mem_of_getElem? hi, ?_⟩
    rw [countP_eq_of_getElem? hirrefl hasymm hl hi]
    exact Nat.le_add_right n i
  · rintro ⟨ha, hle⟩
    obtain ⟨i, hi⟩ := List.mem_iff_getElem?.mp ha
    rw [countP_eq_of_getElem? hirrefl hasymm hl hi] at hle
    refine List.mem_iff_getElem?.mpr ⟨i - n, ?_⟩
    rw [List.getElem?_drop, Nat.add_sub_cancel' hle]
    exact hi

/-- Rankings of the same members, where one always drops what the other drops. -/
theorem eq_of_drop_subset {l₁ l₂ : List α} (hnodup : l₁.Nodup) (hlength : l₂.length = l₁.length)
    (hdrop : ∀ n, l₁.drop n ⊆ l₂.drop n) : l₁ = l₂ := by
  induction l₁ generalizing l₂ with
  | nil => exact (List.length_eq_zero_iff.mp hlength).symm
  | cons a rest₁ ih =>
    cases l₂ with
    | nil => cases hlength
    | cons b rest₂ =>
      obtain ⟨ha, hrest⟩ := List.nodup_cons.mp hnodup
      have hlen : rest₂.length = rest₁.length := Nat.succ.inj hlength
      have hsubset : rest₁ ⊆ rest₂ := hdrop 1
      have hperm : rest₁.Perm rest₂ :=
        (hrest.subperm hsubset).perm_of_length_le (Nat.le_of_eq hlen)
      have hhead : a = b := by
        rcases List.mem_cons.mp (hdrop 0 List.mem_cons_self) with h | h
        · exact h
        · exact absurd (hperm.mem_iff.mpr h) ha
      rw [hhead, ih hrest hlen fun n => hdrop (n + 1)]

/-! ## Sorts -/

section Sorts

structure Weak (before : α → α → Bool) : Prop where
  asymm : ∀ {a b}, before a b = true → before b a = false
  neg_trans : ∀ {a b c}, before b a = false → before c b = false → before c a = false

variable {before : α → α → Bool}

theorem Weak.irrefl (h : Weak before) (a : α) : before a a = false := by
  cases haa : before a a with
  | false => rfl
  | true => exact haa.symm.trans (h.asymm haa)

theorem Weak.trans (h : Weak before) {a b c : α} (hab : before a b = true)
    (hbc : before b c = true) : before a c = true := by
  cases hac : before a c with
  | true => rfl
  | false =>
    have := h.neg_trans (h.asymm hbc) hac
    rw [hab] at this
    cases this

structure Sorter (before : α → α → Bool) where
  sort : List α → List α
  perm : ∀ l, (sort l).Perm l
  ordered : ∀ l, (sort l).Pairwise fun a b => before b a = false

theorem Weak.mergeSort_ordered (h : Weak before) (l : List α) :
    (l.mergeSort fun a b => ! before b a).Pairwise fun a b => before b a = false := by
  have hsorted := @List.pairwise_mergeSort _ (fun a b => ! before b a) ?_ ?_ l
  · exact hsorted.imp fun hab => Bool.not_eq_true' _ ▸ hab
  · intro a b c hab hbc
    simp only [Bool.not_eq_true'] at hab hbc ⊢
    exact h.neg_trans hab hbc
  · intro a b
    cases hab : before b a with
    | false => rfl
    | true => simp [h.asymm hab]

def Weak.stable (h : Weak before) : Sorter before where
  sort l := l.mergeSort fun a b => ! before b a
  perm l := List.mergeSort_perm l _
  ordered := h.mergeSort_ordered

/-- What comes first in a sorted list has few members before it. -/
theorem countP_lt_of_mem_take {l : List α} (hl : l.Pairwise fun a b => before b a = false)
    (hirrefl : ∀ a, before a a = false) {n : ℕ} {a : α} (ha : a ∈ l.take n) :
    l.countP (before · a) < n := by
  induction l generalizing n with
  | nil => simp at ha
  | cons b rest ih =>
    obtain ⟨hb, hrest⟩ := List.pairwise_cons.mp hl
    cases n with
    | zero => cases ha
    | succ n =>
      rcases List.mem_cons.mp ha with rfl | ha
      · have hnone : (a :: rest).countP (before · a) = 0 := by
          refine List.countP_eq_zero.mpr fun c hc => ?_
          rcases List.mem_cons.mp hc with rfl | hc
          · simp [hirrefl]
          · simp [hb c hc]
        omega
      · have hle : (b :: rest).countP (before · a) ≤ rest.countP (before · a) + 1 := by
          rw [List.countP_cons]
          split
          all_goals omega
        have := ih hrest ha
        omega

section First

variable [DecidableEq α] (h : Weak before) (a : α)

def Weak.around (l : List α) : List α :=
  h.stable.sort ((l.erase a).filter (before · a)) ++
    a :: h.stable.sort ((l.erase a).filter fun b => ! before b a)

theorem Weak.around_perm {l : List α} (ha : a ∈ l) : (h.around a l).Perm l := by
  have hparts : (((l.erase a).filter (before · a)) ++
      ((l.erase a).filter fun b => ! before b a)).Perm (l.erase a) := List.filter_append_perm _ _
  have hsorted := (h.stable.perm ((l.erase a).filter (before · a))).append
    (h.stable.perm ((l.erase a).filter fun b => ! before b a))
  exact List.perm_middle.trans (((hsorted.trans hparts).cons a).trans (List.perm_cons_erase ha).symm)

theorem Weak.around_ordered (l : List α) :
    (h.around a l).Pairwise fun a b => before b a = false := by
  refine List.pairwise_append.mpr ⟨h.stable.ordered _, ?_, ?_⟩
  · refine List.pairwise_cons.mpr ⟨?_, h.stable.ordered _⟩
    intro b hb
    simpa using (List.mem_filter.mp ((h.stable.perm _).mem_iff.mp hb)).2
  · intro b hb c hc
    have hba : before b a = true := (List.mem_filter.mp ((h.stable.perm _).mem_iff.mp hb)).2
    rcases List.mem_cons.mp hc with rfl | hc
    · exact h.asymm hba
    · have hca := (List.mem_filter.mp ((h.stable.perm _).mem_iff.mp hc)).2
      rw [Bool.not_eq_true'] at hca
      cases hcb : before c b with
      | false => rfl
      | true =>
        rw [h.trans hcb hba] at hca
        cases hca

theorem Weak.mem_take_around {l : List α} {n : ℕ} (hn : l.countP (before · a) < n) :
    a ∈ (h.around a l).take n := by
  have hlength : (h.stable.sort ((l.erase a).filter (before · a))).length < n := by
    rw [(h.stable.perm _).length_eq, ← List.countP_eq_length_filter]
    exact Nat.lt_of_le_of_lt (List.erase_sublist.countP_le) hn
  refine List.mem_iff_getElem?.mpr
    ⟨(h.stable.sort ((l.erase a).filter (before · a))).length, ?_⟩
  rw [List.getElem?_take_of_lt hlength]
  unfold Weak.around
  rw [List.getElem?_append_right (Nat.le_refl _), Nat.sub_self]
  rfl

theorem Weak.first_perm (l : List α) :
    (if a ∈ l then h.around a l else h.stable.sort l).Perm l := by
  split
  · exact h.around_perm a ‹_›
  · exact h.stable.perm l

theorem Weak.first_ordered (l : List α) :
    (if a ∈ l then h.around a l else h.stable.sort l).Pairwise fun a b => before b a = false := by
  split
  · exact h.around_ordered a l
  · exact h.stable.ordered l

def Weak.first : Sorter before where
  sort l := if a ∈ l then h.around a l else h.stable.sort l
  perm := h.first_perm a
  ordered := h.first_ordered a

end First

/-- Some sort puts a member among the first `n` just when fewer than `n` come before it. -/
theorem exists_mem_take_sort_iff [DecidableEq α] (h : Weak before) {l : List α} {n : ℕ} {a : α} :
    (∃ s : Sorter before, a ∈ (s.sort l).take n) ↔ a ∈ l ∧ l.countP (before · a) < n := by
  constructor
  · rintro ⟨s, ha⟩
    refine ⟨(s.perm l).mem_iff.mp (List.mem_of_mem_take ha), ?_⟩
    rw [← (s.perm l).countP_eq]
    exact countP_lt_of_mem_take (s.ordered l) h.irrefl ha
  · rintro ⟨ha, hn⟩
    refine ⟨h.first a, ?_⟩
    change a ∈ (if a ∈ l then h.around a l else h.stable.sort l).take n
    rw [if_pos ha]
    exact h.mem_take_around a hn

end Sorts

end Insula.Ranking
