import Mathlib.Data.List.Sort

/-!
# Filters of sorted lists

A stable sort commutes with a filter, a sorted list is split by a condition that goes down along the
order, and a list that is taken up in rounds holds what the first fitting round takes.
-/

namespace Insula.StableSort

variable {α : Type*} {r : α → α → Prop} {l : List α}

section Stable

variable [DecidableRel r]

theorem orderedInsert_of_forall {a : α} {l : List α} (h : ∀ b ∈ l, r a b) :
    l.orderedInsert r a = a :: l := by
  cases l with
  | nil => rfl
  | cons b l => exact if_pos (h b List.mem_cons_self)

theorem filter_orderedInsert [IsTrans α r] (p : α → Bool) (a : α) {l : List α} (hl : l.Pairwise r) :
    (l.orderedInsert r a).filter p =
      if p a then (l.filter p).orderedInsert r a else l.filter p := by
  induction l with
  | nil => cases h : p a <;> simp [h]
  | cons b l ih =>
    have hb : ∀ x ∈ l, r b x := fun x hx => List.rel_of_pairwise_cons hl hx
    by_cases hab : r a b
    · have hall : ∀ x ∈ (b :: l).filter p, r a x := by
        intro x hx
        rcases List.mem_cons.mp (List.mem_of_mem_filter hx) with rfl | hx
        · exact hab
        · exact IsTrans.trans a b x hab (hb x hx)
      rw [orderedInsert_of_forall hall, List.orderedInsert, if_pos hab]
      cases h : p a <;> simp [List.filter_cons, h]
    · rw [List.orderedInsert, if_neg hab, List.filter_cons, List.filter_cons, ih hl.of_cons]
      cases h : p b <;> cases h' : p a <;> simp [hab]

theorem filter_insertionSort [IsTrans α r] [Std.Total r] (p : α → Bool) (l : List α) :
    (l.insertionSort r).filter p = (l.filter p).insertionSort r := by
  induction l with
  | nil => rfl
  | cons a l ih =>
    rw [List.insertionSort_cons, filter_orderedInsert p a (List.pairwise_insertionSort r l), ih,
      List.filter_cons]
    cases h : p a <;> simp

end Stable

/-- The members of a sorted list with a property that goes down come first. -/
theorem filter_append_filter_not {p : α → Bool} (hl : l.Pairwise r)
    (hdown : ∀ a b, r a b → p b = true → p a = true) : l.filter p ++ l.filter (! p ·) = l := by
  induction l with
  | nil => rfl
  | cons a l ih =>
    cases ha : p a with
    | true =>
      simp only [List.filter_cons, ha, Bool.not_true, Bool.false_eq_true, ↓reduceIte, List.cons_append]
      rw [ih hl.of_cons]
    | false =>
      have hnone : l.filter p = [] := by
        rw [List.filter_eq_nil_iff]
        intro b hb hpb
        rw [hdown a b (List.rel_of_pairwise_cons hl hb) hpb] at ha
        cases ha
      have hrest := ih hl.of_cons
      rw [hnone, List.nil_append] at hrest
      simp [ha, hnone, hrest]

/-! ## Rounds -/

def collect : List (α → Bool) → List α → List α
  | [], _ => []
  | q :: qs, l => l.filter q ++ collect qs (l.filter (! q ·))

theorem mem_of_mem_collect {qs : List (α → Bool)} {a : α} (h : a ∈ collect qs l) : a ∈ l := by
  induction qs generalizing l with
  | nil => exact absurd h List.not_mem_nil
  | cons q qs ih =>
    rcases List.mem_append.mp h with h | h
    · exact List.mem_of_mem_filter h
    · exact List.mem_of_mem_filter (ih h)

theorem collect_eq_nil {qs : List (α → Bool)} :
    collect qs l = [] ↔ ∀ q ∈ qs, ∀ a ∈ l, q a = false := by
  induction qs generalizing l with
  | nil => simp [collect]
  | cons q qs ih =>
    rw [collect, List.append_eq_nil_iff, ih, List.forall_mem_cons, List.filter_eq_nil_iff]
    simp only [Bool.not_eq_true]
    refine and_congr_right fun hq => ?_
    have hall : l.filter (! q ·) = l :=
      List.filter_eq_self.mpr fun a ha => by rw [hq a ha]; rfl
    rw [hall]

/-- A round that repeats the last takes nothing. -/
theorem collect_repeat (q : α → Bool) (qs : List (α → Bool)) (l : List α) :
    collect (q :: q :: qs) l = collect (q :: qs) l := by
  have hnone : (l.filter (! q ·)).filter q = [] := by
    rw [List.filter_filter, List.filter_eq_nil_iff]
    intro a _
    cases q a <;> simp
  have hsame : (l.filter (! q ·)).filter (! q ·) = l.filter (! q ·) := by
    rw [List.filter_filter]
    simp
  simp only [collect, hnone, hsame, List.nil_append]

theorem collect_replicate (q : α → Bool) (n : ℕ) (qs : List (α → Bool)) (l : List α) :
    collect (List.replicate (n + 1) q ++ qs) l = collect (q :: qs) l := by
  induction n with
  | zero => rfl
  | succ n ih =>
    rw [← ih, List.replicate_succ, List.replicate_succ, List.cons_append, List.cons_append,
      collect_repeat]

/-- Two members that two divisions of one list put in opposite order. -/
theorem append_ne_append {a b : α} {l₁ l₂ d₁ d₂ : List α} (ha : a ∈ l₁) (had : a ∉ d₁) (hb : b ∈ d₁)
    (hbl : b ∉ l₁) : l₁ ++ l₂ ≠ d₁ ++ d₂ := by
  intro h
  rcases List.append_eq_append_iff.mp h with ⟨c, rfl, -⟩ | ⟨c, rfl, -⟩
  · exact had (List.mem_append_left _ ha)
  · exact hbl (List.mem_append_left _ hb)

end Insula.StableSort
