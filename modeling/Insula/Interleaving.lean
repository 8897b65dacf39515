import Mathlib.Data.List.Basic

/-!
# Branches that run beside each other

Each branch takes its steps in its own order; a schedule puts the steps of all of them in one. What
a branch does to its own part of a shared state does not depend on the schedule, as long as the
others leave that part alone.
-/

namespace Insula.Interleaving

variable {ι α σ τ : Type*} [DecidableEq ι]

def stepsOf (i : ι) (schedule : List (ι × α)) : List α :=
  (schedule.filter fun p => p.1 = i).map Prod.snd

def Interleaves (traces : ι → List α) (schedule : List (ι × α)) : Prop :=
  ∀ i, stepsOf i schedule = traces i

theorem mem_schedule_iff {traces : ι → List α} {schedule : List (ι × α)}
    (h : Interleaves traces schedule) {i : ι} {a : α} : (i, a) ∈ schedule ↔ a ∈ traces i := by
  rw [← h i]
  simp [stepsOf]

/-- A part of the state that only the steps of its branch change, and change by themselves, comes
out as if the branch had run alone. -/
theorem view_foldl (apply : σ → ι × α → σ) (view : ι → σ → τ) (act : τ → α → τ)
    (own : ∀ s i a, view i (apply s (i, a)) = act (view i s) a)
    (other : ∀ s i j a, j ≠ i → view j (apply s (i, a)) = view j s)
    (schedule : List (ι × α)) (s : σ) (i : ι) :
    view i (schedule.foldl apply s) = (stepsOf i schedule).foldl act (view i s) := by
  induction schedule generalizing s with
  | nil => rfl
  | cons p schedule ih =>
    obtain ⟨j, a⟩ := p
    rw [List.foldl_cons, ih]
    by_cases hij : j = i
    · subst hij
      rw [own]
      simp [stepsOf]
    · rw [other s j i a (Ne.symm hij)]
      simp [stepsOf, hij]

end Insula.Interleaving
