import Mathlib.Algebra.Order.Ring.Int
import Mathlib.Order.Bounds.Basic

/-!
# Clocks that are set anew

A clock runs beside a steady count and is off by less than a span. It may be set anew, forward or
back, once in any two spans. What it shows is sought among two counts, which the offsets one span to
either side give.
-/

namespace Insula

structure ResetClock (span : ℤ) where
  offset : ℤ → ℤ
  bounded : ∀ u, -span < offset u ∧ offset u < span
  calm : ∀ u v w, u ≤ v → v ≤ w → w ≤ u + 2 * span → offset v = offset u ∨ offset v = offset w

namespace ResetClock

variable {span : ℤ} (c : ResetClock span)

def shows (u : ℤ) : ℤ := u + c.offset u

def before (n : ℤ) : ℤ := n - c.offset (n - span)

def after (n : ℤ) : ℤ := n - c.offset (n + span)

def instant (n : ℤ) : ℤ :=
  if c.shows (min (c.before n) (c.after n)) = n then min (c.before n) (c.after n)
  else max (c.before n) (c.after n)

variable {c} {u n : ℤ}

theorem eq_before_or_after (h : c.shows u = n) : u = c.before n ∨ u = c.after n := by
  have hbounded := c.bounded u
  unfold shows at h
  have hcalm := c.calm (n - span) u (n + span) (by omega) (by omega) (by omega)
  unfold before after
  omega

theorem instant_cases (c : ResetClock span) (n : ℤ) :
    c.instant n = c.before n ∨ c.instant n = c.after n := by
  unfold instant
  rcases le_total (c.before n) (c.after n) with h | h
  · rw [min_eq_left h, max_eq_right h]
    split_ifs
    · exact Or.inl rfl
    · exact Or.inr rfl
  · rw [min_eq_right h, max_eq_left h]
    split_ifs
    · exact Or.inr rfl
    · exact Or.inl rfl

/-- A reading that the clock leaves out is turned into the later count. -/
theorem instant_of_left_out (h : ∀ u, c.shows u ≠ n) : c.instant n = max (c.before n) (c.after n) := by
  unfold instant
  rw [if_neg (h _)]

/-- A reading that the clock shows is turned into the first count that shows it. -/
theorem isLeast_instant (h : c.shows u = n) : IsLeast {v | c.shows v = n} (c.instant n) := by
  have hleast : ∀ v, c.shows v = n → min (c.before n) (c.after n) ≤ v := by
    intro v hv
    rcases eq_before_or_after hv with rfl | rfl
    · exact min_le_left _ _
    · exact min_le_right _ _
  by_cases hmin : c.shows (min (c.before n) (c.after n)) = n
  · have hinstant : c.instant n = min (c.before n) (c.after n) := if_pos hmin
    rw [hinstant]
    exact ⟨hmin, fun v hv => hleast v hv⟩
  · have hinstant : c.instant n = max (c.before n) (c.after n) := if_neg hmin
    have hlater : ∀ v, c.shows v = n → v = max (c.before n) (c.after n) := by
      intro v hv
      have hne : v ≠ min (c.before n) (c.after n) := fun heq => hmin (heq ▸ hv)
      have hcases := eq_before_or_after hv
      omega
    rw [hinstant]
    exact ⟨hlater u h ▸ h, fun v hv => (hlater v hv).ge⟩

/-! ## The readings after a moment -/

variable {P : ℤ → Prop} {u₀ N : ℤ}

/-- A reading that is first shown after a moment is one that the clock has still ahead. -/
theorem shows_lt_of_fresh (hlt : u₀ < N) (hfresh : ∀ u, u ≤ u₀ → c.shows u ≠ c.shows N) :
    c.shows u₀ < c.shows N := by
  by_contra hle
  have hne := hfresh u₀ le_rfl
  have hbounded := c.bounded u₀
  have hbounded' := c.bounded N
  have hother := hfresh (c.shows N - c.offset u₀)
  have hcalm := c.calm (c.shows N - c.offset u₀) u₀ N
  unfold shows at *
  omega

/-- A reading that the clock has ahead is shown again, if it was shown before. -/
theorem shown_after (hu : c.shows u = n) (hlow : c.shows u₀ < n) : ∃ v, u₀ < v ∧ c.shows v = n := by
  rcases lt_or_ge u₀ u with hafter | hbefore
  · exact ⟨u, hafter, hu⟩
  · refine ⟨n - c.offset u₀, ?_, ?_⟩
    · unfold shows at hlow
      omega
    · -- the clock was set back before the moment, and is not set anew so soon
      have hbounded := c.bounded u
      have hbounded₀ := c.bounded u₀
      have hcalm := c.calm u u₀ (n - c.offset u₀)
      unfold shows at *
      omega

/-- What matches between the readings of a moment and of the first match after it, the clock leaves
out. -/
theorem left_out_of_first (hfirst : IsLeast {u | u₀ < u ∧ P (c.shows u)} N) (hP : P n)
    (hlow : c.shows u₀ < n) (hhigh : n < c.shows N) : ∀ u, c.shows u ≠ n := by
  intro u' hu'
  obtain ⟨u, hafter, hu⟩ := shown_after hu' hlow
  have hlater : ∀ v, u₀ < v → c.shows v = n → N < v := by
    intro v hv hn
    have hle := hfirst.2 ⟨hv, hn.symm ▸ hP⟩
    have hne : N ≠ v := fun heq => by
      rw [heq, hn] at hhigh
      exact lt_irrefl n hhigh
    omega
  -- set back behind `N`, and forward between the moment and `N`
  have hN := hfirst.1.1
  have hboundedN := c.bounded N
  have hbounded := c.bounded u
  have hNu := hlater u hafter hu
  have hmoved := hlater (n - c.offset N)
  have hback := c.calm (n - c.offset N) N u
  have hforward := c.calm (n - c.offset N) u₀ N
  unfold shows at *
  omega

theorem offset_ne_of_left_out {m : ℤ} (h : ∀ u, c.shows u ≠ m) (a : ℤ) : c.offset (m - a) ≠ a := by
  intro heq
  have hshows : c.shows (m - a) = m := by
    unfold shows
    rw [heq, sub_add_cancel]
  exact h _ hshows

/-- Of a reading and those one and two spans later, one is shown: by the offset at the one in the
middle, two of them lie around it. -/
theorem shown_of_three (c : ResetClock span) (n : ℤ) :
    ∃ i, 0 ≤ i ∧ i ≤ 2 ∧ ∃ u, c.shows u = n + span * i := by
  by_contra hnone
  have hout : ∀ i, 0 ≤ i → i ≤ 2 → ∀ v, c.shows v ≠ n + span * i := by
    intro i hi hi' v hv
    exact hnone ⟨i, hi, hi', v, hv⟩
  have hfirst := offset_ne_of_left_out (hout 0 le_rfl (by omega)) (c.offset (n + span))
  have hmiddle := offset_ne_of_left_out (hout 1 (by omega) (by omega)) (c.offset (n + span))
  have hlast := offset_ne_of_left_out (hout 2 (by omega) le_rfl) (c.offset (n + span))
  have hbounded := c.bounded (n + span)
  rcases le_or_gt 0 (c.offset (n + span)) with hahead | hbehind
  · rcases c.calm (n + span * 1 - c.offset (n + span)) (n + span)
      (n + span * 2 - c.offset (n + span)) (by omega)
      (by omega) (by omega) with h | h
    · exact hmiddle h.symm
    · exact hlast h.symm
  · rcases c.calm (n + span * 0 - c.offset (n + span)) (n + span)
      (n + span * 1 - c.offset (n + span)) (by omega)
      (by omega) (by omega) with h | h
    · exact hfirst h.symm
    · exact hmiddle h.symm

end ResetClock

end Insula
