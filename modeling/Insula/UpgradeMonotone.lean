import Insula.UpgradeJournal

/-!
# Runs move forward and end once; a cancel and the go-ahead exclude each other
-/

namespace Insula.PlatformUpgrade

open Transition Lookup Concurrent
open Program hiding pure bind

variable {rows rows₀ : List PlatformUpgradeRunRow} {plans : PlanName → Option ℕ} {s s' : Config}

theorem inOrder_exec {es : List Event} (h : Holds (Journalled rows₀) InOrder s)
    (hs : exec step s es = some s') : Holds (Journalled rows₀) InOrder s' :=
  exec_invariant step (fun _ _ _ h hs => inOrder_step h hs) h hs

/-- Any state a run goes through may be taken as the one the rows are compared with. -/
theorem Journalled.rebase (h : Holds (Journalled rows₀) InOrder s) :
    Holds (Journalled s.world.rows) InOrder s :=
  ⟨⟨RowsForward.refl _, h.1.actor_lt, h.1.ended_row, h.1.ended_unique, h.1.moved_passed,
    h.1.repinned_passed, h.1.finalized_ended, h.1.cleared_ended, h.1.finalized_once⟩, h.2⟩

theorem journal_subset_step {e : Event} (hs : step s e = some s') :
    s.world.journal ⊆ s'.world.journal := by
  rcases step_cases program handle hs with ⟨kind, rfl, rfl⟩ |
    ⟨i, o, r, kind, next, w, rfl, hi, hw, rfl⟩ | ⟨i, o, kind, next, rfl, hi, rfl⟩
  · exact List.Subset.refl _
  · intro x hx
    obtain ⟨j, e⟩ := x
    exact (mem_journal hw).mpr (Or.inl hx)
  · exact List.Subset.refl _

theorem journal_subset_exec {es : List Event} (hs : exec step s es = some s') :
    s.world.journal ⊆ s'.world.journal :=
  exec_rel step (R := fun a b : Config => a.world.journal ⊆ b.world.journal)
    (fun _ => List.Subset.refl _) (fun _ _ _ h₁ h₂ => List.Subset.trans h₁ h₂)
    (fun _ _ _ h => journal_subset_step h) hs

def Returned (s : Config) (i : ℕ) (kind : Kind) (res : Result) : Prop :=
  s.procs[i]? = some ⟨kind, some (.pure res)⟩

def hasReturned : Call Result → Bool
  | .pure _ => true
  | .call _ _ => false

structure EndedOnce (s : Config) (r : ℕ) : Prop where
  one_ender : ∀ i j st st', (i, .ended r st) ∈ s.world.journal →
    (j, .ended r st') ∈ s.world.journal → i = j ∧ st = st'
  finalized_by_ender : ∀ i, (i, .finalized r) ∈ s.world.journal →
    (∃ st, (i, .ended r st) ∈ s.world.journal) ∧ s.world.journal.count (i, .finalized r) = 1
  cleared_by_ender : ∀ i plan, (i, .cleared r plan) ∈ s.world.journal →
    ∃ st, (i, .ended r st) ∈ s.world.journal
  ender_finalizes : ∀ i kind res st, Returned s i kind res →
    (∀ input, kind ≠ .start input) → (i, .ended r st) ∈ s.world.journal →
      (i, .finalized r) ∈ s.world.journal

theorem endedOnce_of_inOrder (h : Holds (Journalled rows₀) InOrder s) (r : ℕ) : EndedOnce s r := by
  obtain ⟨hJ, hL⟩ := h
  refine ⟨?_, ?_, fun i plan => hJ.cleared_ended i r plan, ?_⟩
  · intro i j st st' hi hj
    obtain ⟨row, hrow, hst, -⟩ := hJ.ended_row i r st hi
    obtain ⟨row', hrow', hst', -⟩ := hJ.ended_row j r st' hj
    cases hrow.symm.trans hrow'
    exact ⟨hJ.ended_unique i j r st st' hi hj, hst.symm.trans hst'⟩
  · intro i hi
    refine ⟨hJ.finalized_ended i r hi, ?_⟩
    have hpos : 0 < s.world.journal.count (i, .finalized r) := List.count_pos_iff.mpr hi
    have hle := hJ.finalized_once i r
    omega
  · intro i kind res st hp hkind hended
    obtain ⟨b, hk, hout⟩ := hL i kind _ hp
    have hst := (hk.ended r st).mp hended
    rw [hk.finalized]
    cases hb : b.standing with
    | unended =>
      rw [hb] at hst
      cases hst
    | won run st' => exact absurd hb (hout.settled hkind run st')
    | closed run st' =>
      rw [hb] at hst
      simp only [Standing.ended, Option.some.injEq, Prod.mk.injEq] at hst
      simp [Standing.finalized, hst.1]

/-- Between any two states of any interleaving the row of a run has only moved forward, an ended row
not at all; and the run has at most one ender, who finalises it. -/
theorem upgrade_run_monotone (rows : List PlatformUpgradeRunRow) (plans : PlanName → Option ℕ)
    (es₁ es₂ : List Event) (s₁ s₂ : Config) (h₁ : exec step (initial rows plans) es₁ = some s₁)
    (h₂ : exec step s₁ es₂ = some s₂) (r : ℕ) : (∀ row, s₁.world.rows[r]? = some row →
      ∃ row', s₂.world.rows[r]? = some row' ∧ Forward row row') ∧ EndedOnce s₂ r := by
  have hs₁ := inOrder_exec (inOrder_initial rows plans) h₁
  have hs₂ := inOrder_exec (Journalled.rebase hs₁) h₂
  exact ⟨hs₂.1.forward r, endedOnce_of_inOrder hs₂ r⟩

def preparing : PlatformUpgradeRunRow := newRow ⟨"2026.10.7", none⟩ 0

def startedRun : List Event :=
  [.spawn (.start ⟨"2026.10.7", none⟩),
    .act 0 (.createRun ⟨"2026.10.7", none⟩) (some (0, preparing)),
    .act 0 (.applyPlan 0 .nodeUpdate) .ok]

def cancelling : List Event :=
  [.spawn .cancel, .act 1 .getActiveRun (some (0, preparing)), .act 1 .now (1000 : ℤ),
    .act 1 (.transitionRun 0 (some .prepareNodes)
      { status := some .cancelled, message := some (some cancelledMessage),
        finishedAt := some 1000 }) true,
    .act 1 (.clearPlan 0 .nodeUpdate) true, .act 1 (.clearPlan 0 .nodeFinish) true,
    .act 1 (.finalize 0 .cancelled (some cancelledMessage)) ()]

theorem upgrade_run_monotone_cancelled :
    ∃ s₁ s₂, exec step (initial [] fun _ => none) startedRun = some s₁ ∧
      exec step s₁ cancelling = some s₂ ∧ s₁.world.rows[0]? = some preparing ∧
        (∃ row', s₂.world.rows[0]? = some row' ∧ Forward preparing row') ∧ EndedOnce s₂ 0 := by
  have hmono := upgrade_run_monotone [] (fun _ => none) startedRun cancelling _ _ rfl rfl 0
  exact ⟨_, _, rfl, rfl, rfl, hmono.1 preparing rfl, hmono.2⟩

/-- A cancel that returned success has left the run in its prepare step. -/
theorem cancelled_of_returned (h : Holds (Journalled rows₀) InOrder s) {i r : ℕ}
    (hp : Returned s i .cancel (.ended r)) : (i, .ended r .cancelled) ∈ s.world.journal := by
  obtain ⟨b, hk, hout⟩ := h.2 i .cancel _ hp
  obtain ⟨st, hb, hst⟩ := hout.ended r rfl
  rw [hk.ended, hb, hst rfl]
  rfl

theorem not_passed_of_cancelled (h : Journalled rows₀ s.world s.procs.length) {i r : ℕ}
    (hi : (i, .ended r .cancelled) ∈ s.world.journal) : ¬ Passed r s.world := by
  obtain ⟨row, hrow, -, -, hprep⟩ := h.ended_row i r .cancelled hi
  rintro ⟨row', hrow', hstep⟩
  cases hrow.symm.trans hrow'
  exact hstep (hprep rfl)

/-- Once a cancel of a run has returned success, no call has moved or will move that run to the
services step and the services are not re-pinned for it; once a tick has moved it, every cancel that
returns is refused, or is the cancel of another run. -/
theorem cancel_excludes_go_ahead (rows : List PlatformUpgradeRunRow) (plans : PlanName → Option ℕ)
    (es₁ es₂ : List Event) (s₁ s₂ : Config) (h₁ : exec step (initial rows plans) es₁ = some s₁)
    (h₂ : exec step s₁ es₂ = some s₂) (r : ℕ) : (∀ i, Returned s₁ i .cancel (.ended r) →
      (∀ j st, (j, .moved r st) ∉ s₂.world.journal) ∧ ∀ j, (j, .repinned r) ∉ s₂.world.journal) ∧
    (∀ j, (j, .moved r .updateServices) ∈ s₁.world.journal → ∀ i res, Returned s₂ i .cancel res →
        (∃ err, res = .threw err) ∨ ∃ r', r' ≠ r ∧ res = .ended r') := by
  have hs₁ := inOrder_exec (inOrder_initial rows plans) h₁
  have hs₂ := inOrder_exec hs₁ h₂
  have hsub := journal_subset_exec h₂
  constructor
  · intro i hi
    have hnot : ¬ Passed r s₂.world :=
      not_passed_of_cancelled hs₂.1 (hsub (cancelled_of_returned hs₁ hi))
    exact ⟨fun j st hj => hnot (hs₂.1.moved_passed j r st hj),
      fun j hj => hnot (hs₂.1.repinned_passed j r hj)⟩
  · intro j hj i res hi
    obtain ⟨b, -, hout⟩ := hs₂.2 i .cancel _ hi
    rcases hout.cancel rfl with herr | ⟨r', rfl⟩
    · exact Or.inl herr
    · refine Or.inr ⟨r', ?_, rfl⟩
      rintro rfl
      exact not_passed_of_cancelled hs₂.1 (cancelled_of_returned hs₂ hi)
        (hs₂.1.moved_passed j r' _ (hsub hj))

/-- A tick that comes after the cancel finds no run to move. -/
theorem cancel_excludes_go_ahead_late_tick :
    ∃ s₁ s₂, exec step (initial [] fun _ => none) (startedRun ++ cancelling) = some s₁ ∧
      exec step s₁ [.spawn .tick, .act 2 .getActiveRun none] = some s₂ ∧
        Returned s₁ 1 .cancel (.ended 0) ∧ (∀ j st, (j, .moved 0 st) ∉ s₂.world.journal) ∧
          ∀ j, (j, .repinned 0) ∉ s₂.world.journal :=
  ⟨_, _, rfl, rfl, rfl, (cancel_excludes_go_ahead [] (fun _ => none) (startedRun ++ cancelling)
    [.spawn .tick, .act 2 .getActiveRun none] _ _ rfl rfl 0).1 1 rfl⟩

end Insula.PlatformUpgrade
