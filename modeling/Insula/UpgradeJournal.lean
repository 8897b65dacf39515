import Insula.UpgradeEnding

/-!
# The journal of an upgrade run

What the journal says of a run agrees with its row and with what the calls know: over any
interleaving, a run's row only moves forward, one call ends it, and that call and no other clears
its Plans and finalises it.
-/

namespace Insula.PlatformUpgrade

open Transition Lookup Concurrent
open Program hiding pure bind

def Passed (r : ℕ) (w : World) : Prop :=
  ∃ row, w.rows[r]? = some row ∧ row.step ≠ .prepareNodes

def effects : (o : Op) → Ans o → List Effect
  | .getActiveRun, some (run, row) => [.took run row.step]
  | .createRun _, some (run, row) => [.took run row.step]
  | .transitionRun run _ patch, true => patch.effect run
  | .clearPlan run plan, _ => [.cleared run plan]
  | .startServices run, _ => [.repinned run]
  | .finalize run _ _, _ => [.finalized run]
  | _, _ => []

theorem handle_journal {w w' : World} {i : ℕ} {o : Op} {r : Ans o}
    (h : handle w i o r = some w') : w'.journal = w.journal ++ (effects o r).map fun e => (i, e) := by
  cases o with
  | transitionRun run fromStep patch =>
    cases r with
    | true =>
      obtain ⟨row, -, -, rfl⟩ := handle_transition_true h
      rfl
    | false =>
      obtain ⟨rfl, -⟩ := handle_transition_false h
      simp [effects]
  | createRun input =>
    rcases handle_createRun h with ⟨rfl, -, rfl⟩ | ⟨run, row, rfl, -, -, -, rfl⟩
    · simp [effects]
    · rfl
  | updateRun run nodes =>
    simp only [handle, updateRun, Option.some.injEq] at h
    subst h
    split <;> simp [effects, World.setRow]
  | applyPlan run plan =>
    cases r with
    | ok =>
      cases h
      simp [effects, World.setPlan]
    | failed reason landed =>
      cases h
      cases landed <;> simp [effects, World.setPlan]
  | clearPlan run plan =>
    cases h
    cases r <;> rfl
  | getActiveRun =>
    obtain ⟨-, rfl⟩ := handle_getActiveRun h
    rcases r with _ | ⟨run, row⟩
    · simp [effects, World.take]
    · rfl
  | planExists plan =>
    simp only [handle] at h
    split_ifs at h
    cases h
    simp [effects]
  | startServices run =>
    cases h
    rfl
  | finalize run status message =>
    cases h
    rfl
  | now | assessRunNodes | assessKubernetesNodes | buildRunK3sPlans | deletePlan | servicesState |
    progress =>
      cases h
      simp [effects, World.setPlan]

theorem mem_journal {w w' : World} {i : ℕ} {o : Op} {r : Ans o} (h : handle w i o r = some w')
    {j : ℕ} {e : Effect} :
    (j, e) ∈ w'.journal ↔ (j, e) ∈ w.journal ∨ (j = i ∧ e ∈ effects o r) := by
  rw [handle_journal h, List.mem_append, List.mem_map]
  constructor
  · rintro (hmem | ⟨e', he', heq⟩)
    · exact Or.inl hmem
    · cases heq
      exact Or.inr ⟨rfl, he'⟩
  · rintro (hmem | ⟨rfl, he⟩)
    · exact Or.inl hmem
    · exact Or.inr ⟨e, he, rfl⟩

inductive Entry : (o : Op) → Ans o → Effect → Prop
  | active (run : ℕ) (row : PlatformUpgradeRunRow) :
      Entry .getActiveRun (some (run, row)) (.took run row.step)
  | created (input : NewRunInput) (run : ℕ) (row : PlatformUpgradeRunRow) :
      Entry (.createRun input) (some (run, row)) (.took run row.step)
  | ended {run : ℕ} {fromStep : Option RunStep} {patch : RunPatch} {st : RunStatus}
      (hstatus : patch.status = some st) :
      Entry (.transitionRun run fromStep patch) true (.ended run st)
  | moved {run : ℕ} {fromStep : Option RunStep} {patch : RunPatch} {st : RunStep}
      (hstatus : patch.status = none) (hstep : patch.step = some st) :
      Entry (.transitionRun run fromStep patch) true (.moved run st)
  | cleared (run : ℕ) (plan : PlanName) (r : Ans (.clearPlan run plan)) :
      Entry (.clearPlan run plan) r (.cleared run plan)
  | repinned (run : ℕ) (r : Ans (.startServices run)) :
      Entry (.startServices run) r (.repinned run)
  | finalized (run : ℕ) (st : RunStatus) (m : Option String) (r : Ans (.finalize run st m)) :
      Entry (.finalize run st m) r (.finalized run)

theorem entry_of_mem_effects {o : Op} {r : Ans o} {e : Effect} (h : e ∈ effects o r) :
    Entry o r e := by
  cases o with
  | getActiveRun =>
    rcases r with _ | ⟨run, row⟩
    · simp [effects] at h
    · rw [List.mem_singleton.mp h]
      exact .active run row
  | createRun input =>
    rcases r with _ | ⟨run, row⟩
    · simp [effects] at h
    · rw [List.mem_singleton.mp h]
      exact .created input run row
  | transitionRun run fromStep patch =>
    cases r with
    | true =>
      simp only [effects, RunPatch.effect] at h
      split at h
      · rename_i st hstatus
        rw [List.mem_singleton.mp h]
        exact .ended hstatus
      · rename_i st hstatus hstep
        rw [List.mem_singleton.mp h]
        exact .moved hstatus hstep
      · simp at h
    | false => simp [effects] at h
  | clearPlan run plan =>
    rw [List.mem_singleton.mp h]
    exact .cleared run plan r
  | startServices run =>
    rw [List.mem_singleton.mp h]
    exact .repinned run r
  | finalize run st m =>
    rw [List.mem_singleton.mp h]
    exact .finalized run st m r
  | _ => simp [effects] at h

variable {run : ℕ} {fromStep : Option RunStep} {patch : RunPatch}

theorem ended_mem_effects {o : Op} {r : Ans o} {st : RunStatus}
    (h : Effect.ended run st ∈ effects o r) :
    ∃ fromStep patch, o = .transitionRun run fromStep patch ∧ HEq r true ∧
      patch.status = some st := by
  cases entry_of_mem_effects h with
  | ended hstatus => exact ⟨_, _, rfl, HEq.rfl, hstatus⟩

theorem moved_mem_effects {o : Op} {r : Ans o} {st : RunStep}
    (h : Effect.moved run st ∈ effects o r) :
    ∃ fromStep patch, o = .transitionRun run fromStep patch ∧ HEq r true ∧
      patch.status = none ∧ patch.step = some st := by
  cases entry_of_mem_effects h with
  | moved hstatus hstep => exact ⟨_, _, rfl, HEq.rfl, hstatus, hstep⟩

theorem repinned_mem_effects {o : Op} {r : Ans o} (h : Effect.repinned run ∈ effects o r) :
    o = .startServices run := by
  cases entry_of_mem_effects h with
  | repinned => rfl

theorem finalized_mem_effects {o : Op} {r : Ans o} (h : Effect.finalized run ∈ effects o r) :
    ∃ st m, o = .finalize run st m := by
  cases entry_of_mem_effects h with
  | finalized _ st m => exact ⟨st, m, rfl⟩

theorem cleared_mem_effects {o : Op} {r : Ans o} {plan : PlanName}
    (h : Effect.cleared run plan ∈ effects o r) : o = .clearPlan run plan := by
  cases entry_of_mem_effects h with
  | cleared => rfl

theorem Passed.forward {r : ℕ} {w w' : World} (h : Passed r w) (hf : RowsForward w.rows w'.rows) :
    Passed r w' := by
  obtain ⟨row, hrow, hstep⟩ := h
  obtain ⟨row', hrow', hfor⟩ := hf r row hrow
  refine ⟨row', hrow', ?_⟩
  intro hprep
  have hle := hfor.step
  rw [hprep] at hle
  cases hs : row.step with
  | prepareNodes => exact hstep hs
  | _ =>
    rw [hs] at hle
    simp [RunStep.rank] at hle

/-- The journal and the rows agree, whatever the calls are doing. -/
structure Journalled (rows₀ : List PlatformUpgradeRunRow) (w : World) (n : ℕ) : Prop where
  forward : RowsForward rows₀ w.rows
  actor_lt : ∀ i e, (i, e) ∈ w.journal → i < n
  ended_row : ∀ i r st, (i, .ended r st) ∈ w.journal → ∃ row, w.rows[r]? = some row ∧
    row.status = st ∧ st ≠ .running ∧ (st = .cancelled → row.step = .prepareNodes)
  ended_unique : ∀ i j r st st', (i, .ended r st) ∈ w.journal → (j, .ended r st') ∈ w.journal →
    i = j
  moved_passed : ∀ i r st, (i, .moved r st) ∈ w.journal → Passed r w
  repinned_passed : ∀ i r, (i, .repinned r) ∈ w.journal → Passed r w
  finalized_ended : ∀ i r, (i, .finalized r) ∈ w.journal → ∃ st, (i, .ended r st) ∈ w.journal
  cleared_ended : ∀ i r plan, (i, .cleared r plan) ∈ w.journal → ∃ st, (i, .ended r st) ∈ w.journal
  finalized_once : ∀ i r, w.journal.count (i, .finalized r) ≤ 1

def Standing.ended : Standing → Option (ℕ × RunStatus)
  | .unended => none
  | .won run st | .closed run st => some (run, st)

def Standing.finalized : Standing → Option ℕ
  | .closed run _ => some run
  | _ => none

structure Known (w : World) (i : ℕ) (b : Knowledge) : Prop where
  ended : ∀ r st, (i, .ended r st) ∈ w.journal ↔ b.standing.ended = some (r, st)
  finalized : ∀ r, (i, .finalized r) ∈ w.journal ↔ b.standing.finalized = some r
  services : ∀ r, b.services = some r → Passed r w

variable {rows₀ : List PlatformUpgradeRunRow} {w w' : World} {n i : ℕ} {b b' : Knowledge} {o : Op}
  {r : Ans o}

theorem legalOp_of_allowed (h : orderly.allowed b o) : LegalOp o := by
  cases o with
  | transitionRun run fromStep patch => exact h.1
  | _ => trivial

theorem ended_row_of_transition {st : RunStatus} (hlegal : LegalPatch fromStep patch)
    (hst : patch.status = some st)
    (h : handle w i (.transitionRun run fromStep patch) true = some w') :
    (∃ row, w.rows[run]? = some row ∧ row.status = .running) ∧
      ∃ row, w'.rows[run]? = some row ∧ row.status = st ∧ st ≠ .running ∧
        (st = .cancelled → row.step = .prepareNodes) := by
  obtain ⟨row, hrow, ⟨hrunning, hfrom⟩, rfl⟩ := handle_transition_true h
  refine ⟨⟨row, hrow, hrunning⟩, patch.set row, ?_, by simp [RunPatch.set, hst], ?_⟩
  · exact getElem?_set_eq_some.mpr (Or.inl ⟨rfl, lt_length_of_getElem? hrow, rfl⟩)
  · unfold LegalPatch at hlegal
    rw [hst] at hlegal
    cases hstep : patch.step with
    | none =>
      rw [hstep] at hlegal
      refine ⟨hlegal.1, fun hc => ?_⟩
      simpa [RunPatch.set, hstep] using hfrom _ (hlegal.2 hc)
    | some step =>
      rw [hstep] at hlegal
      exact ⟨hlegal.1, fun hc => absurd hc hlegal.2.1⟩

theorem passed_of_transition {st : RunStep} (hlegal : LegalPatch fromStep patch)
    (hst : patch.status = none) (hstep : patch.step = some st)
    (h : handle w i (.transitionRun run fromStep patch) true = some w') : Passed run w' := by
  obtain ⟨row, hrow, -, rfl⟩ := handle_transition_true h
  refine ⟨patch.set row, ?_, ?_⟩
  · exact getElem?_set_eq_some.mpr (Or.inl ⟨rfl, lt_length_of_getElem? hrow, rfl⟩)
  · unfold LegalPatch at hlegal
    rw [hst, hstep] at hlegal
    obtain ⟨st₀, -, hlt⟩ := hlegal
    intro hprep
    simp only [RunPatch.set, hstep, Option.getD_some] at hprep
    rw [hprep] at hlt
    simp [RunStep.rank] at hlt

theorem journalled_handle (hJ : Journalled rows₀ w n) (hi : i < n) (hk : Known w i b)
    (hallowed : orderly.allowed b o) (h : handle w i o r = some w') : Journalled rows₀ w' n := by
  have hf : RowsForward w.rows w'.rows := rowsForward_handle (legalOp_of_allowed hallowed) h
  have hmem := @mem_journal w w' i o r h
  refine ⟨hJ.forward.trans hf, ?_, ?_, ?_, ?_, ?_, ?_, ?_, ?_⟩
  · intro j e he
    rcases hmem.mp he with he | ⟨rfl, -⟩
    · exact hJ.actor_lt j e he
    · exact hi
  · intro j run st he
    rcases hmem.mp he with he | ⟨rfl, he⟩
    · obtain ⟨row, hrow, hst, hend, hprep⟩ := hJ.ended_row j run st he
      obtain ⟨row', hrow', hfor⟩ := hf run row hrow
      obtain ⟨hst', hstep'⟩ := hfor.ended (hst ▸ hend)
      exact ⟨row', hrow', hst'.trans hst, hend, fun hc => hstep'.trans (hprep hc)⟩
    · obtain ⟨fromStep, patch, rfl, hr, hst⟩ := ended_mem_effects he
      cases eq_of_heq hr
      exact (ended_row_of_transition hallowed.1 hst h).2
  · have old_new : ∀ j run st st', (j, Effect.ended run st) ∈ w.journal →
        Effect.ended run st' ∉ effects o r := by
      intro j run st st' hold hnew
      obtain ⟨row, hrow, hst, hend, -⟩ := hJ.ended_row j run st hold
      obtain ⟨fromStep, patch, rfl, hr, hst'⟩ := ended_mem_effects hnew
      cases eq_of_heq hr
      obtain ⟨⟨row', hrow', hrunning⟩, -⟩ := ended_row_of_transition hallowed.1 hst' h
      cases hrow.symm.trans hrow'
      exact hend (hst.symm.trans hrunning)
    intro j₁ j₂ run st st' h₁ h₂
    rcases hmem.mp h₁ with h₁ | ⟨rfl, h₁⟩ <;> rcases hmem.mp h₂ with h₂ | ⟨rfl, h₂⟩
    · exact hJ.ended_unique j₁ j₂ run st st' h₁ h₂
    · exact absurd h₂ (old_new j₁ run st st' h₁)
    · exact absurd h₁ (old_new j₂ run st' st h₂)
    · rfl
  · intro j run st he
    rcases hmem.mp he with he | ⟨rfl, he⟩
    · exact (hJ.moved_passed j run st he).forward hf
    · obtain ⟨fromStep, patch, rfl, hr, hst, hstep⟩ := moved_mem_effects he
      cases eq_of_heq hr
      exact passed_of_transition hallowed.1 hst hstep h
  · intro j run he
    rcases hmem.mp he with he | ⟨rfl, he⟩
    · exact (hJ.repinned_passed j run he).forward hf
    · obtain rfl := repinned_mem_effects he
      exact (hk.services run hallowed).forward hf
  · intro j run he
    rcases hmem.mp he with he | ⟨rfl, he⟩
    · obtain ⟨st, hst⟩ := hJ.finalized_ended j run he
      exact ⟨st, hmem.mpr (Or.inl hst)⟩
    · obtain ⟨st, m, rfl⟩ := finalized_mem_effects he
      obtain ⟨st', hst'⟩ := hallowed
      exact ⟨st', hmem.mpr (Or.inl ((hk.ended run st').mpr (by rw [hst']; rfl)))⟩
  · intro j run plan he
    rcases hmem.mp he with he | ⟨rfl, he⟩
    · obtain ⟨st, hst⟩ := hJ.cleared_ended j run plan he
      exact ⟨st, hmem.mpr (Or.inl hst)⟩
    · obtain rfl := cleared_mem_effects he
      obtain ⟨st', hst'⟩ := hallowed
      exact ⟨st', hmem.mpr (Or.inl ((hk.ended run st').mpr (by rw [hst']; rfl)))⟩
  · intro j run
    rw [handle_journal h, List.count_append]
    by_cases he : j = i ∧ Effect.finalized run ∈ effects o r
    · obtain ⟨rfl, he⟩ := he
      obtain ⟨st, m, rfl⟩ := finalized_mem_effects he
      obtain ⟨st', hst'⟩ := hallowed
      have hnot : (j, Effect.finalized run) ∉ w.journal := by
        rw [hk.finalized, hst']
        simp [Standing.finalized]
      rw [List.count_eq_zero_of_not_mem hnot]
      simp [effects]
    · have hzero : ((effects o r).map fun e => (i, e)).count (j, Effect.finalized run) = 0 := by
        apply List.count_eq_zero_of_not_mem
        rintro hin
        obtain ⟨e, he', heq⟩ := List.mem_map.mp hin
        cases heq
        exact he ⟨rfl, he'⟩
      rw [hzero]
      exact hJ.finalized_once j run

/-- The operations of another call teach it nothing and take nothing from it. -/
theorem known_other {j : ℕ} (hk : Known w j b') (hji : j ≠ i) (hallowed : orderly.allowed b o)
    (h : handle w i o r = some w') : Known w' j b' := by
  have hf : RowsForward w.rows w'.rows := rowsForward_handle (legalOp_of_allowed hallowed) h
  have hmem : ∀ e, (j, e) ∈ w'.journal ↔ (j, e) ∈ w.journal := by
    intro e
    rw [mem_journal h]
    simp [hji]
  refine ⟨?_, ?_, fun run hrun => (hk.services run hrun).forward hf⟩
  · intro run st
    rw [hmem]
    exact hk.ended run st
  · intro run
    rw [hmem]
    exact hk.finalized run

/-- An operation that writes no end and no finalisation leaves the standing as it is. -/
theorem known_same_standing (hk : Known w i b) (hf : RowsForward w.rows w'.rows)
    (h : handle w i o r = some w') (hended : ∀ run st, Effect.ended run st ∉ effects o r)
    (hfinal : ∀ run, Effect.finalized run ∉ effects o r) (hst : b'.standing = b.standing)
    (hservices : ∀ run, b'.services = some run → b.services = some run ∨ Passed run w') :
    Known w' i b' := by
  refine ⟨?_, ?_, ?_⟩
  · intro run st
    rw [mem_journal h, hst, hk.ended]
    simp [hended]
  · intro run
    rw [mem_journal h, hst, hk.finalized]
    simp [hfinal]
  · intro run hrun
    rcases hservices run hrun with hrun | hrun
    · exact (hk.services run hrun).forward hf
    · exact hrun

theorem known_transition {won : Bool} (hk : Known w i b)
    (hallowed : orderly.allowed b (.transitionRun run fromStep patch))
    (h : handle w i (.transitionRun run fromStep patch) won = some w')
    (hnext : orderly.next b (.transitionRun run fromStep patch) won = some b') : Known w' i b' := by
  have hf : RowsForward w.rows w'.rows := rowsForward_handle (legalOp_of_allowed hallowed) h
  cases won with
  | false =>
    cases hnext
    exact known_same_standing hk hf h (by simp [effects]) (by simp [effects]) rfl (by simp)
  | true =>
    cases hst : patch.status with
    | some st =>
      simp only [orderly, hst, Option.some.injEq] at hnext
      subst hnext
      have hun : b.standing = .unended := hallowed.2 (by simp [hst])
      have heff : effects (.transitionRun run fromStep patch) true = [.ended run st] := by
        simp [effects, RunPatch.effect, hst]
      refine ⟨?_, ?_, by simp⟩
      · intro q st'
        rw [mem_journal h, heff, hk.ended, hun]
        simp [Standing.ended, eq_comm]
      · intro q
        rw [mem_journal h, heff, hk.finalized, hun]
        simp [Standing.finalized]
    | none =>
      simp only [orderly, hst, Option.some.injEq] at hnext
      subst hnext
      have hended : ∀ q st, Effect.ended q st ∉ effects (.transitionRun run fromStep patch) true := by
        cases hstep : patch.step <;> simp [effects, RunPatch.effect, hst, hstep]
      have hfinal : ∀ q, Effect.finalized q ∉ effects (.transitionRun run fromStep patch) true := by
        cases hstep : patch.step <;> simp [effects, RunPatch.effect, hst, hstep]
      refine known_same_standing hk hf h hended hfinal rfl ?_
      intro q hq
      split_ifs at hq with hstep
      cases hq
      exact Or.inr (passed_of_transition hallowed.1 hst hstep h)

/-- What a call learns from its own operation is so. -/
theorem known_own (hk : Known w i b) (hallowed : orderly.allowed b o)
    (h : handle w i o r = some w') (hnext : orderly.next b o r = some b') : Known w' i b' := by
  have hf : RowsForward w.rows w'.rows := rowsForward_handle (legalOp_of_allowed hallowed) h
  cases o with
  | transitionRun run fromStep patch => exact known_transition hk hallowed h hnext
  | finalize run status message =>
    obtain ⟨st, hst⟩ := hallowed
    simp only [orderly, hst, Option.some.injEq] at hnext
    subst hnext
    refine ⟨?_, ?_, fun q hq => (hk.services q hq).forward hf⟩
    · intro q st'
      rw [mem_journal h, hk.ended, hst]
      simp [effects, Standing.ended]
    · intro q
      rw [mem_journal h, hk.finalized, hst]
      simp [effects, Standing.finalized, eq_comm]
  | getActiveRun =>
    obtain ⟨hr, -⟩ := handle_getActiveRun h
    cases r with
    | none =>
      cases hnext
      exact known_same_standing hk hf h (by simp [effects]) (by simp [effects]) rfl (by simp)
    | some p =>
      obtain ⟨run, row⟩ := p
      simp only [orderly, Option.some.injEq] at hnext
      subst hnext
      refine known_same_standing hk hf h (by simp [effects]) (by simp [effects]) rfl ?_
      intro q hq
      simp only at hq
      split_ifs at hq with hstep
      cases hq
      have hseen : Passed run w := ⟨row, (activeRun_eq_some hr.symm).1, by simp [hstep]⟩
      exact Or.inr (hseen.forward hf)
  | createRun input =>
    cases hnext
    rcases r with _ | ⟨run, row⟩
    all_goals
      exact known_same_standing hk hf h (by simp [effects]) (by simp [effects]) rfl
        (fun _ hq => Or.inl hq)
  | clearPlan run plan =>
    cases hnext
    exact known_same_standing hk hf h (by simp [effects]) (by simp [effects]) rfl
      (fun _ hq => Or.inl hq)
  | startServices run =>
    cases hnext
    exact known_same_standing hk hf h (by simp [effects]) (by simp [effects]) rfl
      (fun _ hq => Or.inl hq)
  | now | updateRun | assessRunNodes | assessKubernetesNodes | planExists | applyPlan |
    buildRunK3sPlans | deletePlan | servicesState | progress =>
      cases hnext
      exact known_same_standing hk hf h (by simp [effects]) (by simp [effects]) rfl
        (fun _ hq => Or.inl hq)

/-- Each call that has not died is in order, and what it knows is so. -/
def InOrder (w : World) (i : ℕ) (kind : Kind) (p : Call Result) : Prop :=
  ∃ b, Known w i b ∧ Follows orderly (Outcome kind) p b

theorem inOrder_step {s s' : Config} {e : Event} (h : Holds (Journalled rows₀) InOrder s)
    (hs : step s e = some s') : Holds (Journalled rows₀) InOrder s' := by
  refine holds_step (C := fun _ _ _ => True) ?_ ?_ ?_ h hs trivial
  · intro w n kind hJ
    refine ⟨⟨hJ.forward, fun i e he => Nat.lt_succ_of_lt (hJ.actor_lt i e he), hJ.ended_row,
      hJ.ended_unique, hJ.moved_passed, hJ.repinned_passed, hJ.finalized_ended, hJ.cleared_ended,
      hJ.finalized_once⟩, ⟨.unended, none⟩, ⟨?_, ?_, by simp⟩, follows_program kind⟩
    · intro r st
      have hnot : (n, Effect.ended r st) ∉ w.journal :=
        fun hmem => absurd (hJ.actor_lt n _ hmem) (lt_irrefl n)
      simp [hnot, Standing.ended]
    · intro r
      have hnot : (n, Effect.finalized r) ∉ w.journal :=
        fun hmem => absurd (hJ.actor_lt n _ hmem) (lt_irrefl n)
      simp [hnot, Standing.finalized]
  · intro t i kind o next r w ⟨hJ, hL⟩ hi hw _
    obtain ⟨b, hk, hallowed, hfollows⟩ := hL i kind _ hi
    refine ⟨journalled_handle hJ (lt_length_of_getElem? hi) hk hallowed hw, ?_⟩
    have hsome : ∃ b', orderly.next b o r = some b' := by
      cases hn : orderly.next b o r with
      | some b' => exact ⟨b', rfl⟩
      | none => exact absurd hn (orderly_next_ne_none b o r)
    obtain ⟨b', hb'⟩ := hsome
    exact ⟨b', known_own hk hallowed hw hb', hfollows r b' hb'⟩
  · intro t i kind o next r w ⟨hJ, hL⟩ hi hw _ j kind' p hji hj
    obtain ⟨b, hk, hallowed, -⟩ := hL i kind _ hi
    obtain ⟨b', hk', hfollows'⟩ := hL j kind' p hj
    exact ⟨b', known_other hk' hji hallowed hw, hfollows'⟩

theorem inOrder_initial (rows : List PlatformUpgradeRunRow) (plans : PlanName → Option ℕ) :
    Holds (Journalled rows) InOrder (initial rows plans) := by
  refine ⟨⟨RowsForward.refl rows, ?_, ?_, ?_, ?_, ?_, ?_, ?_, ?_⟩, ?_⟩ <;> simp [initial]

end Insula.PlatformUpgrade
