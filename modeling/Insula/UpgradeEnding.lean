import Insula.UpgradeOrder

/-!
# One end and one finalisation for each run

Each call on a run is in order: it re-pins the services only for the run it last saw, or put, in the
services step, and clears Plans and finalises only after its own conditional update has ended the
run.
-/

namespace Insula.PlatformUpgrade

open Transition Lookup Concurrent
open Program hiding pure bind

inductive Standing
  | unended
  | won (run : ℕ) (status : RunStatus)
  | closed (run : ℕ) (status : RunStatus)

structure Knowledge where
  standing : Standing
  services : Option ℕ

def orderly : Discipline Op Ans Knowledge where
  allowed b
    | .transitionRun _ fromStep patch =>
      LegalPatch fromStep patch ∧ (patch.status ≠ none → b.standing = .unended)
    | .startServices run => b.services = some run
    | .clearPlan run _ => ∃ st, b.standing = .won run st
    | .finalize run _ _ => ∃ st, b.standing = .won run st
    | _ => True
  next b
    | .getActiveRun, some (run, row) =>
      some { b with services := if row.step = .updateServices then some run else none }
    | .getActiveRun, none => some { b with services := none }
    | .transitionRun run _ patch, true =>
      match patch.status, patch.step with
      | some st, _ => some ⟨.won run st, none⟩
      | none, step =>
        some { b with services := if step = some .updateServices then some run else none }
    | .transitionRun _ _ _, false => some { b with services := none }
    | .finalize _ _ _, _ =>
      match b.standing with
      | .won run st => some { b with standing := .closed run st }
      | _ => some b
    | _, _ => some b

theorem orderly_next_ne_none (b : Knowledge) (o : Op) (r : Ans o) : orderly.next b o r ≠ none := by
  cases o with
  | getActiveRun => rcases r with _ | ⟨run, row⟩ <;> simp [orderly]
  | transitionRun run fromStep patch =>
    cases r <;> cases hst : patch.status <;> simp [orderly, hst]
  | finalize run status message => cases hst : b.standing <;> simp [orderly, hst]
  | _ => simp [orderly]

def Settled (b : Knowledge) : Prop := ∀ run st, b.standing ≠ .won run st

variable {b : Knowledge} {id : ℕ} {α : Type} {step : RunStep}

def Op.quiet : Op → Bool
  | .now | .updateRun _ _ | .assessRunNodes _ _ | .assessKubernetesNodes _ | .planExists _ |
    .applyPlan _ _ | .buildRunK3sPlans _ | .deletePlan _ | .servicesState | .progress _ _ _ => true
  | _ => false

theorem orderly_quiet {o : Op} (ho : o.quiet = true) : orderly.Quiet o := by
  intro b
  cases o <;> first | exact ⟨trivial, fun _ => rfl⟩ | cases ho

theorem orderly_quiet_bind {Q : Knowledge → α → Prop} {o : Op} (ho : o.quiet = true)
    {f : Ans o → Call α} (h : ∀ r, Follows orderly Q (f r) b) : Follows orderly Q (ask o >>= f) b :=
  follows_quiet_bind (orderly_quiet ho) h

theorem follows_fail (message : String) (hb : b.standing = .unended) :
    Follows orderly (fun b' _ => Settled b') (fail id message) b := by
  unfold fail
  refine orderly_quiet_bind rfl fun t => ?_
  refine follows_perform_bind.mpr ⟨⟨⟨by simp, by simp⟩, fun _ => hb⟩, ?_⟩
  rintro (_ | _) b₁ ⟨⟩
  · simp [Settled, hb]
  · refine follows_perform.mpr ⟨⟨_, rfl⟩, ?_⟩
    rintro _ b₂ ⟨⟩
    simp [Settled]

theorem follows_fail_bind {message : String} {f : Unit → α} (hb : b.standing = .unended) :
    Follows orderly (fun b' _ => Settled b') (fail id message >>= fun u => Pure.pure (f u)) b := by
  rw [follows_bind]
  exact follows_fail message hb

theorem follows_startServices (hb : b.standing = .unended) (hid : b.services = some id) :
    Follows orderly (fun b' _ => Settled b') (startServices id) b := by
  unfold startServices
  refine follows_perform_bind.mpr ⟨hid, ?_⟩
  rintro r b₁ ⟨⟩
  split_ifs
  · simp [Settled, hb]
  · exact follows_fail_bind hb

theorem follows_updateView {run : PlatformUpgradeRunRow} {view : List UpgradeRunNode} :
    Follows orderly (fun b' _ => b' = b) (updateView id run view) b := by
  unfold updateView
  split_ifs
  · rfl
  · exact follows_quiet (orderly_quiet rfl) fun _ => rfl

theorem follows_nodeView {run : PlatformUpgradeRunRow} :
    Follows orderly (fun b' _ => b' = b) (nodeView id run step) b := by
  unfold nodeView
  refine orderly_quiet_bind rfl fun view => ?_
  rw [follows_bind]
  exact follows_mono (fun _ _ h => h) follows_updateView

theorem follows_enteringView : Follows orderly (fun b' _ => b' = b) (enteringView id step) b := by
  unfold enteringView
  split
  · exact orderly_quiet_bind rfl fun nodes => rfl
  · exact follows_quiet (orderly_quiet rfl) fun _ => rfl

theorem follows_bind_of_same {β : Type} {Q : Knowledge → β → Prop} {p : Call α} {f : α → Call β}
    (hp : Follows orderly (fun b' _ => b' = b) p b) (hf : ∀ a, Follows orderly Q (f a) b) :
    Follows orderly Q (p >>= f) b := by
  rw [follows_bind]
  refine follows_mono ?_ hp
  rintro b' a rfl
  exact hf a

theorem follows_advancePrepare (run : PlatformUpgradeRunRow) (elapsed : ℤ)
    (hb : b.standing = .unended) :
    Follows orderly (fun b' _ => Settled b') (advancePrepare id run elapsed) b := by
  unfold advancePrepare
  refine follows_bind_of_same follows_nodeView fun v => orderly_quiet_bind rfl fun _ => ?_
  split_ifs
  · exact orderly_quiet_bind rfl fun _ => follows_fail_bind hb
  · refine orderly_quiet_bind rfl fun s => orderly_quiet_bind rfl fun t => ?_
    refine follows_perform_bind.mpr ⟨⟨⟨_, rfl, by decide⟩, fun h => absurd rfl h⟩, ?_⟩
    rintro (_ | _) b₁ ⟨⟩
    · simp [Settled, hb]
    · refine orderly_quiet_bind rfl fun _ => ?_
      by_cases hs : s.installed = some run.toVersion ∨ s.pending = some run.toVersion
      · rw [if_pos hs]
        simp [Settled, hb]
      · rw [if_neg hs, follows_bind]
        exact follows_startServices hb rfl
  · exact orderly_quiet_bind rfl fun _ => follows_fail_bind hb
  · simp [Settled, hb]

theorem follows_advanceServices (run : PlatformUpgradeRunRow) (hb : b.standing = .unended)
    (hid : b.services = some id) :
    Follows orderly (fun b' _ => Settled b') (advanceServices id run) b := by
  unfold advanceServices
  refine orderly_quiet_bind rfl fun s => ?_
  split_ifs
  · simp [Settled, hb]
  · rw [follows_bind]
    exact follows_startServices hb hid
  · refine orderly_quiet_bind rfl fun applied => ?_
    cases applied with
    | failed reason landed => exact follows_fail_bind hb
    | ok =>
      refine follows_bind_of_same follows_enteringView fun nodes => ?_
      refine orderly_quiet_bind rfl fun t => ?_
      refine follows_perform_bind.mpr ⟨⟨⟨_, rfl, by decide⟩, fun h => absurd rfl h⟩, ?_⟩
      rintro (_ | _) b₁ ⟨⟩ <;> simp [Settled, hb]

theorem follows_applyKubernetesPlans :
    Follows orderly (fun b' _ => b' = b) (applyKubernetesPlans id) b := by
  unfold applyKubernetesPlans
  refine orderly_quiet_bind rfl fun built => ?_
  cases built with
  | some reason => rfl
  | none =>
    refine orderly_quiet_bind rfl fun server => ?_
    cases server with
    | failed reason landed => rfl
    | ok => exact follows_quiet (orderly_quiet rfl) fun _ => rfl

theorem follows_deleteKubernetesPlans :
    Follows orderly (fun b' _ => b' = b) deleteKubernetesPlans b :=
  orderly_quiet_bind rfl fun _ => follows_quiet (orderly_quiet rfl) fun _ => rfl

theorem follows_succeed {t : ℤ} {a : RunStep} (hb : b.standing = .unended) :
    Follows orderly (fun b' _ => Settled b') (do
      let won ← ask (.transitionRun id (some step)
        { status := some .succeeded, step := some .done, finishedAt := some t,
          message := some none })
      if won then do
        ask (.finalize id .succeeded none)
        Pure.pure a
      else Pure.pure a) b := by
  refine follows_perform_bind.mpr ⟨⟨⟨by simp, by simp, rfl⟩, fun _ => hb⟩, ?_⟩
  rintro (_ | _) b₁ ⟨⟩
  · simp [Settled, hb]
  · refine follows_perform_bind.mpr ⟨⟨_, rfl⟩, ?_⟩
    rintro _ b₂ ⟨⟩
    simp [Settled]

theorem follows_advanceFinish (run : PlatformUpgradeRunRow) (elapsed : ℤ)
    (hb : b.standing = .unended) :
    Follows orderly (fun b' _ => Settled b') (advanceFinish id run elapsed) b := by
  unfold advanceFinish
  refine follows_bind_of_same follows_nodeView fun v => orderly_quiet_bind rfl fun _ => ?_
  split_ifs
  · exact orderly_quiet_bind rfl fun _ => follows_fail_bind hb
  · refine orderly_quiet_bind rfl fun _ => follows_bind_of_same follows_enteringView fun nodes => ?_
    refine orderly_quiet_bind rfl fun t => ?_
    refine follows_perform_bind.mpr ⟨⟨⟨_, rfl, by decide⟩, fun h => absurd rfl h⟩, ?_⟩
    rintro (_ | _) b₁ ⟨⟩
    · simp [Settled, hb]
    · refine follows_bind_of_same follows_applyKubernetesPlans fun applied => ?_
      cases applied with
      | failed reason landed => exact follows_fail_bind hb
      | ok => simp [Settled, hb]
  · exact orderly_quiet_bind rfl fun _ => orderly_quiet_bind rfl fun t => follows_succeed hb
  · exact orderly_quiet_bind rfl fun _ => follows_fail_bind hb
  · simp [Settled, hb]

theorem follows_advanceKubernetes (run : PlatformUpgradeRunRow) (elapsed : ℤ)
    (hb : b.standing = .unended) :
    Follows orderly (fun b' _ => Settled b') (advanceKubernetes id run elapsed) b := by
  unfold advanceKubernetes
  refine orderly_quiet_bind rfl fun server => orderly_quiet_bind rfl fun agent => ?_
  refine orderly_quiet_bind rfl fun nodes => follows_bind_of_same follows_updateView fun _ => ?_
  refine orderly_quiet_bind rfl fun _ => ?_
  split_ifs
  · refine follows_bind_of_same follows_applyKubernetesPlans fun applied => ?_
    cases applied with
    | failed reason landed => exact follows_fail_bind hb
    | ok => simp [Settled, hb]
  · exact follows_bind_of_same follows_deleteKubernetesPlans fun _ => follows_fail_bind hb
  · exact follows_bind_of_same follows_deleteKubernetesPlans fun _ =>
      orderly_quiet_bind rfl fun t => follows_succeed hb
  · exact follows_bind_of_same follows_deleteKubernetesPlans fun _ => follows_fail_bind hb
  · simp [Settled, hb]

theorem follows_advanceRun (run : PlatformUpgradeRunRow) (hb : b.standing = .unended)
    (hid : run.step = .updateServices → b.services = some id) :
    Follows orderly (fun b' _ => Settled b') (advanceRun id run) b := by
  have hdone : Settled b := by simp [Settled, hb]
  unfold advanceRun
  by_cases hst : run.status ≠ .running
  · rw [if_pos hst]
    exact hdone
  rw [if_neg hst]
  refine orderly_quiet_bind rfl fun now => ?_
  cases hstep : run.step with
  | prepareNodes => exact follows_advancePrepare run _ hb
  | updateServices => exact follows_advanceServices run hb (hid hstep)
  | finish => exact follows_advanceFinish run _ hb
  | upgradeKubernetes =>
    by_cases hk : Javascript.truthy run.kubernetesVersion = true
    · simp only [hk, if_true]
      exact follows_advanceKubernetes run _ hb
    · simp only [hk]
      exact hdone
  | done => exact hdone

/-- How a call may end: nothing left to finalise, but for the start that found its Plan refused; who
says it has ended a run has; and a cancel has, or is refused. -/
structure Outcome (kind : Kind) (b : Knowledge) (res : Result) : Prop where
  settled : (∀ input, kind ≠ .start input) → Settled b
  ended : ∀ run, res = .ended run →
    ∃ st, b.standing = .closed run st ∧ (kind = .cancel → st = .cancelled)
  cancel : kind = .cancel → (∃ err, res = .threw err) ∨ ∃ run, res = .ended run

theorem follows_endRun (run : PlatformUpgradeRunRow) {fromStep : Option RunStep} {status : RunStatus}
    (message : String) (hb : b.standing = .unended) (hrunning : status ≠ .running)
    (hcancel : status = .cancelled → fromStep = some .prepareNodes) :
    Follows orderly (fun b' ended => b'.standing = if ended then .closed id status else .unended)
      (endRun id run fromStep status message) b := by
  unfold endRun
  refine orderly_quiet_bind rfl fun t => ?_
  refine follows_perform_bind.mpr ⟨⟨⟨hrunning, hcancel⟩, fun _ => hb⟩, ?_⟩
  rintro (_ | _) b₁ ⟨⟩
  · simpa using hb
  · refine follows_perform_bind.mpr ⟨⟨_, rfl⟩, ?_⟩
    rintro _ b₂ ⟨⟩
    refine follows_perform_bind.mpr ⟨⟨_, rfl⟩, ?_⟩
    rintro _ b₃ ⟨⟩
    split_ifs
    · refine follows_perform_bind.mpr ⟨⟨_, rfl⟩, ?_⟩
      rintro _ b₄ ⟨⟩
      refine follows_perform_bind.mpr ⟨⟨_, rfl⟩, ?_⟩
      rintro _ b₅ ⟨⟩
      refine follows_perform_bind.mpr ⟨⟨_, rfl⟩, ?_⟩
      rintro _ b₆ ⟨⟩
      simp
    · refine follows_perform_bind.mpr ⟨⟨_, rfl⟩, ?_⟩
      rintro _ b₄ ⟨⟩
      simp

theorem follows_tick : Follows orderly (Outcome .tick) tick ⟨.unended, none⟩ := by
  unfold tick
  refine follows_perform_bind.mpr ⟨trivial, ?_⟩
  rintro (_ | ⟨id, run⟩) b₁ ⟨⟩
  · exact ⟨fun _ => by simp [Settled], by simp, by simp⟩
  · rw [follows_bind]
    refine follows_mono ?_ (follows_advanceRun run ?_ ?_)
    · intro b' step hb'
      exact ⟨fun _ => hb', by simp, by simp⟩
    · rfl
    · intro hstep
      simp [hstep]

theorem follows_startUpgradeRun (input : NewRunInput) :
    Follows orderly (Outcome (.start input)) (startUpgradeRun input) ⟨.unended, none⟩ := by
  have hstart : ∀ (b : Knowledge) (res : Result), (∀ run, res ≠ .ended run) →
      Outcome (.start input) b res :=
    fun b res hres =>
      ⟨fun h => absurd rfl (h input), fun run hrun => absurd hrun (hres run), by simp⟩
  unfold startUpgradeRun
  refine follows_perform_bind.mpr ⟨trivial, ?_⟩
  rintro (_ | ⟨id, run⟩) b₁ ⟨⟩
  · exact hstart _ _ (by simp)
  · refine orderly_quiet_bind rfl fun applied => ?_
    cases applied with
    | ok => exact hstart _ _ (by simp)
    | failed reason landed =>
      refine orderly_quiet_bind rfl fun t => ?_
      refine follows_perform_bind.mpr ⟨⟨⟨by simp, by simp⟩, fun _ => rfl⟩, ?_⟩
      rintro (_ | _) b₁ ⟨⟩
      · exact hstart _ _ (by simp)
      · exact hstart _ _ (by simp)

theorem follows_cancelPreparingRun :
    Follows orderly (Outcome .cancel) cancelPreparingRun ⟨.unended, none⟩ := by
  unfold cancelPreparingRun
  refine follows_perform_bind.mpr ⟨trivial, ?_⟩
  rintro (_ | ⟨id, run⟩) b₁ ⟨⟩
  · exact ⟨fun _ => by simp [Settled], by simp, by simp⟩
  · by_cases hstep : run.step = .prepareNodes
    · simp only [hstep, ne_eq, not_true_eq_false, if_false]
      rw [follows_bind]
      refine follows_mono ?_ (follows_endRun run _ rfl (by simp) (fun _ => rfl))
      rintro b' (_ | _) hb'
      · exact ⟨fun _ => by simp [Settled, hb'], by simp, by simp⟩
      · refine ⟨fun _ => by simp [Settled, hb'], ?_, by simp⟩
        rintro r ⟨⟩
        exact ⟨.cancelled, hb', fun _ => rfl⟩
    · simp only [hstep, ne_eq, not_false_eq_true, if_true]
      exact ⟨fun _ => by simp [Settled], by simp, by simp⟩

theorem follows_abortActiveRun (message : String) :
    Follows orderly (Outcome (.abort message)) (abortActiveRun message) ⟨.unended, none⟩ := by
  unfold abortActiveRun
  refine follows_perform_bind.mpr ⟨trivial, ?_⟩
  rintro (_ | ⟨id, run⟩) b₁ ⟨⟩
  · exact ⟨fun _ => by simp [Settled], by simp, by simp⟩
  · rw [follows_bind]
    refine follows_mono ?_ (follows_endRun run _ ?_ (by simp) (by simp))
    · rintro b' (_ | _) hb'
      · exact ⟨fun _ => by simp [Settled, hb'], by simp, by simp⟩
      · refine ⟨fun _ => by simp [Settled, hb'], ?_, by simp⟩
        rintro r ⟨⟩
        exact ⟨.rolledBack, hb', by simp⟩
    · rfl

theorem follows_program (kind : Kind) :
    Follows orderly (Outcome kind) (program kind) ⟨.unended, none⟩ := by
  cases kind with
  | tick => exact follows_tick
  | cancel => exact follows_cancelPreparingRun
  | abort message => exact follows_abortActiveRun message
  | start input => exact follows_startUpgradeRun input

end Insula.PlatformUpgrade
