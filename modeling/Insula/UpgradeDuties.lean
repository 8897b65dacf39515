import Insula.UpgradeMonotone

/-!
# Which call is to delete a Plan

A tick or a start tends its run: between its own operations it knows which step the run is in and
which of the run's Plans may exist, leaves behind only those that belong to the step, and ends the
run only when none is left. A cancel or a rollback that has ended a run owes the deletion of all the
Plans the run may have, as far as its own copy of the row tells.
-/

namespace Insula.PlatformUpgrade

open Transition Lookup Concurrent Javascript
open Program hiding pure bind

def PlanName.isK3s : PlanName → Bool
  | .k3sServer | .k3sAgent => true
  | _ => false

def RunStep.plans : RunStep → List PlanName
  | .prepareNodes => [.nodeUpdate]
  | .updateServices => []
  | .finish => [.nodeFinish]
  | .upgradeKubernetes => [.k3sServer, .k3sAgent]
  | .done => []

/-- The Plans `endRun` deletes, by its copy of the row. -/
def clearedBy (copy : PlatformUpgradeRunRow) : List PlanName :=
  if copy.step = .upgradeKubernetes ∧ truthy copy.kubernetesVersion = true then
    [.nodeUpdate, .nodeFinish, .k3sServer, .k3sAgent]
  else [.nodeUpdate, .nodeFinish]

inductive Duty
  /-- No run taken up yet; a tick and a start will tend it, a cancel and a rollback end it. -/
  | idle (tends : Bool)
  | tending (run : ℕ) (kube : Bool) (step : RunStep) (may : List PlanName)
  /-- It has found, or brought about, the end of its run, and leaves no Plan. -/
  | settled (run : ℕ)
  | ending (run : ℕ) (copy : PlatformUpgradeRunRow)
  | clearing (run : ℕ) (owes : List PlanName)

def tidyAllowed : Duty → Op → Prop
  | .idle _, .getActiveRun => True
  | .idle tends, .createRun _ => tends = true
  | .tending run _ step _, .applyPlan run' plan =>
    run' = run ∧ (plan.isK3s = true → step = .upgradeKubernetes)
  | .tending run kube step may, .transitionRun run' fromStep patch =>
    run' = run ∧ (∀ st, fromStep = some st → st = step) ∧ match patch.status, patch.step with
      | some _, _ => may = []
      | none, some step' =>
        (∀ plan ∈ may, plan.isK3s = false) ∧ (step' = .upgradeKubernetes → kube = true)
      | none, none => True
  | .ending run _, .transitionRun run' _ patch => run' = run ∧ patch.step = none ∧ patch.status ≠ none
  | .clearing run owes, .clearPlan run' plan => run' = run ∧ plan ∈ owes
  | .tending run _ _ _, .buildRunK3sPlans run' => run' = run
  | _, .getActiveRun | _, .createRun _ | _, .applyPlan _ _ | _, .transitionRun _ _ _ |
    _, .clearPlan _ _ | _, .buildRunK3sPlans _ => False
  | _, _ => True

def tidyNext : Duty → (o : Op) → Ans o → Option Duty
  | .idle true, .getActiveRun, some (run, row) =>
    some (.tending run (truthy row.kubernetesVersion) row.step row.step.plans)
  | .idle false, .getActiveRun, some (run, row) => some (.ending run row)
  | .idle _, .createRun _, some (run, row) =>
    some (.tending run (truthy row.kubernetesVersion) .prepareNodes [])
  | .tending run kube step may, .applyPlan _ plan, .ok =>
    some (.tending run kube step (plan :: may))
  | .tending run kube step may, .applyPlan _ plan, .failed _ false =>
    some (.tending run kube step (if plan.isK3s then may.filter (!·.isK3s) else may))
  | .tending _ _ _ _, .applyPlan _ _, .failed _ true => none
  | .tending run kube step may, .buildRunK3sPlans _, some _ =>
    some (.tending run kube step (may.filter (!·.isK3s)))
  | .tending run kube step may, .deletePlan plan, _ =>
    some (.tending run kube step (may.filter (· ≠ plan)))
  | .tending run kube step may, .transitionRun _ _ patch, true =>
    match patch.status, patch.step with
    | some _, _ => some (.settled run)
    | none, some step' => some (.tending run kube step' may)
    | none, none => some (.tending run kube step may)
  | .tending run _ _ _, .transitionRun _ _ _, false => some (.settled run)
  | .ending run copy, .transitionRun _ _ _, true => some (.clearing run (clearedBy copy))
  | .ending run _, .transitionRun _ _ _, false => some (.settled run)
  | .clearing run owes, .clearPlan _ plan, true => some (.clearing run (owes.filter (· ≠ plan)))
  | .clearing _ _, .clearPlan _ _, false => none
  | d, _, _ => some d

def tidy : Discipline Op Ans Duty := ⟨tidyAllowed, tidyNext⟩

def Done : Duty → Prop
  | .tending _ _ step may => ∀ plan ∈ may, plan ∈ step.plans
  | .clearing _ owes => owes = []
  | _ => True

variable {id : ℕ} {kube : Bool} {st : RunStep} {may : List PlanName} {d : Duty} {α : Type}
  {Q : Duty → α → Prop}

def Op.plain : Op → Bool
  | .now | .updateRun _ _ | .assessRunNodes _ _ | .assessKubernetesNodes _ | .planExists _ |
    .servicesState | .startServices _ | .finalize _ _ _ | .progress _ _ _ => true
  | _ => false

theorem tidy_quiet {o : Op} (ho : o.plain = true) : tidy.Quiet o := by
  intro d
  cases o <;> cases ho
  all_goals rcases d with (_ | _) | _ | _ | _ | _ <;> exact ⟨trivial, fun _ => rfl⟩

theorem tidy_quiet_bind {o : Op} (ho : o.plain = true) {f : Ans o → Call α}
    (h : ∀ r, Follows tidy Q (f r) d) : Follows tidy Q (ask o >>= f) d :=
  follows_quiet_bind (tidy_quiet ho) h

theorem tidy_deletePlan_bind {plan : PlanName} {f : Unit → Call α}
    (h : Follows tidy Q (f ()) (.tending id kube st (may.filter (· ≠ plan)))) :
    Follows tidy Q (ask (.deletePlan plan) >>= f) (.tending id kube st may) := by
  refine follows_perform_bind.mpr ⟨trivial, ?_⟩
  rintro _ d' ⟨⟩
  exact h

theorem tidy_fail (message : String) :
    Follows tidy (fun d' _ => d' = .settled id) (fail id message) (.tending id kube st []) := by
  unfold fail
  refine tidy_quiet_bind rfl fun t => ?_
  refine follows_perform_bind.mpr ⟨⟨rfl, by simp, rfl⟩, ?_⟩
  rintro (_ | _) d' ⟨⟩
  · simp
  · exact follows_quiet (tidy_quiet rfl) fun _ => rfl

theorem tidy_fail_bind {message : String} {f : Unit → α} :
    Follows tidy (fun d' _ => Done d') (fail id message >>= fun u => Pure.pure (f u))
      (.tending id kube st []) := by
  rw [follows_bind]
  refine follows_mono ?_ (tidy_fail message)
  rintro d' u rfl
  trivial

theorem tidy_startServices_bind {f : Bool → α} :
    Follows tidy (fun d' _ => Done d') (startServices id >>= fun u => Pure.pure (f u))
      (.tending id kube st []) := by
  rw [follows_bind]
  unfold startServices
  refine tidy_quiet_bind rfl fun r => ?_
  split_ifs
  · simp [Done]
  · exact tidy_fail_bind

theorem tidy_updateView {run : PlatformUpgradeRunRow} {view : List UpgradeRunNode} :
    Follows tidy (fun d' _ => d' = d) (updateView id run view) d := by
  unfold updateView
  split_ifs
  · rfl
  · exact follows_quiet (tidy_quiet rfl) fun _ => rfl

theorem tidy_nodeView {run : PlatformUpgradeRunRow} {step : RunStep} :
    Follows tidy (fun d' _ => d' = d) (nodeView id run step) d := by
  unfold nodeView
  refine tidy_quiet_bind rfl fun view => ?_
  rw [follows_bind]
  exact follows_mono (fun _ _ h => h) tidy_updateView

theorem tidy_enteringView {step : RunStep} :
    Follows tidy (fun d' _ => d' = d) (enteringView id step) d := by
  unfold enteringView
  split
  · exact tidy_quiet_bind rfl fun nodes => rfl
  · exact follows_quiet (tidy_quiet rfl) fun _ => rfl

theorem tidy_bind_of_same {β : Type} {Q : Duty → β → Prop} {p : Call α} {f : α → Call β}
    (hp : Follows tidy (fun d' _ => d' = d) p d) (hf : ∀ a, Follows tidy Q (f a) d) :
    Follows tidy Q (p >>= f) d := by
  rw [follows_bind]
  refine follows_mono ?_ hp
  rintro d' a rfl
  exact hf a

theorem tidy_advancePrepare (run : PlatformUpgradeRunRow) (elapsed : ℤ) :
    Follows tidy (fun d' _ => Done d') (advancePrepare id run elapsed)
      (.tending id kube .prepareNodes [.nodeUpdate]) := by
  unfold advancePrepare
  refine tidy_bind_of_same tidy_nodeView fun v => tidy_quiet_bind rfl fun _ => ?_
  split_ifs
  · exact tidy_deletePlan_bind tidy_fail_bind
  · refine tidy_quiet_bind rfl fun s => tidy_quiet_bind rfl fun t => ?_
    refine follows_perform_bind.mpr ⟨⟨rfl, by simp, by simp [PlanName.isK3s], by simp⟩, ?_⟩
    rintro (_ | _) d' ⟨⟩
    · simp [Done]
    · apply tidy_deletePlan_bind
      by_cases hs : s.installed = some run.toVersion ∨ s.pending = some run.toVersion
      · rw [if_pos hs]
        simp [Done]
      · rw [if_neg hs]
        exact tidy_startServices_bind
  · exact tidy_deletePlan_bind tidy_fail_bind
  · simp [Done, RunStep.plans]

theorem tidy_advanceServices (run : PlatformUpgradeRunRow) :
    Follows tidy (fun d' _ => Done d') (advanceServices id run)
      (.tending id kube .updateServices []) := by
  unfold advanceServices
  refine tidy_quiet_bind rfl fun s => ?_
  split_ifs
  · simp [Done]
  · exact tidy_startServices_bind
  · refine follows_perform_bind.mpr ⟨⟨rfl, by simp [PlanName.isK3s]⟩, ?_⟩
    rintro (_ | ⟨reason, _ | _⟩) d' ⟨⟩
    · refine tidy_bind_of_same tidy_enteringView fun nodes => tidy_quiet_bind rfl fun t => ?_
      refine follows_perform_bind.mpr ⟨⟨rfl, by simp, by simp [PlanName.isK3s], by simp⟩, ?_⟩
      rintro (_ | _) d' ⟨⟩ <;> simp [Done, RunStep.plans]
    · exact tidy_fail_bind

theorem tidy_applyKubernetesPlans (hmay : ∀ plan ∈ may, plan ∈ RunStep.upgradeKubernetes.plans) :
    Follows tidy (fun d' applied => ∃ may', d' = .tending id kube .upgradeKubernetes may' ∧
        (∀ plan ∈ may', plan ∈ RunStep.upgradeKubernetes.plans) ∧
          (applied ≠ .ok → may' = []))
      (applyKubernetesPlans id) (.tending id kube .upgradeKubernetes may) := by
  have hnone : may.filter (!·.isK3s) = [] := by
    rw [List.filter_eq_nil_iff]
    intro plan hplan
    have hk := hmay plan hplan
    simp only [RunStep.plans, List.mem_cons, List.not_mem_nil, or_false] at hk
    rcases hk with rfl | rfl <;> simp [PlanName.isK3s]
  unfold applyKubernetesPlans
  refine follows_perform_bind.mpr ⟨rfl, ?_⟩
  rintro (_ | reason) d' ⟨⟩
  · refine follows_perform_bind.mpr ⟨⟨rfl, fun _ => rfl⟩, ?_⟩
    rintro (_ | ⟨reason, _ | _⟩) d' ⟨⟩
    · refine follows_perform.mpr ⟨⟨rfl, fun _ => rfl⟩, ?_⟩
      rintro (_ | ⟨reason, _ | _⟩) d' ⟨⟩
      · refine ⟨_, rfl, ?_, by simp⟩
        intro plan hplan
        rcases List.mem_cons.mp hplan with rfl | hplan
        · simp [RunStep.plans]
        · rcases List.mem_cons.mp hplan with rfl | hplan
          · simp [RunStep.plans]
          · exact hmay plan hplan
      · refine ⟨[], congrArg (Duty.tending id kube _) ?_, by simp, fun _ => rfl⟩
        change (PlanName.k3sServer :: may).filter (!·.isK3s) = []
        rw [List.filter_cons_of_neg (by decide), hnone]
    · exact ⟨[], congrArg (Duty.tending id kube _) hnone, by simp, fun _ => rfl⟩
  · refine ⟨_, rfl, ?_⟩
    simp [hnone]

theorem tidy_deleteKubernetesPlans_bind {f : Unit → Call α}
    (hmay : ∀ plan ∈ may, plan ∈ RunStep.upgradeKubernetes.plans)
    (h : Follows tidy Q (f ()) (.tending id kube st [])) :
    Follows tidy Q (deleteKubernetesPlans >>= f) (.tending id kube st may) := by
  rw [follows_bind]
  refine tidy_deletePlan_bind (follows_perform.mpr ⟨trivial, ?_⟩)
  rintro _ d' ⟨⟩
  have hnone : (may.filter (· ≠ .k3sServer)).filter (· ≠ .k3sAgent) = [] := by
    rw [List.filter_eq_nil_iff]
    intro plan hplan
    obtain ⟨hplan, hserver⟩ := List.mem_filter.mp hplan
    have hk := hmay plan hplan
    simp only [RunStep.plans, List.mem_cons, List.not_mem_nil, or_false] at hk
    rcases hk with rfl | rfl
    · simp at hserver
    · simp
  rw [hnone]
  exact h

theorem tidy_succeed {t : ℤ} {a : RunStep} :
    Follows tidy (fun d' _ => Done d') (do
      let won ← ask (.transitionRun id (some st)
        { status := some .succeeded, step := some .done, finishedAt := some t,
          message := some none })
      if won then do
        ask (.finalize id .succeeded none)
        Pure.pure a
      else Pure.pure a) (.tending id kube st []) := by
  refine follows_perform_bind.mpr ⟨⟨rfl, by simp, rfl⟩, ?_⟩
  rintro (_ | _) d' ⟨⟩
  · simp [Done]
  · exact tidy_quiet_bind rfl fun _ => by simp [Done]

theorem tidy_startKubernetes {message : Option String → String} {a a' : RunStep}
    (hmay : ∀ plan ∈ may, plan ∈ RunStep.upgradeKubernetes.plans) :
    Follows tidy (fun d' _ => Done d') (do
      match ← applyKubernetesPlans id with
      | .failed reason _ => do
          fail id (message reason)
          Pure.pure a
      | .ok => Pure.pure a') (.tending id kube .upgradeKubernetes may) := by
  rw [follows_bind]
  refine follows_mono ?_ (tidy_applyKubernetesPlans hmay)
  rintro d' (_ | ⟨reason, landed⟩) ⟨may', rfl, hsub, hfail⟩
  · exact hsub
  · rw [hfail (by simp)]
    exact tidy_fail_bind

theorem tidy_advanceFinish (run : PlatformUpgradeRunRow) (elapsed : ℤ)
    (hkube : kube = truthy run.kubernetesVersion) :
    Follows tidy (fun d' _ => Done d') (advanceFinish id run elapsed)
      (.tending id kube .finish [.nodeFinish]) := by
  unfold advanceFinish
  refine tidy_bind_of_same tidy_nodeView fun v => tidy_quiet_bind rfl fun _ => ?_
  split_ifs with hfailed hready htruthy
  · exact tidy_deletePlan_bind tidy_fail_bind
  · refine tidy_deletePlan_bind (tidy_bind_of_same tidy_enteringView fun nodes => ?_)
    refine tidy_quiet_bind rfl fun t => ?_
    refine follows_perform_bind.mpr ⟨⟨rfl, by simp, by simp, fun _ => hkube.trans htruthy⟩, ?_⟩
    rintro (_ | _) d' ⟨⟩
    · simp [Done]
    · exact tidy_startKubernetes (by simp)
  · exact tidy_deletePlan_bind (tidy_quiet_bind rfl fun t => tidy_succeed)
  · exact tidy_deletePlan_bind tidy_fail_bind
  · simp [Done, RunStep.plans]

theorem tidy_advanceKubernetes (run : PlatformUpgradeRunRow) (elapsed : ℤ) :
    Follows tidy (fun d' _ => Done d') (advanceKubernetes id run elapsed)
      (.tending id kube .upgradeKubernetes RunStep.upgradeKubernetes.plans) := by
  unfold advanceKubernetes
  refine tidy_quiet_bind rfl fun server => tidy_quiet_bind rfl fun agent => ?_
  refine tidy_quiet_bind rfl fun nodes => tidy_bind_of_same tidy_updateView fun _ => ?_
  refine tidy_quiet_bind rfl fun _ => ?_
  split_ifs
  · exact tidy_startKubernetes (fun _ h => h)
  · exact tidy_deleteKubernetesPlans_bind (fun _ h => h) tidy_fail_bind
  · exact tidy_deleteKubernetesPlans_bind (fun _ h => h) (tidy_quiet_bind rfl fun t => tidy_succeed)
  · exact tidy_deleteKubernetesPlans_bind (fun _ h => h) tidy_fail_bind
  · exact fun _ h => h

theorem tidy_advanceRun (run : PlatformUpgradeRunRow) :
    Follows tidy (fun d' _ => Done d') (advanceRun id run)
      (.tending id (truthy run.kubernetesVersion) run.step run.step.plans) := by
  unfold advanceRun
  by_cases hst : run.status ≠ .running
  · rw [if_pos hst]
    exact fun _ h => h
  rw [if_neg hst]
  refine tidy_quiet_bind rfl fun now => ?_
  cases hstep : run.step with
  | prepareNodes => exact tidy_advancePrepare run _
  | updateServices => exact tidy_advanceServices run
  | finish => exact tidy_advanceFinish run _ rfl
  | upgradeKubernetes =>
    by_cases hk : truthy run.kubernetesVersion = true
    · simp only [hk, if_true]
      exact tidy_advanceKubernetes run _
    · simp only [hk]
      exact fun _ h => h
  | done => exact fun _ h => h

theorem tidy_endRun (run : PlatformUpgradeRunRow) {fromStep : Option RunStep} {status : RunStatus}
    (message : String) : Follows tidy (fun d' _ => Done d') (endRun id run fromStep status message)
      (.ending id run) := by
  unfold endRun
  refine tidy_quiet_bind rfl fun t => ?_
  refine follows_perform_bind.mpr ⟨⟨rfl, rfl, by simp⟩, ?_⟩
  rintro (_ | _) d' ⟨⟩
  · simp [Done]
  · by_cases hk : run.step = .upgradeKubernetes ∧ truthy run.kubernetesVersion = true
    · simp only [clearedBy, if_pos hk, if_true]
      refine follows_perform_bind.mpr ⟨⟨rfl, by simp⟩, ?_⟩
      rintro (_ | _) d' ⟨⟩
      refine follows_perform_bind.mpr ⟨⟨rfl, by simp⟩, ?_⟩
      rintro (_ | _) d' ⟨⟩
      refine follows_perform_bind.mpr ⟨⟨rfl, by simp⟩, ?_⟩
      rintro (_ | _) d' ⟨⟩
      refine follows_perform_bind.mpr ⟨⟨rfl, by simp⟩, ?_⟩
      rintro (_ | _) d' ⟨⟩
      exact tidy_quiet_bind rfl fun _ => by simp [Done]
    · simp only [clearedBy, if_neg hk, if_true]
      refine follows_perform_bind.mpr ⟨⟨rfl, by simp⟩, ?_⟩
      rintro (_ | _) d' ⟨⟩
      refine follows_perform_bind.mpr ⟨⟨rfl, by simp⟩, ?_⟩
      rintro (_ | _) d' ⟨⟩
      exact tidy_quiet_bind rfl fun _ => by simp [Done]

def Kind.tends : Kind → Bool
  | .tick | .start _ => true
  | _ => false

theorem tidy_program (kind : Kind) :
    Follows tidy (fun d' _ => Done d') (program kind) (.idle kind.tends) := by
  cases kind with
  | tick =>
    change Follows tidy _ tick _
    unfold tick
    refine follows_perform_bind.mpr ⟨trivial, ?_⟩
    rintro (_ | ⟨id, run⟩) d' ⟨⟩
    · simp [Done]
    · rw [follows_bind]
      exact tidy_advanceRun run
  | start input =>
    change Follows tidy _ (startUpgradeRun input) _
    unfold startUpgradeRun
    refine follows_perform_bind.mpr ⟨rfl, ?_⟩
    rintro (_ | ⟨id, run⟩) d' ⟨⟩
    · simp [Done]
    · refine follows_perform_bind.mpr ⟨⟨rfl, by simp [PlanName.isK3s]⟩, ?_⟩
      rintro (_ | ⟨reason, _ | _⟩) d' ⟨⟩
      · simp [Done, RunStep.plans]
      · refine tidy_quiet_bind rfl fun t => ?_
        refine follows_perform_bind.mpr ⟨⟨rfl, by simp, rfl⟩, ?_⟩
        rintro (_ | _) d' ⟨⟩ <;> simp [Done]
  | cancel =>
    change Follows tidy _ cancelPreparingRun _
    unfold cancelPreparingRun
    refine follows_perform_bind.mpr ⟨trivial, ?_⟩
    rintro (_ | ⟨id, run⟩) d' ⟨⟩
    · simp [Done]
    · by_cases hstep : run.step = .prepareNodes
      · simp only [hstep, ne_eq, not_true_eq_false, if_false]
        rw [follows_bind]
        exact tidy_endRun run _
      · simp only [hstep, ne_eq, not_false_eq_true, if_true]
        simp [Done]
  | abort message =>
    change Follows tidy _ (abortActiveRun message) _
    unfold abortActiveRun
    refine follows_perform_bind.mpr ⟨trivial, ?_⟩
    rintro (_ | ⟨id, run⟩) d' ⟨⟩
    · simp [Done]
    · rw [follows_bind]
      exact tidy_endRun run _

end Insula.PlatformUpgrade
