import Insula.Javascript
import Insula.Program

/-!
# The rows, the Plans and the operations of an upgrade run

The world an upgrade run works on (`platform-upgrades/run`): the rows of `platform_upgrade_runs`,
numbered in the order they were inserted, and the upgrade controller's Plans. Each operation is one
database statement or one cluster call of `run/store.ts`, `run/real.ts` and `run/k8s.ts`. What the
cluster reports (the node facts, statuses and jobs, assessed per node; where the services stand; the
clock) is left to the answer, as is whether a Plan could be applied or deleted.

The journal records who took up, moved, ended, re-pinned and finalised a run. No code reads it.
-/

namespace Insula.PlatformUpgrade

inductive RunStatus
  | running
  | succeeded
  | failed
  | cancelled
  | rolledBack
  deriving DecidableEq

inductive RunStep
  | prepareNodes
  | updateServices
  | finish
  | upgradeKubernetes
  | done
  deriving DecidableEq

inductive NodeState
  | excluded
  | waiting
  | queued
  | updating
  | ready
  | failed
  deriving DecidableEq

structure UpgradeRunNode where
  node : String
  state : NodeState
  cliVersion : Option String
  detail : String
  hostChanges : Option (ℕ × ℕ)
  deriving DecidableEq

structure PlatformUpgradeRunRow where
  toVersion : String
  kubernetesVersion : Option String
  status : RunStatus
  step : RunStep
  nodes : List UpgradeRunNode
  message : Option String
  stepStartedAt : ℤ
  finishedAt : Option ℤ
  deriving DecidableEq

structure NewRunInput where
  toVersion : String
  kubernetesVersion : Option String
  deriving DecidableEq

/-- `none` leaves the column as it is. -/
structure RunPatch where
  status : Option RunStatus := none
  step : Option RunStep := none
  nodes : Option (List UpgradeRunNode) := none
  message : Option (Option String) := none
  stepStartedAt : Option ℤ := none
  finishedAt : Option ℤ := none
  deriving DecidableEq

def RunPatch.set (patch : RunPatch) (row : PlatformUpgradeRunRow) : PlatformUpgradeRunRow where
  toVersion := row.toVersion
  kubernetesVersion := row.kubernetesVersion
  status := patch.status.getD row.status
  step := patch.step.getD row.step
  nodes := patch.nodes.getD row.nodes
  message := patch.message.getD row.message
  stepStartedAt := patch.stepStartedAt.getD row.stepStartedAt
  finishedAt := patch.finishedAt.or row.finishedAt

/-- The node Plans of `NODE_PLAN_KINDS` and the Plans of `K3S_PLAN_NAMES`. -/
inductive PlanName
  | nodeUpdate
  | nodeFinish
  | k3sServer
  | k3sAgent
  deriving DecidableEq

structure ServicesState where
  pending : Option String
  installed : Option String
  deriving DecidableEq

inductive ApplyAnswer
  | ok
  | failed (reason : Option String) (landed : Bool)
  deriving DecidableEq

structure RepinAnswer where
  applied : Bool
  summary : String
  deriving DecidableEq

inductive Op
  | now
  | getActiveRun
  | createRun (input : NewRunInput)
  | updateRun (run : ℕ) (nodes : List UpgradeRunNode)
  | transitionRun (run : ℕ) (fromStep : Option RunStep) (patch : RunPatch)
  /-- The nodes with their statuses and jobs, each through `assessRunNode`. -/
  | assessRunNodes (run : ℕ) (step : RunStep)
  /-- The nodes through `assessKubernetesNode`, each with its active jobs. -/
  | assessKubernetesNodes (run : ℕ)
  | planExists (plan : PlanName)
  | applyPlan (run : ℕ) (plan : PlanName)
  /-- `buildRunK3sPlans` from the nodes' versions, which may refuse. -/
  | buildRunK3sPlans (run : ℕ)
  | deletePlan (plan : PlanName)
  /-- A delete of `endRun`, which goes on when it fails. -/
  | clearPlan (run : ℕ) (plan : PlanName)
  | servicesState
  | startServices (run : ℕ)
  | finalize (run : ℕ) (status : RunStatus) (message : Option String)
  | progress (run : ℕ) (pct : ℤ) (text : String)
  deriving DecidableEq

abbrev Ans : Op → Type
  | .now => ℤ
  | .getActiveRun => Option (ℕ × PlatformUpgradeRunRow)
  | .createRun _ => Option (ℕ × PlatformUpgradeRunRow)
  | .updateRun _ _ => Unit
  | .transitionRun _ _ _ => Bool
  | .assessRunNodes _ _ => List UpgradeRunNode
  | .assessKubernetesNodes _ => List (UpgradeRunNode × ℕ)
  | .planExists _ => Bool
  | .applyPlan _ _ => ApplyAnswer
  | .buildRunK3sPlans _ => Option (Option String)
  | .deletePlan _ => Unit
  | .clearPlan _ _ => Bool
  | .servicesState => ServicesState
  | .startServices _ => RepinAnswer
  | .finalize _ _ _ => Unit
  | .progress _ _ _ => Unit

inductive Effect
  /-- A call has read, or made, the row of the run, in this step. -/
  | took (run : ℕ) (step : RunStep)
  | moved (run : ℕ) (step : RunStep)
  | ended (run : ℕ) (status : RunStatus)
  | repinned (run : ℕ)
  | cleared (run : ℕ) (plan : PlanName)
  | finalized (run : ℕ)
  deriving DecidableEq

structure World where
  rows : List PlatformUpgradeRunRow
  /-- By Plan: the run it was applied for. -/
  plans : PlanName → Option ℕ
  journal : List (ℕ × Effect)

namespace World

def activeRun (w : World) : Option (ℕ × PlatformUpgradeRunRow) :=
  (w.rows.zipIdx.find? fun r => r.1.status = .running).map fun r => (r.2, r.1)

def setPlan (w : World) (plan : PlanName) (run : Option ℕ) : World :=
  { w with plans := Function.update w.plans plan run }

def log (w : World) (i : ℕ) (e : Effect) : World := { w with journal := w.journal ++ [(i, e)] }

def take (w : World) (i : ℕ) : Option (ℕ × PlatformUpgradeRunRow) → World
  | some (run, row) => w.log i (.took run row.step)
  | none => w

def setRow (w : World) (run : ℕ) (row : PlatformUpgradeRunRow) : World :=
  { w with rows := w.rows.set run row }

end World

def newRow (input : NewRunInput) (now : ℤ) : PlatformUpgradeRunRow where
  toVersion := input.toVersion
  kubernetesVersion := input.kubernetesVersion
  status := .running
  step := .prepareNodes
  nodes := []
  message := none
  stepStartedAt := now
  finishedAt := none

/-- The partial unique index lets one run be running: a second insert is refused. -/
def createRun (w : World) (input : NewRunInput) :
    Option (ℕ × PlatformUpgradeRunRow) → Option World
  | none => if w.activeRun.isSome then some w else none
  | some (run, row) =>
    if w.activeRun = none ∧ run = w.rows.length ∧ row = newRow input row.stepStartedAt then
      some { w with rows := w.rows ++ [row] }
    else none

def updateRun (w : World) (run : ℕ) (patch : RunPatch) : World :=
  match w.rows[run]? with
  | some row => w.setRow run (patch.set row)
  | none => w

def RunPatch.effect (patch : RunPatch) (run : ℕ) : List Effect :=
  match patch.status, patch.step with
  | some status, _ => [.ended run status]
  | none, some step => [.moved run step]
  | none, none => []

def transitionAllowed (row : PlatformUpgradeRunRow) (fromStep : Option RunStep) : Bool :=
  decide (row.status = .running) && fromStep.all (fun s => decide (row.step = s))

def transitionRun (w : World) (i run : ℕ) (fromStep : Option RunStep) (patch : RunPatch) :
    World × Bool :=
  match w.rows[run]? with
  | some row =>
    if transitionAllowed row fromStep then
      ({ w.setRow run (patch.set row) with
        journal := w.journal ++ (patch.effect run).map fun e => (i, e) }, true)
    else (w, false)
  | none => (w, false)

/-- What the operation does when it is answered so; `none` where that answer cannot be. -/
def handle (w : World) (i : ℕ) : (o : Op) → Ans o → Option World
  | .now, _ => some w
  | .getActiveRun, r => if r = w.activeRun then some (w.take i r) else none
  | .createRun input, r => (createRun w input r).map fun w' => w'.take i r
  | .updateRun run nodes, _ => some (updateRun w run { nodes := some nodes })
  | .transitionRun run fromStep patch, won =>
    let r := transitionRun w i run fromStep patch
    if won = r.2 then some r.1 else none
  | .assessRunNodes _ _, _ => some w
  | .assessKubernetesNodes _, _ => some w
  | .planExists plan, b => if b = (w.plans plan).isSome then some w else none
  | .applyPlan run plan, .ok => some (w.setPlan plan (some run))
  | .applyPlan run plan, .failed _ landed =>
    some (if landed then w.setPlan plan (some run) else w)
  | .buildRunK3sPlans _, _ => some w
  | .deletePlan plan, _ => some (w.setPlan plan none)
  | .clearPlan run plan, ok =>
    some ((if ok then w.setPlan plan none else w).log i (.cleared run plan))
  | .servicesState, _ => some w
  | .startServices run, _ => some (w.log i (.repinned run))
  | .finalize run _ _, _ => some (w.log i (.finalized run))
  | .progress _ _ _, _ => some w

end Insula.PlatformUpgrade
