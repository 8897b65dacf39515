import Insula.UpgradeRun

/-!
# The upgrade run, one call at a time

`advanceRun` of `run/machine.ts` and the calls of `run/real.ts` that start and end a run, as
programs over the operations of `UpgradeRun`. A reconciler tick reads the active run first and
advances that copy of it later. An operation that throws uncaught stops its process, which the
concurrent semantics allows at any point.

`atBand` and the texts are the source's; `names` lists node names as it does.
-/

namespace Insula.PlatformUpgrade

open Javascript

abbrev Call (α : Type) := Program Op Ans α

abbrev ask (o : Op) : Call (Ans o) := Program.perform o

def prepareTimeoutMs : ℤ := 25 * 60 * 1000

def finishTimeoutMs : ℤ := 20 * 60 * 1000

def kubernetesTimeoutMinutes (nodeCount : ℕ) : ℕ := max 60 (20 * nodeCount)

def kubernetesTimeoutMs (nodeCount : ℕ) : ℤ := kubernetesTimeoutMinutes nodeCount * 60 * 1000

structure ProgressBands where
  prepare : ℤ × ℤ
  services : ℤ × ℤ
  finish : ℤ × ℤ
  kubernetes : ℤ × ℤ

def progressBands (run : PlatformUpgradeRunRow) : ProgressBands :=
  if truthy run.kubernetesVersion then ⟨(0, 25), (25, 50), (50, 75), (75, 100)⟩
  else ⟨(0, 33), (33, 67), (67, 100), (100, 100)⟩

def atBand (band : ℤ × ℤ) (share : ℚ) : ℤ :=
  band.1 + mathRound ((band.2 - band.1) * min (max share 0) 1)

def names (nodes : List UpgradeRunNode) : String := ", ".intercalate (nodes.map (·.node))

def firstDetail (nodes : List UpgradeRunNode) : String :=
  (nodes.head?.map (·.detail)).getD "failed"

structure NodeView where
  included : List UpgradeRunNode
  ready : List UpgradeRunNode
  failed : List UpgradeRunNode

def NodeView.of (view : List UpgradeRunNode) : NodeView :=
  let included := view.filter (·.state ≠ .excluded)
  ⟨included, included.filter (·.state = .ready), included.filter (·.state = .failed)⟩

namespace NodeView

def late (v : NodeView) : List UpgradeRunNode := v.included.filter (·.state ≠ .ready)

def share (v : NodeView) : ℚ := v.ready.length / (max v.included.length 1 : ℕ)

def count (v : NodeView) : String := toString v.ready.length ++ "/" ++ toString v.included.length

end NodeView

def updateView (id : ℕ) (run : PlatformUpgradeRunRow) (view : List UpgradeRunNode) : Call Unit :=
  if view = run.nodes then pure () else ask (.updateRun id view)

def nodeView (id : ℕ) (run : PlatformUpgradeRunRow) (step : RunStep) : Call NodeView := do
  let view ← ask (.assessRunNodes id step)
  updateView id run view
  pure (NodeView.of view)

def enteringView (id : ℕ) (step : RunStep) : Call (List UpgradeRunNode) :=
  match step with
  | .upgradeKubernetes => do
      let nodes ← ask (.assessKubernetesNodes id)
      pure (nodes.map Prod.fst)
  | _ => ask (.assessRunNodes id .finish)

def fail (id : ℕ) (message : String) : Call Unit := do
  let t ← ask .now
  let won ← ask (.transitionRun id none
    { status := some .failed, message := some (some message), finishedAt := some t })
  if won then ask (.finalize id .failed (some message)) else pure ()

def startServices (id : ℕ) : Call Bool := do
  let r ← ask (.startServices id)
  if r.applied then pure true
  else do
    fail id ("The nodes are ready, but the services were not changed: " ++ r.summary)
    pure false

def applyKubernetesPlans (id : ℕ) : Call ApplyAnswer := do
  match ← ask (.buildRunK3sPlans id) with
  | some reason => pure (.failed reason false)
  | none => do
      match ← ask (.applyPlan id .k3sServer) with
      | .failed reason landed => pure (.failed reason landed)
      | .ok => ask (.applyPlan id .k3sAgent)

def deleteKubernetesPlans : Call Unit := do
  ask (.deletePlan .k3sServer)
  ask (.deletePlan .k3sAgent)

def couldNotStartKubernetes (target : String) (reason : Option String) : String :=
  "The services and host changes run " ++ target ++
    ", but the Kubernetes step could not start: " ++ reason.getD "unknown" ++ "."

def advancePrepare (id : ℕ) (run : PlatformUpgradeRunRow) (elapsed : ℤ) : Call RunStep := do
  let v ← nodeView id run .prepareNodes
  ask (.progress id (atBand (progressBands run).prepare v.share)
    ("Preparing nodes " ++ v.count))
  if v.failed ≠ [] then do
    ask (.deletePlan .nodeUpdate)
    fail id ("Stopped before the services changed: " ++ names v.failed ++ " — " ++
      firstDetail v.failed ++ ". The services still run the previous release.")
    pure run.step
  else if v.ready.length = v.included.length then do
    let s ← ask .servicesState
    let t ← ask .now
    let won ← ask (.transitionRun id (some .prepareNodes)
      { step := some .updateServices, stepStartedAt := some t, message := some none })
    if won then do
      ask (.deletePlan .nodeUpdate)
      if s.installed = some run.toVersion ∨ s.pending = some run.toVersion then
        pure .updateServices
      else do
        let applied ← startServices id
        pure (if applied then .updateServices else run.step)
    else pure run.step
  else if prepareTimeoutMs < elapsed then do
    ask (.deletePlan .nodeUpdate)
    fail id ("Nodes did not finish preparing within 25 minutes: " ++ names v.late ++
      ". The services still run the previous release.")
    pure run.step
  else pure run.step

def advanceServices (id : ℕ) (run : PlatformUpgradeRunRow) : Call RunStep := do
  let s ← ask .servicesState
  if s.pending.isSome then pure run.step
  else if s.installed ≠ some run.toVersion then do
    let _ ← startServices id
    pure run.step
  else do
    match ← ask (.applyPlan id .nodeFinish) with
    | .failed reason _ => do
        fail id ("The services run " ++ run.toVersion ++
          ", but the after-services host changes could not be started: " ++
            reason.getD "unknown" ++ ".")
        pure run.step
    | .ok => do
        let nodes ← enteringView id .finish
        let t ← ask .now
        let won ← ask (.transitionRun id (some .updateServices)
          { step := some .finish, stepStartedAt := some t, message := some none,
            nodes := some nodes })
        pure (if won then .finish else run.step)

def advanceFinish (id : ℕ) (run : PlatformUpgradeRunRow) (elapsed : ℤ) : Call RunStep := do
  let v ← nodeView id run .finish
  ask (.progress id (atBand (progressBands run).finish v.share)
    ("Finishing host changes " ++ v.count))
  if v.failed ≠ [] then do
    ask (.deletePlan .nodeFinish)
    fail id ("The services run " ++ run.toVersion ++
      ". Host changes after the services failed on " ++ names v.failed ++ " — " ++
        firstDetail v.failed ++ ".")
    pure run.step
  else if v.ready.length = v.included.length then do
    ask (.deletePlan .nodeFinish)
    if truthy run.kubernetesVersion then do
      let nodes ← enteringView id .upgradeKubernetes
      let t ← ask .now
      let won ← ask (.transitionRun id (some .finish)
        { step := some .upgradeKubernetes, stepStartedAt := some t, message := some none,
          nodes := some nodes })
      if won then do
        match ← applyKubernetesPlans id with
        | .failed reason _ => do
            fail id (couldNotStartKubernetes run.toVersion reason)
            pure .upgradeKubernetes
        | .ok => pure .upgradeKubernetes
      else pure run.step
    else do
      let t ← ask .now
      let won ← ask (.transitionRun id (some .finish)
        { status := some .succeeded, step := some .done, finishedAt := some t,
          message := some none })
      if won then do
        ask (.finalize id .succeeded none)
        pure .done
      else pure .done
  else if finishTimeoutMs < elapsed then do
    ask (.deletePlan .nodeFinish)
    fail id ("The services run " ++ run.toVersion ++
      ", but host changes did not finish within 20 minutes on " ++ names v.late ++
        ". They retry on the node's hourly converge.")
    pure run.step
  else pure run.step

def advanceKubernetes (id : ℕ) (run : PlatformUpgradeRunRow) (elapsed : ℤ) : Call RunStep := do
  let k8sTarget := run.kubernetesVersion.getD ""
  let server ← ask (.planExists .k3sServer)
  let agent ← ask (.planExists .k3sAgent)
  let nodes ← ask (.assessKubernetesNodes id)
  updateView id run (nodes.map Prod.fst)
  let v := NodeView.of (nodes.map Prod.fst)
  ask (.progress id (atBand (progressBands run).kubernetes v.share)
    ("Kubernetes " ++ k8sTarget ++ " " ++ v.count))
  if v.ready.length < v.included.length ∧ v.failed = [] ∧ (server && agent) = false then do
    match ← applyKubernetesPlans id with
    | .failed reason _ => do
        fail id (couldNotStartKubernetes run.toVersion reason)
        pure run.step
    | .ok => pure run.step
  else if v.failed ≠ [] then do
    deleteKubernetesPlans
    fail id ("The services and host changes run " ++ run.toVersion ++
      ". The Kubernetes upgrade to " ++ k8sTarget ++ " stopped on " ++ names v.failed ++ " — " ++
        firstDetail v.failed)
    pure run.step
  else if v.ready.length = v.included.length then do
    deleteKubernetesPlans
    let t ← ask .now
    let won ← ask (.transitionRun id (some .upgradeKubernetes)
      { status := some .succeeded, step := some .done, finishedAt := some t,
        message := some none })
    if won then do
      ask (.finalize id .succeeded none)
      pure .done
    else pure .done
  else if kubernetesTimeoutMs v.included.length < elapsed ∧
      (nodes.all fun n => n.1.state = .excluded || n.2 = 0) = true then do
    deleteKubernetesPlans
    fail id ("The services and host changes run " ++ run.toVersion ++
      ", but Kubernetes did not reach " ++ k8sTarget ++ " within " ++
        toString (kubernetesTimeoutMinutes v.included.length) ++ " minutes on " ++
          names v.late ++ ".")
    pure run.step
  else pure run.step

/-- Advance the run, as the copy `run` of its row has it, by one step if its condition is met. -/
def advanceRun (id : ℕ) (run : PlatformUpgradeRunRow) : Call RunStep :=
  if run.status ≠ .running then pure run.step
  else do
    let now ← ask .now
    let elapsed := now - run.stepStartedAt
    match run.step with
    | .prepareNodes => advancePrepare id run elapsed
    | .updateServices => advanceServices id run
    | .finish => advanceFinish id run elapsed
    | .upgradeKubernetes =>
      if truthy run.kubernetesVersion then advanceKubernetes id run elapsed else pure run.step
    | .done => pure run.step

structure ApiError where
  code : String
  message : String
  status : ℕ
  deriving DecidableEq

inductive Result
  | idle
  | advanced (step : RunStep)
  | started (run : ℕ) (status : RunStatus)
  | ended (run : ℕ)
  | threw (err : ApiError)
  deriving DecidableEq

def tick : Call Result := do
  match ← ask .getActiveRun with
  | none => pure .idle
  | some (id, run) => do
      let step ← advanceRun id run
      pure (.advanced step)

def startUpgradeRun (input : NewRunInput) : Call Result := do
  match ← ask (.createRun input) with
  | none => pure (.threw ⟨"UPGRADE_ALREADY_RUNNING", "An upgrade is already running — wait for it " ++
      "to finish (Platform → Updates shows its progress).", 409⟩)
  | some (id, run) => do
      match ← ask (.applyPlan id .nodeUpdate) with
      | .ok => pure (.started id run.status)
      | .failed reason _ => do
          let t ← ask .now
          let _ ← ask (.transitionRun id none
            { status := some .failed,
              message := some (some ("Could not start the node update: " ++
                reason.getD "unknown" ++ ". Nothing was changed.")),
              finishedAt := some t })
          pure (.started id .failed)

/-- End the run (only if still in `fromStep`, when given), then stop its Plans. -/
def endRun (id : ℕ) (run : PlatformUpgradeRunRow) (fromStep : Option RunStep) (status : RunStatus)
    (message : String) : Call Bool := do
  let t ← ask .now
  let won ← ask (.transitionRun id fromStep
    { status := some status, message := some (some message), finishedAt := some t })
  if won then do
    let _ ← ask (.clearPlan id .nodeUpdate)
    let _ ← ask (.clearPlan id .nodeFinish)
    if run.step = .upgradeKubernetes ∧ truthy run.kubernetesVersion = true then do
      let _ ← ask (.clearPlan id .k3sServer)
      let _ ← ask (.clearPlan id .k3sAgent)
      ask (.finalize id .cancelled (some message))
      pure true
    else do
      ask (.finalize id .cancelled (some message))
      pure true
  else pure false

def pastPrepare : ApiError :=
  ⟨"UPGRADE_RUN_PAST_PREPARE", "The services are already updating — use the rollback to go back.",
    409⟩

def cancelledMessage : String :=
  "Cancelled by an operator before the services changed. The services still run the previous " ++
    "release."

def cancelPreparingRun : Call Result := do
  match ← ask .getActiveRun with
  | none => pure (.threw ⟨"UPGRADE_RUN_NOT_FOUND", "No upgrade is running.", 404⟩)
  | some (id, run) =>
    if run.step ≠ .prepareNodes then pure (.threw pastPrepare)
    else do
      let ended ← endRun id run (some .prepareNodes) .cancelled cancelledMessage
      pure (if ended then .ended id else .threw pastPrepare)

def abortActiveRun (message : String) : Call Result := do
  match ← ask .getActiveRun with
  | none => pure .idle
  | some (id, run) => do
      let ended ← endRun id run none .rolledBack message
      pure (if ended then .ended id else .idle)

inductive Kind
  | tick
  | cancel
  | abort (message : String)
  | start (input : NewRunInput)
  deriving DecidableEq

def program : Kind → Call Result
  | .tick => tick
  | .cancel => cancelPreparingRun
  | .abort message => abortActiveRun message
  | .start input => startUpgradeRun input

abbrev Config := Concurrent.Config World Kind Op Ans Result

abbrev Event := Concurrent.Event Kind Op Ans

/-- One operation of one call, the start of a call, or the end of one midway. -/
def step (s : Config) (e : Event) : Option Config := Concurrent.step program handle s e

/-- No call has been made yet; the rows and Plans are whatever earlier runs left. -/
def initial (rows : List PlatformUpgradeRunRow) (plans : PlanName → Option ℕ) : Config :=
  ⟨⟨rows, plans, []⟩, []⟩

end Insula.PlatformUpgrade
