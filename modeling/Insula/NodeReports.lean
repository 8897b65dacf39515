import Insula.UpgradeRun
import Insula.Versions

/-!
# What a node reports of its host changes

A node's converge reports its CLI and the state of each script. Where the node stands in a step of
an upgrade run is decided by that report first, and by the controller's job for the node after it.
-/

namespace Insula.PlatformUpgrade

open Versions
open Javascript (trim)

inductive HostMigrationPhase
  | beforeServices
  | afterServices
  deriving DecidableEq

inductive HostMigrationState
  | applied
  | alreadyApplied
  | wouldRun
  | runFailed
  | blocked
  | skipped
  | deferred
  | invalid
  deriving DecidableEq

structure HostMigrationItem where
  key : String
  state : HostMigrationState
  error : Option String
  /-- Absent from older CLIs. -/
  phase : Option HostMigrationPhase
  deriving DecidableEq

structure HostMigrationNodeStatus where
  cliVersion : Option String
  mode : Option String
  items : List HostMigrationItem

structure NodeFacts where
  name : String
  ready : Bool

structure NodeJobFacts where
  active : ℕ
  failed : ℕ
  succeeded : ℕ

def jobFailureThreshold : ℕ := 3

def base (v : String) : Option Text := (parseVersion (stripV (trim v.toList))).map ParsedVersion.base

/-- The release of a key `2026.10.7/0001-x.sh`. -/
def releaseOf (key : String) : Text := key.toList.takeWhile (· ≠ '/')

def covers (b release : Text) : Bool :=
  (parseVersion release).isSome && (compareVersions release b).isLE

def upToTarget (status : Option HostMigrationNodeStatus) (target : String) : List HostMigrationItem :=
  match status, base target with
  | some status, some b => status.items.filter fun i => covers b (releaseOf i.key)
  | _, _ => []

def doneStates : List HostMigrationState := [.applied, .alreadyApplied, .skipped]

def cliAtTarget (cliVersion : Option String) (target : String) : Bool :=
  match cliVersion with
  | none => false
  | some cli => cli ≠ "" && (parseVersion cli.toList).isSome && (parseVersion target.toList).isSome &&
      (compareVersions cli.toList target.toList).isGE

def countHostChanges (step : RunStep) (status : Option HostMigrationNodeStatus) (target : String) :
    Option (ℕ × ℕ) := do
  let status ← status
  guard (cliAtTarget status.cliVersion target)
  let b ← base target
  let items := status.items.filter fun i =>
    releaseOf i.key = b && (step = .finish || i.phase ≠ some .afterServices)
  return ((items.filter fun i => i.state ∈ doneStates).length, items.length)

def broken (i : HostMigrationItem) : Bool :=
  i.state = .runFailed || i.state = .blocked || i.state = .invalid

def pendingBefore (i : HostMigrationItem) : Bool :=
  i.state = .wouldRun && i.phase ≠ some .afterServices

def deferred (i : HostMigrationItem) : Bool := i.state = .deferred

def detailOf (error : Option String) (before after : String) : String :=
  match error with
  | some e => if e = "" then "" else before ++ e ++ after
  | none => ""

def reportDone (step : RunStep) (status : Option HostMigrationNodeStatus) (target : String) : Bool :=
  let items := upToTarget status target
  cliAtTarget (status.bind (·.cliVersion)) target && ! items.any broken && ! items.any pendingBefore &&
    (step ≠ .finish || ! items.any deferred)

def unfinished (step : RunStep) (status : Option HostMigrationNodeStatus) (job : Option NodeJobFacts)
    (target : String) : NodeState × String :=
  let items := upToTarget status target
  let cliVersion := status.bind (·.cliVersion)
  let atTarget := cliAtTarget cliVersion target
  let failed := (job.map (·.failed)).getD 0
  let waiting := (items.filter deferred).length
  if jobFailureThreshold ≤ failed then
    (.failed, match items.find? broken with
      | some i => "Host change " ++ i.key ++ " failed" ++ detailOf i.error ": " ""
      | none => "The node update failed " ++ toString failed ++
          " times — see the job log in namespace system-upgrade.")
  else if 0 < (job.map (·.succeeded)).getD 0 then
    (.updating, if atTarget then "Applying host changes…"
      else "Done on the node; waiting for its report…")
  else if 0 < (job.map (·.active)).getD 0 ∨ 0 < failed then
    (.updating, match items.find? broken with
      | some i => "Retrying: host change " ++ i.key ++ " failed" ++ detailOf i.error " (" ")" ++ "."
      | none => if atTarget then "Applying host changes…"
          else "Fetching and verifying the " ++ target ++ " CLI…")
  else if atTarget ∧ step = .finish ∧ 0 < waiting then
    (.queued, toString waiting ++ " host change(s) waiting to run now that the services are on " ++
      target ++ ".")
  else
    (.queued, if atTarget then "Waiting for its turn."
      else "On " ++ cliVersion.getD "an older CLI" ++ "; waiting for its turn.")

def readyDetail (step : RunStep) (status : Option HostMigrationNodeStatus) (target : String) : String :=
  let on := "On " ++ (status.bind (·.cliVersion)).getD "null"
  let waiting := ((upToTarget status target).filter deferred).length
  if step = .finish then on ++ "; all host changes applied."
  else on ++ "; host changes before the services applied" ++
    (if 0 < waiting then " (" ++ toString waiting ++ " wait for the services)" else "") ++ "."

def assessRunNode (step : RunStep) (node : NodeFacts) (status : Option HostMigrationNodeStatus)
    (job : Option NodeJobFacts) (target : String) (excluded : List String) : UpgradeRunNode :=
  let out (state : NodeState) (detail : String) : UpgradeRunNode :=
    ⟨node.name, state, status.bind (·.cliVersion), detail, countHostChanges step status target⟩
  if node.name ∈ excluded then
    out .excluded "Upgraded without it — it updates on its own timer when it is back."
  else if ! node.ready then
    out .waiting ("Not Ready — the upgrade waits for it. Restart the upgrade with this node excluded " ++
      "to go on without it.")
  else if reportDone step status target then out .ready (readyDetail step status target)
  else
    let (state, detail) := unfinished step status job target
    out state detail

/-! ## Ready nodes -/

section Ready

variable {step : RunStep} {node : NodeFacts} {status : Option HostMigrationNodeStatus}
  {job : Option NodeJobFacts} {target : String} {excluded : List String}

theorem unfinished_ne_ready : (unfinished step status job target).1 ≠ .ready := by
  unfold unfinished
  dsimp only
  split_ifs <;> exact NodeState.noConfusion

theorem state_eq_ready_iff : (assessRunNode step node status job target excluded).state = .ready ↔
    node.name ∉ excluded ∧ node.ready = true ∧ reportDone step status target = true := by
  unfold assessRunNode
  dsimp only
  split_ifs with hexcluded hready hdone
  · simp [hexcluded]
  · simp_all
  · simp_all
  · simp [unfinished_ne_ready, hdone]

theorem finish_done_iff : reportDone .finish status target = true ↔
    cliAtTarget (status.bind (·.cliVersion)) target = true ∧
      ∀ i ∈ upToTarget status target, broken i = false ∧ pendingBefore i = false ∧
      deferred i = false := by
  simp only [reportDone, ne_eq, not_true_eq_false, decide_false, Bool.false_or, Bool.and_eq_true,
    Bool.not_eq_true', List.any_eq_false, Bool.not_eq_true]
  constructor
  · rintro ⟨⟨⟨hcli, hbroken⟩, hpending⟩, hdeferred⟩
    exact ⟨hcli, fun i hi => ⟨hbroken i hi, hpending i hi, hdeferred i hi⟩⟩
  · rintro ⟨hcli, h⟩
    exact ⟨⟨⟨hcli, fun i hi => (h i hi).1⟩, fun i hi => (h i hi).2.1⟩, fun i hi => (h i hi).2.2⟩

/-- An item only reported as what would run after the services. -/
def WouldRunAfter (i : HostMigrationItem) : Prop := i.state = .wouldRun ∧ i.phase = some .afterServices

instance (i : HostMigrationItem) : Decidable (WouldRunAfter i) := inferInstanceAs (Decidable (_ ∧ _))

/-- The states that the filters let pass are those of finished items, and this one. -/
theorem passes_iff (i : HostMigrationItem) :
    (broken i = false ∧ pendingBefore i = false ∧ deferred i = false) ↔
      i.state ∈ doneStates ∨ WouldRunAfter i := by
  obtain ⟨key, state, error, phase⟩ := i
  cases state <;> simp [broken, pendingBefore, deferred, doneStates, WouldRunAfter]

end Ready

/-- Something else keeps a node from being ready in the last step: it is left out or not Ready, its
CLI is older than the target, or a covered item failed, is held up, or would run before the
services. -/
def KeptBack (node : NodeFacts) (status : Option HostMigrationNodeStatus) (target : String)
    (excluded : List String) : Prop :=
  node.name ∈ excluded ∨ node.ready = false ∨ cliAtTarget (status.bind (·.cliVersion)) target = false ∨
    ∃ i ∈ upToTarget status target, broken i = true ∨ pendingBefore i = true ∨ deferred i = true

/-- A node is ready in the last step only with all its host changes done, exactly when no covered
change is reported as what would run after the services, or something else keeps the node back. -/
theorem finished_has_all_changes_iff (node : NodeFacts) (status : Option HostMigrationNodeStatus)
    (job : Option NodeJobFacts) (target : String) (excluded : List String) :
    ((assessRunNode .finish node status job target excluded).state = .ready →
        ∀ i ∈ upToTarget status target, i.state ∈ doneStates) ↔
      (∀ i ∈ upToTarget status target, ¬WouldRunAfter i) ∨ KeptBack node status target excluded := by
  rw [state_eq_ready_iff, finish_done_iff]
  constructor
  · intro h
    by_cases hkept : KeptBack node status target excluded
    · exact .inr hkept
    · left
      simp only [KeptBack, not_or, not_exists, not_and, Bool.not_eq_false, Bool.not_eq_true] at hkept
      obtain ⟨hexcluded, hready, hcli, hitems⟩ := hkept
      have hdone := h ⟨hexcluded, hready, hcli, hitems⟩
      intro i hi hafter
      have hstate := hdone i hi
      rw [hafter.1] at hstate
      revert hstate
      decide
  · rintro (hnone | hkept) ⟨hexcluded, hready, hcli, hitems⟩ i hi
    · exact ((passes_iff i).mp (hitems i hi)).resolve_right (hnone i hi)
    · rcases hkept with h | h | h | ⟨j, hj, h⟩
      · exact absurd h hexcluded
      · rw [hready] at h
        cases h
      · rw [hcli] at h
        cases h
      · obtain ⟨hbroken, hpending, hdeferred⟩ := hitems j hj
        rw [hbroken, hpending, hdeferred] at h
        simp at h

def dryRunStatus : HostMigrationNodeStatus where
  cliVersion := some "2026.10.7"
  mode := some "dry-run"
  items := [⟨"2026.10.7/0001-cgroup.sh", .wouldRun, none, some .afterServices⟩]

theorem dry_run_finishes :
    ¬ ∀ (node : NodeFacts) (status : Option HostMigrationNodeStatus) (job : Option NodeJobFacts)
      (target : String) (excluded : List String),
      (assessRunNode .finish node status job target excluded).state = .ready →
        ∀ i ∈ upToTarget status target, i.state ∈ doneStates := by
  intro h
  have hready : (assessRunNode .finish ⟨"n1", true⟩ (some dryRunStatus) none "2026.10.7" []).state =
      .ready := by
    decide +kernel
  have hitem : ⟨"2026.10.7/0001-cgroup.sh", .wouldRun, none, some .afterServices⟩ ∈
      upToTarget (some dryRunStatus) "2026.10.7" := by
    decide +kernel
  have hdone := h _ _ _ _ _ hready _ hitem
  revert hdone
  decide

end Insula.PlatformUpgrade
