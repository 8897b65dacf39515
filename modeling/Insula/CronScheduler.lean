import Insula.Javascript
import Insula.Lookup
import Insula.SqlLogic
import Insula.Transition

/-!
# Runs of one cron job

The pollers of `cron-jobs/scheduler.ts` and the manual "Run now" of `cron-jobs/service.ts` at work
on one row of `cron_jobs`. A poller reads the row, decides by its copy whether the job is due,
claims the row and runs the job; a manual run reads the row and runs the job. Both record the
outcome. Each database statement takes effect at one instant of the clock that the processes share;
the time between two of them is arbitrary, as is what a run comes back with. An update stamps
`updatedAt` with the instant at which the process built it, which may lie any time before the one at
which it takes effect. How a schedule is read is left to `getNextRunTime`.
-/

namespace Insula.CronJobs

open Javascript

inductive CronJobType
  | webcron
  | deployment
  deriving DecidableEq

inductive LastRunStatus
  | success
  | failed
  | running
  deriving DecidableEq

structure CronJobRow where
  type : CronJobType
  schedule : String
  timeoutSeconds : Option ℤ
  timezone : Option String
  enabled : Bool
  lastRunAt : Option ℤ
  lastRunStatus : Option LastRunStatus
  consecutiveFailures : ℕ
  createdAt : ℤ
  updatedAt : ℤ
  deriving DecidableEq

inductive ResultStatus
  | success
  | failed
  deriving DecidableEq

def ResultStatus.column : ResultStatus → LastRunStatus
  | .success => .success
  | .failed => .failed

structure CronRunResult where
  status : ResultStatus
  /-- What of the platform failed, where that is why the run did. -/
  platformFault : Option String
  notStarted : Bool
  ranIn : Bool
  deriving DecidableEq

def cronTimeoutMinSeconds : ℤ := 5

def cronTimeoutMaxSeconds : ℤ := 3600

def defaultCronTimeoutSeconds : CronJobType → ℤ
  | .webcron => 30
  | .deployment => 300

def runTimeoutMs (job : CronJobRow) : ℤ :=
  match job.timeoutSeconds with
  | some t => min (max t cronTimeoutMinSeconds) cronTimeoutMaxSeconds * 1000
  | none => defaultCronTimeoutSeconds job.type * 1000

def claimGraceMs : ℤ := 5 * 60000

def claimStaleBefore (job : CronJobRow) (now : ℤ) : ℤ := now - (runTimeoutMs job + claimGraceMs)

/-- The zone a job's schedule is read in: the job's own, else the platform's, else UTC. -/
def resolveTimeZone (timezone platformTimeZone : Option String) : String :=
  ((timezone.filter (· ≠ "")).or (platformTimeZone.filter (· ≠ ""))).getD "UTC"

def claimable (row : CronJobRow) (staleBefore : ℤ) : Sql.Tri :=
  Sql.or (Sql.isNull row.lastRunStatus)
    (Sql.or (Sql.compare (· ≠ ·) row.lastRunStatus (some .running))
      (Sql.compare (· < ·) (some row.updatedAt) (some staleBefore)))

def claimJob (row : CronJobRow) (staleBefore builtAt : ℤ) : CronJobRow × Bool :=
  if Sql.Matches (claimable row staleBefore) then
    ({ row with lastRunStatus := some .running, updatedAt := builtAt }, true)
  else (row, false)

def streakAfter (status : ResultStatus) (platformFault : Option String) (streak : ℕ) : ℕ :=
  match status with
  | .success => 0
  | .failed => if truthy platformFault then streak else streak + 1

def recordRun (row : CronJobRow) (result : CronRunResult) (recordedAt builtAt : ℤ) : CronJobRow :=
  { row with
    lastRunAt := some recordedAt
    lastRunStatus := some result.status.column
    consecutiveFailures := streakAfter result.status result.platformFault row.consecutiveFailures
    updatedAt := builtAt }

def markInterrupted (row : CronJobRow) (recordedAt builtAt : ℤ) : CronJobRow :=
  if row.lastRunAt = some recordedAt then
    { row with consecutiveFailures := row.consecutiveFailures - 1, updatedAt := builtAt }
  else row

structure RunOptions where
  notify : Bool
  retry : Bool
  deriving DecidableEq

inductive Phase
  /-- The poll has read the clock and the platform's zone. -/
  | polled (now : ℤ) (platformTimeZone : Option String)
  /-- The poll has read the row, by which the job is due. -/
  | selected (now : ℤ)
  | ready
  | executing (again : Bool)
  | executed (again : Bool) (result : CronRunResult)
  /-- The outcome is on its way to the row. -/
  | recording (result : CronRunResult) (recordedAt : ℤ)
  | recorded (result : CronRunResult) (recordedAt : ℤ)
  | finished
  | died
  deriving DecidableEq

/-- A poll as far as it is about this job, or a manual run, with its copy of the row. -/
structure Call where
  options : RunOptions
  job : Option CronJobRow
  /-- When its claim was built. -/
  claimedAt : Option ℤ
  phase : Phase
  deriving DecidableEq

/-- The run is tried once more if the platform could not reach its cluster to begin with. -/
def Call.retries (call : Call) (again : Bool) (result : CronRunResult) : Bool :=
  !again && truthy result.platformFault && result.notStarted && call.options.retry

def Call.checksInterruption (call : Call) (result : CronRunResult) : Bool :=
  !truthy result.platformFault && call.options.notify && decide (result.status = .failed) &&
    call.job.any (fun job => decide (job.type = .deployment)) && result.ranIn

inductive Action
  | select
  | claim (builtAt : ℤ)
  | start
  | finish (result : CronRunResult)
  | stamp
  | record (builtAt : ℤ)
  /-- The check for an interruption, with what it found. -/
  | check (why : Option String) (builtAt : ℤ)
  | die
  deriving DecidableEq

structure State where
  now : ℤ
  job : CronJobRow
  calls : List Call
  deriving DecidableEq

inductive Event
  | wait (t : ℤ)
  | poll (platformTimeZone : Option String)
  | runCronJobNow
  | act (i : ℕ) (action : Action)
  deriving DecidableEq

section Schedule

/-! `getNextRunTime`: the next time a schedule matches after an instant, in a time zone. -/

variable (getNextRunTime : String → ℤ → String → ℤ)

def isJobDue (job : CronJobRow) (now : ℤ) (platformTimeZone : Option String) : Bool :=
  decide (getNextRunTime job.schedule (job.lastRunAt.getD job.createdAt)
    (resolveTimeZone job.timezone platformTimeZone) ≤ now)

/-- What one action of a call does to the row and to the call; `none` where it does not come
next. -/
def act (now : ℤ) (row : CronJobRow) (call : Call) (action : Action) : Option (CronJobRow × Call) :=
  match call.phase, action with
  | .polled t platformTimeZone, .select =>
    if row.enabled && isJobDue getNextRunTime row t platformTimeZone then
      some (row, { call with job := some row, phase := .selected t })
    else some (row, { call with phase := .finished })
  | .selected t, .claim builtAt =>
    if t ≤ builtAt ∧ builtAt ≤ now then
      call.job.map fun job =>
        let r := claimJob row (claimStaleBefore job t) builtAt
        if r.2 then (r.1, { call with claimedAt := some builtAt, phase := .ready })
        else (r.1, { call with phase := .finished })
    else none
  | .ready, .start => some (row, { call with phase := .executing false })
  | .executing again, .finish result => some (row, { call with phase := .executed again result })
  | .executed again result, .start =>
    if call.retries again result then some (row, { call with phase := .executing true }) else none
  | .executed again result, .stamp =>
    if call.retries again result then none
    else some (row, { call with phase := .recording result now })
  | .recording result recordedAt, .record builtAt =>
    if recordedAt ≤ builtAt ∧ builtAt ≤ now then
      some (recordRun row result recordedAt builtAt,
        { call with phase := .recorded result recordedAt })
    else none
  | .recorded result recordedAt, .check why builtAt =>
    if recordedAt ≤ builtAt ∧ builtAt ≤ now then
      if call.checksInterruption result && truthy why then
        some (markInterrupted row recordedAt builtAt, { call with phase := .finished })
      else some (row, { call with phase := .finished })
    else none
  | .finished, .die | .died, .die => none
  | _, .die => some (row, { call with phase := .died })
  | _, _ => none

def step (s : State) : Event → Option State
  | .wait t => if s.now ≤ t then some { s with now := t } else none
  | .poll platformTimeZone =>
    some { s with calls := s.calls ++ [⟨⟨true, true⟩, none, none, .polled s.now platformTimeZone⟩] }
  | .runCronJobNow =>
    some { s with calls := s.calls ++ [⟨⟨false, false⟩, some s.job, none, .ready⟩] }
  | .act i action =>
    (s.calls[i]?).bind fun call =>
      (act getNextRunTime s.now s.job call action).map fun r =>
        { s with job := r.1, calls := s.calls.set i r.2 }

end Schedule

end Insula.CronJobs
