import Insula.Transition
import Mathlib.Algebra.Group.Nat.Defs
import Mathlib.Data.List.Nodup

/-!
# The hooks of a tenant's transition

A transition is a row with a state and one row for each hook that the registry selects. Two drivers
write them. The dispatcher inserts the rows and runs the hooks one after the other; it may die
anywhere, and a pick-up then finishes the transition. The retry scheduler runs failed hooks again
and ends the transition when it finds none left. Every write is a step of its own here.
-/

namespace Insula.Lifecycle

abbrev Time := ℕ

inductive Kind where
  | active | suspended | archived | restored | deleted
deriving DecidableEq

inductive BlockingPolicy where
  | abort | continues
deriving DecidableEq

structure Hook where
  name : String
  blocking : BlockingPolicy
  maxAttempts : Option ℕ
  backoffMs : Option (ℕ → Time)

def defaultMaxAttempts : ℕ := 5

def defaultBackoffMs (attempt : ℕ) : Time := min (5000 * 2 ^ (attempt - 1)) (5 * 60 * 1000)

def Hook.backoff (h : Hook) (attempt : ℕ) : Time := h.backoffMs.getD defaultBackoffMs attempt

structure HookList where
  hooks : List Hook
  nodup : (hooks.map Hook.name).Nodup

inductive RunState where
  | pending | running | ok | noop | failed
deriving DecidableEq

def RunState.Ended (s : RunState) : Prop := s = .ok ∨ s = .noop

instance (s : RunState) : Decidable s.Ended := inferInstanceAs (Decidable (_ ∨ _))

structure HookRun where
  state : RunState
  attempts : ℕ
  maxAttempts : ℕ
  startedAt : Option Time
  nextAttemptAt : Option Time

inductive TransitionState where
  | running | completed | failedPartial | failedBlocking
deriving DecidableEq

inductive HookResult where
  | ok | noop | retry | failed
deriving DecidableEq

def HookResult.recorded : HookResult → RunState
  | .ok => .ok
  | .noop => .noop
  | .retry | .failed => .failed

/-! ## The drivers -/

structure Loop where
  resuming : Bool
  holdOpen : Bool
  rest : List Hook
  hooksOk : ℕ
  hooksFailed : ℕ
  aborted : Bool

inductive Dispatcher where
  | inserting (holdOpen : Bool) (rest : List Hook)
  | looping (l : Loop)
  | calling (l : Loop) (hook : Hook) (attempt : ℕ)
  /-- The hooks are done; the caller's own work is not. -/
  | held (endsAs : TransitionState)

/-- The retry scheduler at one of the transition's rows. Whether no dispatcher was at the hooks and
none was marked running when it began to look for what is left is kept beside. -/
inductive Retry where
  | taken (hook : Hook) (attempts maxAttempts : ℕ)
  | calling (hook : Hook) (attempt maxAttempts : ℕ)
  | recorded
  | noneFailed (calm : Bool)
  | nonePending (calm : Bool)

inductive Caller where
  | dispatcher | pickUp | retryTick
deriving DecidableEq

inductive Call where
  | invoked (caller : Caller) (name : String)
  | recorded (name : String)
deriving DecidableEq

structure Run where
  state : Option TransitionState
  rows : String → Option HookRun
  dispatcher : Option Dispatcher
  retry : Option Retry
  calls : List Call

def Run.fresh : Run := ⟨none, fun _ => none, none, none, []⟩

namespace Run

variable (w : Run)

def modifyRow (name : String) (f : HookRun → HookRun) : Run :=
  { w with rows := fun n => if n = name then (w.rows n).map f else w.rows n }

def insertRow (name : String) (row : HookRun) : Run :=
  { w with rows := fun n => if n = name then some row else w.rows n }

def rowState (name : String) : Option RunState := (w.rows name).map HookRun.state

def anyRow (hs : HookList) (s : RunState) : Bool := hs.hooks.any fun h => w.rowState h.name = some s

def dispatching : Bool :=
  match w.dispatcher with
  | some (.inserting _ _) | some (.looping _) | some (.calling _ _ _) => true
  | some (.held _) | none => false

def resuming : Bool :=
  match w.dispatcher with
  | some (.looping l) | some (.calling l _ _) => l.resuming
  | _ => false

def call (caller : Caller) (name : String) : Run := { w with calls := .invoked caller name :: w.calls }

def record (name : String) (s : RunState) : Run :=
  if s.Ended then { w with calls := .recorded name :: w.calls } else w

end Run

section Dispatcher

variable (hs : HookList)

def beginTransition (holdOpen : Bool) (w : Run) : Option Run :=
  if w.state = none then
    some { w with state := some .running, dispatcher := some (.inserting holdOpen hs.hooks) }
  else none

def pendingRun (h : Hook) : HookRun where
  state := .pending
  attempts := 0
  maxAttempts := h.maxAttempts.getD defaultMaxAttempts
  startedAt := none
  nextAttemptAt := none

def insertPending (w : Run) : Option Run :=
  match w.dispatcher with
  | some (.inserting holdOpen (h :: rest)) =>
    some { w.insertRow h.name (pendingRun h) with dispatcher := some (.inserting holdOpen rest) }
  | some (.inserting holdOpen []) =>
    some { w with dispatcher := some (.looping ⟨false, holdOpen, hs.hooks, 0, 0, false⟩) }
  | _ => none

def Loop.finalState (l : Loop) : TransitionState :=
  if l.aborted then .failedBlocking
  else if 0 < l.hooksFailed then .failedPartial
  else .completed

def Loop.failedAt (l : Loop) (hook : Hook) : Loop :=
  { l with hooksFailed := l.hooksFailed + 1, aborted := l.aborted || hook.blocking = .abort }

def dispatchNext (now : Time) (w : Run) : Option Run :=
  match w.dispatcher with
  | some (.looping l) =>
    match l.rest with
    | [] =>
      if l.holdOpen then some { w with dispatcher := some (.held l.finalState) }
      else some { w with state := some l.finalState, dispatcher := none }
    | hook :: rest =>
      let l' := { l with rest := rest }
      match w.rows hook.name with
      | none => some { w with dispatcher := some (.looping l') }
      | some row =>
        if l.resuming ∧ row.state.Ended then
          some { w with dispatcher := some (.looping { l' with hooksOk := l.hooksOk + 1 }) }
        else if l.resuming ∧ row.state = .failed then
          some { w with dispatcher := some (.looping (l'.failedAt hook)) }
        else if l.aborted then some { w with dispatcher := some (.looping l') }
        else
          some { (w.modifyRow hook.name fun r =>
              { r with state := .running, attempts := row.attempts + 1, startedAt := some now }).call
                (if l.resuming then .pickUp else .dispatcher) hook.name with
            dispatcher := some (.calling l' hook (row.attempts + 1)) }
  | _ => none

def dispatchReturns (result : HookResult) (now : Time) (w : Run) : Option Run :=
  match w.dispatcher with
  | some (.calling l hook attempt) =>
    if result.recorded.Ended then
      some { (w.modifyRow hook.name fun r =>
          { r with state := result.recorded, nextAttemptAt := none }).record hook.name
            result.recorded with
        dispatcher := some (.looping { l with hooksOk := l.hooksOk + 1 }) }
    else
      let retryable := result = .retry ∧ attempt < hook.maxAttempts.getD defaultMaxAttempts
      some { w.modifyRow hook.name fun r =>
          { r with
            state := .failed
            nextAttemptAt := if retryable then some (now + hook.backoff attempt) else none } with
        dispatcher := some (.looping (l.failedAt hook)) }
  | _ => none

def endTransition (w : Run) : Option Run :=
  match w.dispatcher with
  | some (.held endsAs) =>
    some { w with
      state := if w.state = some .running then some endsAs else w.state
      dispatcher := none }
  | _ => none

def dispatcherDies (w : Run) : Option Run :=
  if w.dispatcher.isSome then some { w with dispatcher := none } else none

end Dispatcher

/-! ## The scheduler's tick

The pick-ups, the requeueing and the retries follow one another in one tick; a run resumed by
`applyOnceSince` does not wait for it. -/

def Run.tickIdle (w : Run) : Prop := w.retry = none ∧ w.resuming = false

instance (w : Run) : Decidable w.tickIdle := inferInstanceAs (Decidable (_ ∧ _))

/-- `runTransition` with the id of a transition that is cut off: under its lock, if it still runs.
The tick's pick-up calls it so, and `applyOnceSince` outside the tick. -/
def resumeTransition (hs : HookList) (holdOpen : Bool) (w : Run) : Option Run :=
  if w.dispatcher.isNone ∧ w.state = some .running then
    some { w with dispatcher := some (.looping ⟨true, holdOpen, hs.hooks, 0, 0, false⟩) }
  else none

def closeInterruptedTransition (w : Run) : Option Run :=
  if w.dispatcher.isNone ∧ w.tickIdle ∧ w.state = some .running then
    some { w with
      state := some .failedPartial
      rows := fun n => (w.rows n).map fun r =>
        if r.state = .pending ∨ r.state = .running then
          { r with state := .failed, nextAttemptAt := none }
        else r }
  else none

def retryRunDeadAfterMs : Time := 30 * 60000

def requeueInterruptedRetries (now : Time) (w : Run) : Option Run :=
  if w.tickIdle ∧ w.state ≠ none ∧ w.state ≠ some .running then
    some { w with rows := fun n => (w.rows n).map fun r =>
      if r.state = .running ∧ ∃ t, r.startedAt = some t ∧ t + retryRunDeadAfterMs < now then
        { r with
          state := .failed
          nextAttemptAt := if r.attempts < r.maxAttempts then some now else none }
      else r }
  else none

def HookRun.due (r : HookRun) (now : Time) : Bool :=
  r.state = .failed && r.nextAttemptAt.any (· ≤ now) && r.attempts < r.maxAttempts

def takeCandidate (kind : Kind) (hook : Hook) (now : Time) (breakerOpen stillArchived : Bool)
    (w : Run) : Option Run :=
  match w.rows hook.name with
  | some row =>
    if w.retry.isNone ∧ row.due now ∧ breakerOpen = false then
      if kind = .archived ∧ stillArchived = false then
        some (w.modifyRow hook.name fun r => { r with state := .failed, nextAttemptAt := none })
      else some { w with retry := some (.taken hook row.attempts row.maxAttempts) }
    else none
  | none => none

def callRetry (now : Time) (w : Run) : Option Run :=
  match w.retry with
  | some (.taken hook attempts maxAttempts) =>
    some { (w.modifyRow hook.name fun r =>
        { r with state := .running, attempts := attempts + 1, startedAt := some now }).call
          .retryTick hook.name with
      retry := some (.calling hook (attempts + 1) maxAttempts) }
  | _ => none

def retryReturns (result : HookResult) (now : Time) (w : Run) : Option Run :=
  match w.retry with
  | some (.calling hook attempt maxAttempts) =>
    if result.recorded.Ended then
      some { (w.modifyRow hook.name fun r =>
          { r with state := result.recorded, nextAttemptAt := none }).record hook.name
            result.recorded with
        retry := some .recorded }
    else
      let retryable := result = .retry ∧ attempt < hook.maxAttempts.getD maxAttempts
      some { w.modifyRow hook.name fun r =>
          { r with
            state := .failed
            nextAttemptAt := if retryable then some (now + hook.backoff attempt) else none } with
        retry := none }
  | _ => none

def reevaluate (hs : HookList) (w : Run) : Option Run :=
  match w.retry with
  | some .recorded =>
    if w.anyRow hs .failed then some { w with retry := none }
    else some { w with retry := some (.noneFailed (!w.dispatching && !w.anyRow hs .running)) }
  | some (.noneFailed calm) =>
    if w.anyRow hs .pending then some { w with retry := none }
    else some { w with retry := some (.nonePending calm) }
  | some (.nonePending _) => some { w with state := some .completed, retry := none }
  | _ => none

def tickDies (w : Run) : Option Run :=
  if w.retry.isSome then some { w with retry := none } else none

def requestRetry (name : String) (now : Time) (w : Run) : Option Run :=
  match w.rows name with
  | some row =>
    if row.state = .failed then
      some (w.modifyRow name fun r =>
        { r with
          nextAttemptAt := some now
          maxAttempts := if r.maxAttempts ≤ r.attempts then r.attempts + 1 else r.maxAttempts })
    else none
  | none => none

/-! ## Steps -/

inductive Event where
  | begins (holdOpen : Bool)
  | insert
  | next (now : Time)
  | returns (result : HookResult) (now : Time)
  | ends
  | dies
  | resume (holdOpen : Bool)
  | close
  | requeue (now : Time)
  | take (name : String) (now : Time) (breakerOpen stillArchived : Bool)
  | callRetry (now : Time)
  | retryReturns (result : HookResult) (now : Time)
  | reevaluate
  | tickDies
  | requestRetry (name : String) (now : Time)

def Run.step (hs : HookList) (kind : Kind) (w : Run) : Event → Option Run
  | .begins holdOpen => beginTransition hs holdOpen w
  | .insert => insertPending hs w
  | .next now => dispatchNext now w
  | .returns result now => dispatchReturns result now w
  | .ends => endTransition w
  | .dies => dispatcherDies w
  | .resume holdOpen => resumeTransition hs holdOpen w
  | .close => closeInterruptedTransition w
  | .requeue now => requeueInterruptedRetries now w
  | .take name now breakerOpen stillArchived =>
    (hs.hooks.find? fun h => h.name = name).bind fun hook =>
      takeCandidate kind hook now breakerOpen stillArchived w
  | .callRetry now => callRetry now w
  | .retryReturns result now => retryReturns result now w
  | .reevaluate => reevaluate hs w
  | .tickDies => tickDies w
  | .requestRetry name now => requestRetry name now w

end Insula.Lifecycle
