import Insula.Transition
import Insula.SchedulerLease

/-!
# Leased runs on many replicas

`withSchedulerLease` of `shared/scheduler-lease.ts`, called for one lease name by any number of
processes, each known by its holder id. Every lease statement is sent first and takes effect in the
database at some later time, in any order, or fails, without effect or with its answer lost; `sent`
is the list of all of them. A call goes on when the statement it awaits has been answered, at any
later moment. Timers fire at any moment their timer is set: a renewal while the run is on, the
longest hold, the wait for the lease writes after the run, the keep-alive of a sticky lease between
runs.

`stopping`, which only `releaseAllSchedulerLeases` sets, is left out: no process here is shutting
down.
-/

namespace Insula.LeasedRun

open SchedulerLease

def livenessMs : ℚ := 10 * 60000

inductive Kind
  | claim (call : ℕ)
  | renewal (call : ℕ)
  | cut (call : ℕ)
  | delete (call : ℕ)
  | keepAlive (lease : ℕ)
  deriving DecidableEq

inductive Status
  | travelling
  | landed (ok : Bool)
  | failed
  /-- It took effect and the answer was lost: to the process it has failed. -/
  | unheard
  deriving DecidableEq

structure Sent where
  holder : String
  kind : Kind
  ttlMs : ℚ
  status : Status

/-- Where a call of `withSchedulerLease` is. The numbers name statements of `sent`. -/
inductive Phase
  /-- It awaits its claim. -/
  | claiming (claim : ℕ)
  | refused
  /-- `fn` is awaited, the renewal timer is set. -/
  | running
  /-- The run is over, the timers are cleared; `renewing` is awaited. -/
  | settling
  /-- `releaseSchedulerLease` awaits the keep-alive claims of the lease it let go. -/
  | lettingGo (pending : List ℕ)
  /-- The DELETE, or the claim that cuts the lease back, is awaited; or there is none to await. -/
  | writing (write : Option ℕ)
  | settled
  deriving DecidableEq

structure Call where
  holder : String
  ttlMs : ℚ
  release : Bool
  phase : Phase
  /-- The renewal sent last, which is the only one remembered. -/
  renewing : Option ℕ
  /-- `fn` has been called and has not ended. -/
  inProgress : Bool
  /-- `inFlight.delete(job)` has run for this call. -/
  freed : Bool

/-- An entry of `held`: a sticky lease kept alive between runs. -/
structure HeldLease where
  lease : ℕ
  horizon : ℚ
  pending : List ℕ

structure Replicas where
  now : ℤ
  row : Option SettingValue
  sent : List Sent
  calls : List Call
  /-- By process: whether the job is in its `inFlight`. -/
  inFlight : String → Bool
  held : String → Option HeldLease
  /-- By holder: the expiry its last successful claim left in the row. No code reads it. -/
  wrote : String → Option Timestamp

def initial (now : ℤ) (row : Option SettingValue) : Replicas where
  now := now
  row := row
  sent := []
  calls := []
  inFlight := fun _ => false
  held := fun _ => none
  wrote := fun _ => none

inductive Event
  | passTime (d : ℕ)
  | call (holder : String) (ttlMs : ℚ) (release : Bool)
  | land (k : ℕ)
  | landUnheard (k : ℕ)
  | lose (k : ℕ)
  | answer (i : ℕ)
  | renew (i : ℕ)
  | finish (i : ℕ)
  | giveUp (i : ℕ)
  | endLate (i : ℕ)
  | afterRun (i : ℕ) (clock : ℚ)
  | sendDelete (i : ℕ)
  | settleDone (i : ℕ)
  | settleTimeout (i : ℕ)
  | keepAliveTick (holder : String) (clock : ℚ)
  | keepAliveAnswer (k : ℕ)

namespace Replicas

def answered (s : Replicas) (k : ℕ) : Bool :=
  match s.sent[k]? with
  | some m => decide (m.status ≠ .travelling)
  | none => false

def answeredOpt (s : Replicas) (k : Option ℕ) : Bool := k.all s.answered

def send (s : Replicas) (m : Sent) : Replicas := { s with sent := s.sent ++ [m] }

def setCall (s : Replicas) (i : ℕ) (c : Call) : Replicas := { s with calls := s.calls.set i c }

def setInFlight (s : Replicas) (holder : String) (b : Bool) : Replicas :=
  { s with inFlight := Function.update s.inFlight holder b }

def setHeld (s : Replicas) (holder : String) (l : Option HeldLease) : Replicas :=
  { s with held := Function.update s.held holder l }

def setStatus (s : Replicas) (k : ℕ) (m : Sent) (status : Status) : Replicas :=
  { s with sent := s.sent.set k { m with status := status } }

end Replicas

open Replicas

def storedExpiry : Option SettingValue → Option Timestamp
  | some (.json _ (some (.valid u))) => some u
  | _ => none

/-- A statement takes effect at the database's present time. Only the keep-alive is `extendOnly`. -/
def landStatement (s : Replicas) (k : ℕ) (m : Sent) : Replicas :=
  match m.kind with
  | .delete _ => { s.setStatus k m (.landed true) with row := releaseRow m.holder s.row }
  | kind =>
    let extendOnly := match kind with
      | .keepAlive _ => true
      | _ => false
    let r := claimRow m.holder m.ttlMs extendOnly s.now s.row
    { s.setStatus k m (.landed r.2) with
      row := r.1
      wrote := if r.2 then Function.update s.wrote m.holder (storedExpiry r.1) else s.wrote }

/-- `withSchedulerLease` up to its claim: refused at once while the job is in flight here. -/
def callStep (s : Replicas) (holder : String) (ttlMs : ℚ) (release : Bool) : Replicas :=
  if s.inFlight holder then s
  else
    { (s.setInFlight holder true).send ⟨holder, .claim s.calls.length, ttlMs, .travelling⟩ with
      calls := s.calls ++ [⟨holder, ttlMs, release, .claiming s.sent.length, none, false, false⟩] }

def answerStep (s : Replicas) (i : ℕ) (c : Call) : Option Replicas :=
  match c.phase with
  | .claiming k =>
    match (s.sent[k]?).map Sent.status with
    | some (.landed true) => some (s.setCall i { c with phase := .running, inProgress := true })
    | some (.landed false) | some .failed | some .unheard =>
      some ((s.setInFlight c.holder false).setCall i { c with phase := .refused, freed := true })
    | _ => none
  | _ => none

def renewStep (s : Replicas) (i : ℕ) (c : Call) : Option Replicas :=
  if c.phase = .running then
    some ((s.setCall i { c with renewing := some s.sent.length }).send
      ⟨c.holder, .renewal i, c.ttlMs, .travelling⟩)
  else none

/-- The run is over: `fn` has ended, or has been given up and goes on by itself. -/
def finishStep (s : Replicas) (i : ℕ) (c : Call) (stillInProgress : Bool) : Option Replicas :=
  if c.phase = .running then
    some (s.setCall i { c with phase := .settling, inProgress := stillInProgress })
  else none

def endLateStep (s : Replicas) (i : ℕ) (c : Call) : Option Replicas :=
  if c.phase ≠ .running ∧ c.inProgress = true then
    some (s.setCall i { c with inProgress := false })
  else none

/-- `renewing` has settled: let go of the lease, cut it back, or leave it as it is. `clock` is what
`performance.now()` reads. -/
def afterRunStep (s : Replicas) (i : ℕ) (c : Call) (clock : ℚ) : Option Replicas :=
  if c.phase = .settling ∧ s.answeredOpt c.renewing = true then
    let before := ((s.held c.holder).map HeldLease.pending).getD []
    if c.release then
      some ((s.setHeld c.holder none).setCall i { c with phase := .lettingGo before })
    else if livenessMs < c.ttlMs then
      some (((s.setHeld c.holder
        (some ⟨s.sent.length, clock + c.ttlMs, before ++ [s.sent.length]⟩)).setCall i
          { c with phase := .writing (some s.sent.length) }).send
            ⟨c.holder, .cut i, livenessMs, .travelling⟩)
    else some (s.setCall i { c with phase := .writing none })
  else none

def sendDeleteStep (s : Replicas) (i : ℕ) (c : Call) : Option Replicas :=
  match c.phase with
  | .lettingGo pending =>
    if pending.all s.answered then
      some ((s.setCall i { c with phase := .writing (some s.sent.length) }).send
        ⟨c.holder, .delete i, c.ttlMs, .travelling⟩)
    else none
  | _ => none

def settleDoneStep (s : Replicas) (i : ℕ) (c : Call) : Option Replicas :=
  match c.phase with
  | .writing w =>
    if s.answeredOpt w then
      let s' := if c.freed then s else s.setInFlight c.holder false
      some (s'.setCall i { c with phase := .settled, freed := true })
    else none
  | _ => none

def Phase.isSettling : Phase → Bool
  | .settling | .lettingGo _ | .writing _ => true
  | _ => false

/-- `LEASE_SETTLE_MS` have passed: the job is freed here, the writes go on by themselves. -/
def settleTimeoutStep (s : Replicas) (i : ℕ) (c : Call) : Option Replicas :=
  if c.phase.isSettling = true ∧ c.freed = false then
    some ((s.setInFlight c.holder false).setCall i { c with freed := true })
  else none

def keepAliveStep (s : Replicas) (holder : String) (clock : ℚ) : Option Replicas :=
  (s.held holder).bind fun l =>
    if s.inFlight holder || !(l.pending.all s.answered) then some s
    else if l.horizon - clock ≤ 0 then some (s.setHeld holder none)
    else
      some ((s.setHeld holder (some { l with pending := [s.sent.length] })).send
        ⟨holder, .keepAlive l.lease, min livenessMs (l.horizon - clock), .travelling⟩)

def keepAliveAnswerStep (s : Replicas) (m : Sent) : Option Replicas :=
  match m.kind, m.status with
  | .keepAlive lease, .landed false =>
    if (s.held m.holder).any (fun l => l.lease == lease) then some (s.setHeld m.holder none)
    else some s
  | _, _ => none

def step (s : Replicas) : Event → Option Replicas
  | .passTime d => some { s with now := s.now + d }
  | .call holder ttlMs release => some (callStep s holder ttlMs release)
  | .land k => (s.sent[k]?).bind fun m =>
    if m.status = .travelling then some (landStatement s k m) else none
  | .landUnheard k => (s.sent[k]?).bind fun m =>
    if m.status = .travelling then some ((landStatement s k m).setStatus k m .unheard) else none
  | .lose k => (s.sent[k]?).bind fun m =>
    if m.status = .travelling then some (s.setStatus k m .failed) else none
  | .answer i => (s.calls[i]?).bind (answerStep s i)
  | .renew i => (s.calls[i]?).bind (renewStep s i)
  | .finish i => (s.calls[i]?).bind fun c => finishStep s i c false
  | .giveUp i => (s.calls[i]?).bind fun c => finishStep s i c true
  | .endLate i => (s.calls[i]?).bind (endLateStep s i)
  | .afterRun i clock => (s.calls[i]?).bind fun c => afterRunStep s i c clock
  | .sendDelete i => (s.calls[i]?).bind (sendDeleteStep s i)
  | .settleDone i => (s.calls[i]?).bind (settleDoneStep s i)
  | .settleTimeout i => (s.calls[i]?).bind (settleTimeoutStep s i)
  | .keepAliveTick holder clock => keepAliveStep s holder clock
  | .keepAliveAnswer k => (s.sent[k]?).bind (keepAliveAnswerStep s)

end Insula.LeasedRun
