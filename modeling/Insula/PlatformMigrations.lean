import Insula.Program
import Mathlib.Data.Int.Basic
import Mathlib.Data.List.Sort

/-!
# Platform migrations

`runPlatformMigrations` over the store in the database: a pass takes an advisory lock if it is free,
applies what is pending in the order of the ids, and halts at the first failure. It stops waiting
for an `up()` that takes too long.
-/

namespace Insula.PlatformMigrations

open Program (request Attempt)

structure Migration where
  id : String
  version : String
  description : String
  deriving DecidableEq

/-- What a pass is given: the registry, the order of ids, and the limit on an `up()` in
milliseconds, where zero is no limit. -/
structure Registry where
  migrations : List Migration
  le : String → String → Bool
  checksum : Migration → String
  timeoutMs : ℕ

def Registry.ordered (reg : Registry) : List Migration :=
  reg.migrations.insertionSort fun a b => reg.le a.id b.id = true

def Registry.ids (reg : Registry) : List String := reg.ordered.map Migration.id

inductive Thrown
  | error (message : String) (effected : Bool)
  | exceeded (id : String) (timeoutMs : ℕ)
  deriving DecidableEq

def Thrown.message : Thrown → String
  | .error message _ => message
  | .exceeded id timeoutMs =>
    "migration '" ++ id ++ "' exceeded " ++ toString timeoutMs ++ "ms timeout"

structure AppliedMigrationRecord where
  id : String
  version : String
  checksum : String
  durationMs : ℤ
  deriving DecidableEq

inductive Op
  | now
  | tryLock
  | unlock
  | destroyClient
  | listApplied
  | startUp (id : String)
  | awaitUp (id : String) (timeoutMs : ℕ)
  | recordApplied (rec : AppliedMigrationRecord)
  -- An `up()` that nobody waits for any more comes to its end.
  | settleUp (pass : ℕ)
  deriving DecidableEq

abbrev Val : Op → Type
  | .now => ℤ
  | .tryLock => Bool
  | .listApplied => List (String × String)
  | _ => Unit

abbrev Task (α : Type) := Attempt Thrown Op Val α

def ask (o : Op) : Task (Val o) := request o

inductive OutcomeStatus
  | applied | failed | drift
  deriving DecidableEq

structure MigrationOutcome where
  id : String
  status : OutcomeStatus
  durationMs : ℤ
  detail : Option String
  deriving DecidableEq

structure RunMigrationsResult where
  ran : Bool
  skippedReason : Option String
  applied : ℕ
  pending : ℕ
  failed : Bool
  outcomes : List MigrationOutcome
  deriving DecidableEq

def skipped (reason : String) : RunMigrationsResult where
  ran := false
  skippedReason := some reason
  applied := 0
  pending := 0
  failed := false
  outcomes := []

def assertUniqueIds : List Migration → Task Unit
  | [] => return ()
  | m :: ms =>
    if m.id ∈ ms.map Migration.id then
      throw (.error ("platform-migrations: duplicate migration id '" ++ m.id ++ "'") false)
    else assertUniqueIds ms

section Pass

variable (reg : Registry)

def driftOutcomes (applied : List (String × String)) : List MigrationOutcome :=
  reg.ordered.filterMap fun m =>
    match applied.lookup m.id with
    | none => none
    | some recorded =>
      if recorded = reg.checksum m then none
      else some
        { id := m.id, status := .drift, durationMs := 0
          detail := some ("recorded " ++ String.ofList (recorded.toList.take 12) ++ "… now " ++
            String.ofList ((reg.checksum m).toList.take 12) ++ "…") }

def applyOne (m : Migration) (t0 : ℤ) : Task (Except Thrown ℤ) :=
  tryCatch
    (do
      ask (.startUp m.id)
      ask (.awaitUp m.id reg.timeoutMs)
      let t ← ask .now
      ask (.recordApplied
        { id := m.id, version := m.version, checksum := reg.checksum m, durationMs := t - t0 })
      return .ok (t - t0))
    fun err => return .error err

def applyPending (pending : ℕ) :
    List Migration → ℕ → List MigrationOutcome → Task RunMigrationsResult
  | [], applied, outcomes =>
    return { ran := true, skippedReason := none, applied := applied, pending := pending
             failed := false, outcomes := outcomes }
  | m :: ms, applied, outcomes => do
      let t0 ← ask .now
      match ← applyOne reg m t0 with
      | .ok durationMs =>
        applyPending pending ms (applied + 1)
          (outcomes ++ [{ id := m.id, status := .applied, durationMs := durationMs, detail := none }])
      | .error err =>
        let t ← ask .now
        return { ran := true, skippedReason := none, applied := applied, pending := pending
                 failed := true
                 outcomes := outcomes ++ [{ id := m.id, status := .failed, durationMs := t - t0
                                            detail := some err.message }] }

def pendingOf (applied : List (String × String)) : List Migration :=
  reg.ordered.filter fun m => !(applied.map Prod.fst).contains m.id

def lockedPass : Task RunMigrationsResult := do
  let applied ← ask .listApplied
  applyPending reg (pendingOf reg applied).length (pendingOf reg applied) 0 (driftOutcomes reg applied)

def unlock : Task Unit := tryCatch (ask .unlock) fun _ => ask .destroyClient

def withLock {α : Type} (fn : Task α) : Task (Option α) := do
  let ok ← ask .tryLock
  if ok then
    let result ← tryCatch fn fun err => do
      unlock
      throw err
    unlock
    return some result
  else return none

def runPlatformMigrations (skip : Bool) : Task RunMigrationsResult :=
  if skip then return skipped "PLATFORM_SKIP_MIGRATIONS"
  else do
    assertUniqueIds reg.migrations
    match ← withLock (lockedPass reg) with
    | none => return skipped "lock-held-by-another-replica"
    | some result => return result

end Pass

/-! ## The database and the cluster -/

abbrev Ans (o : Op) : Type := Except Thrown (Val o)

structure Up where
  id : String
  /-- Does its pass wait for it? -/
  awaited : Bool
  deriving DecidableEq

structure Cluster where
  rows : List AppliedMigrationRecord
  /-- The pass whose session holds the lock. -/
  lock : Option ℕ
  ups : ℕ → Option Up

namespace Cluster

variable (c : Cluster) (i : ℕ)

def recorded : List String := c.rows.map AppliedMigrationRecord.id

def record (rec : AppliedMigrationRecord) : Cluster :=
  { c with
    rows :=
      if rec.id ∈ c.recorded then c.rows.map fun r => if r.id = rec.id then rec else r
      else c.rows ++ [rec] }

def setUp (up : Option Up) : Cluster := { c with ups := Function.update c.ups i up }

def released : Cluster := { c with lock := if c.lock = some i then none else c.lock }

/-- The process of the pass is gone; what its `up()` has set going may go on. -/
def sessionEnds : Cluster :=
  (c.released i).setUp i ((c.ups i).map fun up => { up with awaited := false })

def settle (pass : ℕ) : Option Cluster :=
  match c.ups pass with
  | some { awaited := false, .. } => some (c.setUp pass none)
  | _ => none

/-- How a call of a pass is answered. An `up()` that exceeds its limit goes on. -/
def answer : (o : Op) → Ans o → Option Cluster
  | .now, .ok _ => some c
  | .tryLock, .ok ok =>
    if ok = c.lock.isNone then some (if ok then { c with lock := some i } else c) else none
  | .tryLock, .error _ => some c
  | .unlock, .ok _ => some (c.released i)
  | .unlock, .error _ => some c
  | .destroyClient, .ok _ => some (c.released i)
  | .listApplied, .ok rows => if rows = c.rows.map (fun r => (r.id, r.checksum)) then some c else none
  | .listApplied, .error _ => some c
  | .startUp id, .ok _ => some (c.setUp i (some { id := id, awaited := true }))
  | .awaitUp _ _, .ok _ => some (c.setUp i none)
  | .awaitUp _ _, .error (.error _ _) => some (c.setUp i none)
  | .awaitUp id timeoutMs, .error (.exceeded _ _) =>
    if timeoutMs = 0 then none else some (c.setUp i (some { id := id, awaited := false }))
  | .recordApplied rec, .ok _ => some (c.record rec)
  | .recordApplied rec, .error (.error _ effected) => some (if effected then c.record rec else c)
  | .settleUp pass, .ok _ => c.settle pass
  | _, _ => none

end Cluster

end Insula.PlatformMigrations
