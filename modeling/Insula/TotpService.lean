import Insula.Javascript
import Insula.Stages

/-!
# The authenticator-app second factor

`auth/totp-core.ts` and `auth/totp-service.ts`, for one user. The factor is a row with a secret, the
time it was turned on, the last time step that was used and a count of attempts; beside it stand the
backup codes. Every call is a sequence of single statements on the two tables. The comparison of a
code is an operation too, so that a run says when a proof is looked at. The code of a step (an
HMAC), the decryption of a stored secret and the keyed hash of a backup code are parameters.
-/

namespace Insula.Totp

open Program (perform)

/-! ## Codes -/

section Codes

def totpPeriodSeconds : ℤ := 30

def totpDigits : ℕ := 6

def totpWindowSteps : ℤ := 1

abbrev Secret := List UInt8

variable (hotp : Secret → ℤ → String)

def stepAt (nowMs : ℤ) : ℤ := nowMs / 1000 / totpPeriodSeconds

def candidate (code : String) : Option String :=
  let digits := code.toList.filter fun c => !Javascript.isSpace c
  if digits.length = totpDigits ∧ digits.all Char.isDigit then some (String.ofList digits) else none

/-- The first step around `nowMs` that the code belongs to. -/
def matchTotp (secret : Secret) (code : String) (nowMs : ℤ) : Option ℤ :=
  (candidate code).bind fun given =>
    let current := stepAt nowMs
    [current - totpWindowSteps, current, current + totpWindowSteps].find? fun step =>
      hotp secret step = given

end Codes

/-! ## The tables -/

def maxFailedAttempts : ℕ := 10

def failedWindowMs : ℤ := 15 * 60 * 1000

def backupCodeCount : ℕ := 10

structure Row where
  secretEncrypted : String
  enabledAt : Option ℤ
  lastUsedStep : Option ℤ
  failedAttempts : ℕ
  failedWindowStartedAt : Option ℤ
  deriving DecidableEq

namespace Row

def pending (secretEncrypted : String) : Row where
  secretEncrypted := secretEncrypted
  enabledAt := none
  lastUsedStep := none
  failedAttempts := 0
  failedWindowStartedAt := none

variable (row : Row)

def expired (nowMs : ℤ) : Bool :=
  row.failedWindowStartedAt.any fun start => start < nowMs - failedWindowMs

def windowOver (nowMs : ℤ) : Bool := row.failedWindowStartedAt = none ∨ row.expired nowMs

/-- The conditional updates: `none` where the condition does not hold. -/
def reserveAttempt (nowMs : ℤ) : Option Row :=
  if row.windowOver nowMs ∨ row.failedAttempts < maxFailedAttempts then
    some
      { row with
        failedAttempts := if row.windowOver nowMs then 1 else row.failedAttempts + 1
        failedWindowStartedAt :=
          if row.windowOver nowMs then some nowMs else row.failedWindowStartedAt }
  else none

def clearAttempts : Row := { row with failedAttempts := 0, failedWindowStartedAt := none }

def claimStep (step : ℤ) : Option Row :=
  if ∀ last ∈ row.lastUsedStep, last < step then
    some { row.clearAttempts with lastUsedStep := some step }
  else none

def turnOn (step nowMs : ℤ) : Option Row :=
  if row.enabledAt = none then
    some { row.clearAttempts with enabledAt := some nowMs, lastUsedStep := some step }
  else none

end Row

structure BackupCode where
  id : String
  codeHash : String
  usedAt : Option ℤ
  deriving DecidableEq

namespace BackupCode

variable (codeHash : String)

def fits (c : BackupCode) : Bool := c.codeHash = codeHash ∧ c.usedAt = none

def burn (nowMs : ℤ) (c : BackupCode) : BackupCode :=
  if c.fits codeHash then { c with usedAt := some nowMs } else c

end BackupCode

inductive TotpProof
  | code (code : String)
  | backupCode (code : String)
  deriving DecidableEq

inductive TotpFactorUsed
  | code
  | backupCode
  deriving DecidableEq

inductive Failure
  | alreadyEnabled
  | notEnabled
  | setupRequired
  | codeInvalid
  | locked (retryAfter : ℤ)
  /-- The stored secret could not be decrypted. -/
  | decrypt
  deriving DecidableEq

inductive Op
  | loadRow
  | upsertSecret (secretEncrypted : String)
  | reserveAttempt (nowMs : ℤ)
  | matchTotp (secret : Secret) (code : String) (nowMs : ℤ)
  | claimStep (step nowMs : ℤ)
  | burnBackupCode (codeHash : String) (nowMs : ℤ)
  | clearAttempts (nowMs : ℤ)
  | turnOn (step nowMs : ℤ)
  | deleteBackupCodes
  | insertBackupCodes (codes : List BackupCode)
  | deleteRow
  | newSecret
  | newBackupCode
  | randomUUID
  deriving DecidableEq

abbrev Ans : Op → Type
  | .loadRow => Option Row
  | .upsertSecret _ => Unit
  | .reserveAttempt _ => Bool
  | .matchTotp _ _ _ => Option ℤ
  | .claimStep _ _ => Bool
  | .burnBackupCode _ _ => ℕ
  | .clearAttempts _ => Unit
  | .turnOn _ _ => Bool
  | .deleteBackupCodes => Unit
  | .insertBackupCodes _ => Unit
  | .deleteRow => Bool
  | .newSecret => String
  | .newBackupCode => String
  | .randomUUID => String

abbrev Task := Program Op Ans

abbrev ask (o : Op) : Task (Ans o) := perform o

/-! ## The service -/

section Service

-- The decrypted and decoded secret, and the keyed hash of a normalised backup code.
variable (secretOf : String → Option Secret) (hashBackupCode : String → String)

def newBackupCodes : ℕ → Task (List String)
  | 0 => return []
  | n + 1 => do
      let code ← ask .newBackupCode
      let codes ← newBackupCodes n
      return code :: codes

def storedCodes : List String → Task (List BackupCode)
  | [] => return []
  | code :: codes => do
      let id ← ask .randomUUID
      let stored ← storedCodes codes
      return ⟨id, hashBackupCode code, none⟩ :: stored

def replaceBackupCodes : Task (List String) := do
  let codes ← newBackupCodes backupCodeCount
  ask .deleteBackupCodes
  let stored ← storedCodes hashBackupCode codes
  ask (.insertBackupCodes stored)
  return codes

def beginTotpSetup : Task (Except Failure String) := do
  match ← ask .loadRow with
  | some ⟨_, some _, _, _, _⟩ => return .error .alreadyEnabled
  | _ =>
    let secretEncrypted ← ask .newSecret
    ask (.upsertSecret secretEncrypted)
    return .ok secretEncrypted

def lockedError (nowMs : ℤ) : Task Failure := do
  let row ← ask .loadRow
  let windowStart := (row.bind Row.failedWindowStartedAt).getD nowMs
  return .locked (max 1 (-((-(windowStart + failedWindowMs - nowMs)) / 1000)))

def evaluateCode (row : Row) (code : String) (nowMs : ℤ) : Task (Except Failure ℤ) := do
  match secretOf row.secretEncrypted with
  | none => return .error .decrypt
  | some secret =>
    match ← ask (.matchTotp secret code nowMs) with
    | none => return .error .codeInvalid
    | some step => return .ok step

def verifyTotpFactor (proof : TotpProof) (nowMs : ℤ) : Task (Except Failure TotpFactorUsed) := do
  match ← ask .loadRow with
  | none => return .error .notEnabled
  | some row =>
    if row.enabledAt = none then return .error .notEnabled
    else if ¬ (← ask (.reserveAttempt nowMs)) then return .error (← lockedError nowMs)
    else match proof with
      | .code code =>
        match ← evaluateCode secretOf row code nowMs with
        | .error e => return .error e
        | .ok step =>
          if ← ask (.claimStep step nowMs) then return .ok .code
          else return .error .codeInvalid
      | .backupCode code =>
        if (← ask (.burnBackupCode (hashBackupCode code) nowMs)) ≠ (1 : ℕ) then
          return .error .codeInvalid
        else
          ask (.clearAttempts nowMs)
          return .ok .backupCode

def enableTotp (code : String) (nowMs : ℤ) : Task (Except Failure (List String)) := do
  match ← ask .loadRow with
  | none => return .error .setupRequired
  | some row =>
    if row.enabledAt ≠ none then return .error .alreadyEnabled
    else if ¬ (← ask (.reserveAttempt nowMs)) then return .error (← lockedError nowMs)
    else match ← evaluateCode secretOf row code nowMs with
      | .error e => return .error e
      | .ok step =>
        if ← ask (.turnOn step nowMs) then
          let codes ← replaceBackupCodes hashBackupCode
          return .ok codes
        else return .error .alreadyEnabled

def clearTotp : Task Bool := do
  ask .deleteBackupCodes
  ask .deleteRow

def disableTotp (proof : TotpProof) (nowMs : ℤ) : Task (Except Failure Bool) := do
  match ← verifyTotpFactor secretOf hashBackupCode proof nowMs with
  | .error e => return .error e
  | .ok _ =>
    let wasOn ← clearTotp
    return .ok wasOn

def regenerateBackupCodes (proof : TotpProof) (nowMs : ℤ) :
    Task (Except Failure (List String)) := do
  match ← verifyTotpFactor secretOf hashBackupCode proof nowMs with
  | .error e => return .error e
  | .ok _ =>
    let codes ← replaceBackupCodes hashBackupCode
    return .ok codes

end Service

/-! ## The calls -/

inductive Kind
  | setup
  | enable (code : String) (nowMs : ℤ)
  | verify (proof : TotpProof) (nowMs : ℤ)
  | disable (proof : TotpProof) (nowMs : ℤ)
  | regenerate (proof : TotpProof) (nowMs : ℤ)
  /-- By an administrator. -/
  | clear
  deriving DecidableEq

inductive Reply
  | failed (e : Failure)
  | setup (secretEncrypted : String)
  | codes (codes : List String)
  | verified (factor : TotpFactorUsed)
  | cleared (wasOn : Bool)

def Reply.of {α : Type} (ok : α → Reply) : Except Failure α → Reply
  | .ok a => ok a
  | .error e => failed e

def Kind.run (secretOf : String → Option Secret) (hashBackupCode : String → String) :
    Kind → Task Reply
  | setup => return .of .setup (← beginTotpSetup)
  | enable code nowMs => return .of .codes (← enableTotp secretOf hashBackupCode code nowMs)
  | verify proof nowMs =>
    return .of .verified (← verifyTotpFactor secretOf hashBackupCode proof nowMs)
  | disable proof nowMs => return .of .cleared (← disableTotp secretOf hashBackupCode proof nowMs)
  | regenerate proof nowMs =>
    return .of .codes (← regenerateBackupCodes secretOf hashBackupCode proof nowMs)
  | clear => return .cleared (← clearTotp)

end Insula.Totp
