import Insula.BackupBundles
import Insula.Interleaving

/-!
# Capturing a bundle: the branches of `runBundle`

`orchestrator.ts` captures the components of a bundle in branches that run beside each other, each
with its own rows of `backup_components`. A branch that fails says so in the list of errors, and the
bundle is completed when that list is empty after all branches have ended. What every call of the
source answers is given beforehand: a pattern of failures. What has no part in the rows, the errors
and the status is left out: the dumps of databases, sizes, the data export and the notifications.
-/

namespace Insula.TenantBundles

open Javascript

namespace RunBundle

/-- What a call answers: it goes through, or throws an error with a message, if that has one. A call
whose answer was lost on the way has been `applied` all the same. -/
inductive Answer
  | ok
  | threw (message : Option String) (applied : Bool)
  deriving DecidableEq

def Answer.takesEffect : Answer → Bool
  | .ok => true
  | .threw _ applied => applied

inductive Thrown
  | error (message : Option String)
  /-- `FilesComponentSkippedError`. -/
  | skipped (reason : String)

/-- A row of `backup_components` of one component, whose number stands for its `randomUUID`. -/
structure ComponentRow where
  number : ℕ
  artifactName : String
  status : BackupComponentStatus
  sizeBytes : ℕ
  sha256 : Option String
  lastError : Option String
  deriving DecidableEq

/-- What a branch does that others can see: writes to its rows, and `errors.push`. -/
inductive Effect
  | insert (row : ComponentRow)
  | update (number : ℕ) (set : ComponentRow → ComponentRow)
  | report (error : String)

abbrev Branch (α : Type) := ExceptT Thrown (StateM (List Effect)) α

def emit (e : Effect) : Branch Unit := modify fun effects => effects ++ [e]

def write (answer : Answer) (e : Effect) : Branch Unit :=
  match answer with
  | .ok => emit e
  | .threw message true => do
      emit e
      throw (.error message)
  | .threw message false => throw (.error message)

def runningRow (artifactName : String) : ComponentRow where
  number := 0
  artifactName := artifactName
  status := .running
  sizeBytes := 0
  sha256 := none
  lastError := none

def insertComponentRow (answer : Answer) (artifactName : String) : Branch ℕ := do
  write answer (.insert (runningRow artifactName))
  pure 0

def markComponentDone (answer : Answer) (row sizeBytes : ℕ) (sha256 : Option String) :
    Branch Unit :=
  write answer (.update row fun r =>
    { r with status := .completed, sizeBytes := sizeBytes, sha256 := sha256 })

def markComponentRowFailed (answer : Answer) (row : ℕ) (error : String) : Branch Unit :=
  write answer (.update row fun r => { r with status := .failed, lastError := some error })

def markComponentRowSkipped (answer : Answer) (row : ℕ) (reason : String) : Branch Unit :=
  write answer (.update row fun r => { r with status := .skipped, lastError := some reason })

def markComponentFailed (answer : Answer) (artifactName error : String) : Branch Unit :=
  write answer (.insert
    { runningRow artifactName with status := .failed, lastError := some error })

structure Deps where
  k8s : Bool
  platformApiUrl : Bool

def messageOr (fallback : String) : Thrown → String
  | .error message => message.getD fallback
  | .skipped reason => reason

inductive FilesCapture
  | captured (sizeBytes : ℕ) (sha256 : String)
  | skipped (reason : String)
  | threw (message : Option String)

structure FilesAnswers where
  insertFailed : Answer
  insert : Answer
  capture : FilesCapture
  done : Answer
  markSkipped : Answer
  markFailed : Answer

/-- The branch of the files. Handing the file manager back in its `finally` touches no row. -/
def filesBranch (deps : Deps) (a : FilesAnswers) : Branch Unit :=
  if deps.k8s = false then do
    emit (.report "files: kubernetes tenant unavailable")
    markComponentFailed a.insertFailed "archive.tar.gz" "kubernetes tenant unavailable"
  else do
    let row ← insertComponentRow a.insert "archive.tar.gz"
    tryCatch
      (match a.capture with
      | .captured sizeBytes sha256 => markComponentDone a.done row sizeBytes (some sha256)
      | .skipped reason => throw (.skipped reason)
      | .threw message => throw (.error message))
      fun err =>
        match err with
        -- The claim on the storage is missing: no error of the bundle.
        | .skipped reason => markComponentRowSkipped a.markSkipped row reason
        | .error message => do
            let msg := message.getD "files capture failed"
            emit (.report ("files: " ++ msg))
            markComponentRowFailed a.markFailed row msg

inductive Capture
  | captured (sizeBytes : ℕ)
  | threw (message : Option String)

/-- The `try` and `catch` of the branches of the configuration and of the secrets. -/
def captureOrReport (component : String) (capture : Capture) (done markFailed : Answer)
    (row : ℕ) : Branch Unit :=
  tryCatch
    (match capture with
    | .captured sizeBytes => markComponentDone done row sizeBytes none
    | .threw message => throw (.error message))
    fun err => do
      let msg := messageOr (component ++ " capture failed") err
      emit (.report (component ++ ": " ++ msg))
      markComponentRowFailed markFailed row msg

structure ConfigAnswers where
  insert : Answer
  capture : Capture
  done : Answer
  markFailed : Answer

def configBranch (a : ConfigAnswers) : Branch Unit := do
  let row ← insertComponentRow a.insert "db-rows.json.gz"
  captureOrReport "config" a.capture a.done a.markFailed row

structure SecretsAnswers where
  insertFailed : Answer
  /-- `tenantNamespaceHasSecrets`, which answers yes when it cannot tell. -/
  hasSecrets : Bool
  insert : Answer
  markSkipped : Answer
  capture : Capture
  done : Answer
  markFailed : Answer

def secretsBranch (deps : Deps) (namespaceName : String) (a : SecretsAnswers) : Branch Unit :=
  if deps.k8s = false then do
    emit (.report "secrets: kubernetes tenant unavailable")
    markComponentFailed a.insertFailed "tls.json.gz.enc" "kubernetes tenant unavailable"
  else do
    let row ← insertComponentRow a.insert "tls.json.gz.enc"
    if a.hasSecrets = false then
      markComponentRowSkipped a.markSkipped row ("no secrets in namespace " ++ namespaceName)
    else captureOrReport "secrets" a.capture a.done a.markFailed row

structure MailboxSnapshot where
  address : String
  snapshotId : String
  sizeBytes : ℕ

inductive MailboxesCapture
  | captured (perMailbox : List MailboxSnapshot) (sizeBytes : ℕ)
  | threw (message : Option String)

structure MailboxesAnswers where
  insertFailed : Answer
  /-- `countTenantMailboxes`, which answers 1 when it cannot tell. -/
  mailboxCount : ℕ
  insert : Answer
  markSkipped : Answer
  capture : MailboxesCapture
  /-- For the row that is there already. -/
  done : Answer
  /-- For the rows of the further mailboxes. -/
  insertMailbox : ℕ → Answer
  markDrift : Answer
  markFailed : Answer

def MailboxSnapshot.row (m : MailboxSnapshot) (number : ℕ) : ComponentRow where
  number := number
  artifactName := m.address
  status := .completed
  sizeBytes := m.sizeBytes
  sha256 := some m.snapshotId
  lastError := none

def MailboxSnapshot.record (m : MailboxSnapshot) (r : ComponentRow) : ComponentRow :=
  { r with
    artifactName := m.address
    status := .completed
    sizeBytes := m.sizeBytes
    sha256 := some m.snapshotId }

def insertMailboxRows (answer : ℕ → Answer) : ℕ → List MailboxSnapshot → Branch Unit
  | _, [] => pure ()
  | n, m :: rest => do
      write (answer n) (.insert (m.row n))
      insertMailboxRows answer (n + 1) rest

def recordPerMailboxComponentRows (a : MailboxesAnswers) (row : ℕ) (sizeBytes : ℕ) :
    List MailboxSnapshot → Branch Unit
  | [] => markComponentDone a.done row sizeBytes none
  | first :: rest => do
      write a.done (.update row first.record)
      insertMailboxRows a.insertMailbox 1 rest

/-- The mail server does not know a principal that the platform does. -/
def isStalwartDrift (msg : String) : Bool :=
  let lower := String.ofList (msg.toList.map Char.toLower)
  includes lower "no such user" || includes lower "principal not found" ||
    includes lower "principal id is required" || includes lower "not a valid principal"

def driftReason (msg : String) : String :=
  "Stalwart principal drift — operator should sync via stalwart-principals-sync. Detail: " ++ msg

def captureMailboxes (a : MailboxesAnswers) (row : ℕ) : Branch Unit :=
  match a.capture with
  | .captured perMailbox sizeBytes => recordPerMailboxComponentRows a row sizeBytes perMailbox
  | .threw message => throw (.error message)

def reportMailboxes (a : MailboxesAnswers) (row : ℕ) (msg : String) : Branch Unit := do
  emit (.report ("mailboxes: " ++ msg))
  markComponentRowFailed a.markFailed row msg

def mailboxesBranch (deps : Deps) (a : MailboxesAnswers) : Branch Unit :=
  if deps.k8s = false then do
    emit (.report "mailboxes: kubernetes tenant unavailable")
    markComponentFailed a.insertFailed "__pending__" "kubernetes tenant unavailable"
  else if deps.platformApiUrl = false then do
    emit (.report "mailboxes: platformApiUrl required for HTTP-upload pattern")
    markComponentFailed a.insertFailed "__pending__" "platformApiUrl missing"
  else do
    let row ← insertComponentRow a.insert "__pending__"
    if a.mailboxCount = 0 then
      markComponentRowSkipped a.markSkipped row "no mailboxes for tenant"
    else
      tryCatch (captureMailboxes a row) fun err =>
        let msg := messageOr "mailboxes capture failed" err
        if isStalwartDrift msg = true then
          tryCatch (markComponentRowSkipped a.markDrift row (driftReason msg)) fun _ =>
            reportMailboxes a row msg
        else reportMailboxes a row msg

/-- What a branch did by the time it ended. Whether it threw in the end is no matter:
`Promise.allSettled` takes note of neither. -/
def effects (branch : Branch Unit) : List Effect := (branch.run.run []).2

structure Answers where
  deps : Deps
  namespaceName : String
  files : FilesAnswers
  mailboxes : MailboxesAnswers
  config : ConfigAnswers
  secrets : SecretsAnswers
  captureTenantBlock : Answer
  captureDomainsSummary : Answer
  captureDeploymentsSummary : Answer
  putMeta : Answer
  /-- The error of the data export, if there is one. -/
  exportError : Option String
  finalUpdate : Answer

def trace (requested : BackupComponentName → Bool) (a : Answers) (c : BackupComponentName) :
    List Effect :=
  if requested c then
    match c with
    | .files => effects (filesBranch a.deps a.files)
    | .mailboxes => effects (mailboxesBranch a.deps a.mailboxes)
    | .config => effects (configBranch a.config)
    | .secrets => effects (secretsBranch a.deps a.namespaceName a.secrets)
  else []

/-- The rows of all components of the bundle, and `errors`. -/
structure Ledger where
  rows : List (BackupComponentName × ComponentRow)
  errors : List String

def Ledger.apply (ledger : Ledger) : BackupComponentName × Effect → Ledger
  | (c, .insert row) => { ledger with rows := ledger.rows ++ [(c, row)] }
  | (c, .update number set) =>
    { ledger with
      rows := ledger.rows.map fun p =>
        if p.1 = c ∧ p.2.number = number then (c, set p.2) else p }
  | (_, .report error) => { ledger with errors := ledger.errors ++ [error] }

def Ledger.rowsOf (ledger : Ledger) (c : BackupComponentName) : List ComponentRow :=
  (ledger.rows.filter fun p => p.1 = c).map Prod.snd

/-- What is on record of a bundle once `runBundle` has returned or thrown. -/
structure Outcome where
  ledger : Ledger
  /-- The commit marker. -/
  metaWritten : Bool
  status : BackupJobStatus
  lastError : Option String

/-- What `runBundle` does once its branches have ended. What throws here leaves the bundle as it
is, but for the effect it may have had itself. -/
def finish (a : Answers) (ledger : Ledger) : Outcome :=
  let status : BackupJobStatus := if ledger.errors.isEmpty then .completed else .partially
  if a.captureTenantBlock ≠ .ok ∨ a.captureDomainsSummary ≠ .ok ∨
      a.captureDeploymentsSummary ≠ .ok then
    { ledger := ledger, metaWritten := false, status := .running, lastError := none }
  else if status = .completed ∧ a.putMeta ≠ .ok then
    { ledger := ledger
      metaWritten := a.putMeta.takesEffect
      status := .running
      lastError := none }
  else
    let errors := ledger.errors ++ (if status = .completed then a.exportError.toList else [])
    if a.finalUpdate.takesEffect then
      { ledger := ledger
        metaWritten := decide (status = .completed)
        status := status
        lastError := if errors.isEmpty then none else some ("; ".intercalate errors) }
    else
      { ledger := ledger
        metaWritten := decide (status = .completed)
        status := .running
        lastError := none }

def runBundle (a : Answers) (schedule : List (BackupComponentName × Effect)) : Outcome :=
  finish a (schedule.foldl Ledger.apply { rows := [], errors := [] })

end RunBundle

end Insula.TenantBundles
