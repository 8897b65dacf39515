import Insula.Javascript
import Insula.Program

/-!
# The queue of notification deliveries

The dispatcher writes a row of `notification_deliveries` and asks pg-boss for a job. A job of the
email queue runs `processDelivery`: it reads the row, sets it to `sending`, prepares the message,
hands it to the mail provider, and writes what came of it. Failures are tried again after a while,
until `dlq`. The ntfy queue has a worker of its own, an operator can send a row through once more,
and a scan asks for the jobs of rows that nothing seems to happen to. pg-boss may run any number of
jobs for one row, at once or one after the other; any statement may throw.
-/

namespace Insula.Notifications

open Program (request Attempt)
open Javascript

inductive Channel
  | inApp
  | email
  | ntfy
  deriving DecidableEq

inductive DeliveryStatus
  | queued
  | sending
  | sent
  | failed
  | dlq
  | skipped
  | rateLimited
  | muted
  deriving DecidableEq

namespace DeliveryStatus

def text : DeliveryStatus → String
  | queued => "queued"
  | sending => "sending"
  | sent => "sent"
  | failed => "failed"
  | dlq => "dlq"
  | skipped => "skipped"
  | rateLimited => "rate_limited"
  | muted => "muted"

/-- The statuses that a worker takes a row from. -/
def Waiting (s : DeliveryStatus) : Prop := s = queued ∨ s = failed

instance (s : DeliveryStatus) : Decidable s.Waiting := inferInstanceAs (Decidable (_ ∨ _))

def Final (s : DeliveryStatus) : Prop :=
  s = sent ∨ s = dlq ∨ s = muted ∨ s = skipped ∨ s = rateLimited

instance (s : DeliveryStatus) : Decidable s.Final :=
  inferInstanceAs (Decidable (_ ∨ _ ∨ _ ∨ _ ∨ _))

end DeliveryStatus

/-- `event_variables.__ntfy`, as far as the worker looks at it. -/
structure NtfyPayload where
  title : Option String
  message : Option String
  deriving DecidableEq

structure Delivery where
  id : String
  userId : Option String
  recipientAddress : Option String
  categoryId : String
  channel : Channel
  providerId : Option String
  templateId : Option String
  status : DeliveryStatus
  attempt : ℕ
  nextAttemptAt : Option ℤ
  lastError : Option String
  degradedVars : Option (List String)
  queuedAt : ℤ
  dedupeKey : Option String
  ntfy : Option NtfyPayload
  deriving DecidableEq

/-! ## Retries -/

def retryBackoffSeconds : List ℤ := [30, 2 * 60, 8 * 60, 32 * 60, 2 * 3600, 8 * 3600]

def maxDeliveryAttempts : ℕ := retryBackoffSeconds.length

inductive RetryDecision
  | failed (nextAttemptAt : ℤ)
  | dlq
  deriving DecidableEq

namespace RetryDecision

def status : RetryDecision → DeliveryStatus
  | failed _ => .failed
  | dlq => .dlq

def nextAttemptAt : RetryDecision → Option ℤ
  | failed t => some t
  | dlq => none

end RetryDecision

def decideRetry (attempt : ℕ) (now : ℤ) : RetryDecision :=
  if maxDeliveryAttempts ≤ attempt then .dlq
  else
    let backoffSeconds := match attempt with
      | 0 => retryBackoffSeconds.getLastD 0
      | k + 1 => (retryBackoffSeconds[k]?).getD (retryBackoffSeconds.getLastD 0)
    .failed (now + backoffSeconds * 1000)

/-! ## Statements on the table -/

inductive Update
  | sending
  | sent (attempt : ℕ) (recipientAddress : Option String) (degradedVars : Option (List String))
      (lastError : Option String)
  /-- `sent` by the ntfy worker. -/
  | published
  | failure (decision : RetryDecision) (attempt : ℕ) (reason : String)
  /-- The reset of an operator's retry. -/
  | requeued
  deriving DecidableEq

namespace Delivery

variable (d : Delivery)

def apply : Update → Delivery
  | .sending => { d with status := .sending }
  | .sent attempt recipientAddress degradedVars lastError =>
    { d with
      status := .sent
      attempt := attempt
      recipientAddress := recipientAddress.or d.recipientAddress
      degradedVars := degradedVars.or d.degradedVars
      lastError := lastError.or d.lastError }
  | .published => { d with status := .sent, lastError := none }
  | .failure decision attempt reason =>
    { d with
      status := decision.status
      attempt := attempt
      lastError := some reason
      nextAttemptAt := decision.nextAttemptAt }
  | .requeued =>
    { d with status := .queued, attempt := 0, nextAttemptAt := none, lastError := none }

@[simp] theorem apply_id (u : Update) : (d.apply u).id = d.id := by cases u <;> rfl

@[simp] theorem apply_channel (u : Update) : (d.apply u).channel = d.channel := by
  cases u <;> rfl

end Delivery

structure EnqueueOptions where
  startAfter : Option ℤ
  singletonKey : Option String
  deriving DecidableEq

inductive Op
  | findDelivery (id : String)
  | updateDelivery (id : String) (update : Update)
  | insertDelivery (delivery : Delivery)
  | getTemplate (templateId : String)
  | renderForDelivery (delivery : Delivery)
  | getUserEmail (userId : String)
  | getProviderForCategoryEmail (categoryId : String)
  | getCategoryEmailProviderId (categoryId : String)
  | readStalwartMasterCredentials
  | decrypt (secret : String)
  /-- The message of the delivery goes to the mail provider. -/
  | send (deliveryId : String) (recipient : String)
  | getNtfyProvider (providerId : String)
  | publishNtfy (deliveryId : String)
  | enqueueDelivery (id : String) (options : EnqueueOptions)
  | enqueueNtfyDelivery (id : String) (options : EnqueueOptions)
  | now
  | randomUUID
  deriving DecidableEq

structure Rendered where
  degradedVars : List String
  fallbackUsed : Bool

structure Provider where
  smtpHost : Option String
  stalwartInternal : Bool
  authPasswordEncrypted : Option String

inductive NtfyAuthMethod
  | none
  | token
  | basic
  deriving DecidableEq

structure NtfyProvider where
  enabled : Bool
  ntfyTopic : Option String
  ntfyAuthMethod : NtfyAuthMethod
  ntfyTokenEncrypted : Option String
  authPasswordEncrypted : Option String

abbrev Val : Op → Type
  | .findDelivery _ => Option Delivery
  | .updateDelivery _ _ => Unit
  | .insertDelivery _ => Unit
  | .getTemplate _ => Bool
  | .renderForDelivery _ => Rendered
  | .getUserEmail _ => Option String
  | .getProviderForCategoryEmail _ => Option Provider
  | .getCategoryEmailProviderId _ => Option String
  | .readStalwartMasterCredentials => Bool
  | .decrypt _ => String
  | .send _ _ => Unit
  | .getNtfyProvider _ => Option NtfyProvider
  | .publishNtfy _ => Unit
  | .enqueueDelivery _ _ => Unit
  | .enqueueNtfyDelivery _ _ => Unit
  | .now => ℤ
  | .randomUUID => String

/-- What is thrown; `permanent` is that of `NtfyPublishError`. -/
structure Thrown where
  message : String
  permanent : Bool
  /-- The call had its effect and its answer was lost, which the code cannot tell. -/
  applied : Bool

abbrev Task := Attempt Thrown Op Val

abbrev ask (o : Op) : Task (Val o) := request o

inductive Reply
  | processed (status : DeliveryStatus) (error : Option String)
  | retried (id : String)
  | refused (httpStatus : ℕ) (code : String) (message : String)
  | emitted
  deriving DecidableEq

/-! ## The email worker -/

section EmailWorker

def markFailedOrDlq (deliveryId : String) (newAttempt : ℕ) (reason : String) : Task Reply := do
  let now ← ask .now
  let decision := decideRetry newAttempt now
  ask (.updateDelivery deliveryId (.failure decision newAttempt reason))
  match decision with
  | .failed nextAttemptAt =>
    ask (.enqueueDelivery deliveryId
      { startAfter := some nextAttemptAt
        singletonKey := some s!"delivery:{deliveryId}:retry:{newAttempt}" })
    return .processed .failed (some reason)
  | .dlq => return .processed .dlq (some reason)

def templateFound (templateId : String) : Task Bool :=
  tryCatch (ask (.getTemplate templateId)) fun _ => pure false

def resolveRecipient (row : Delivery) : Task (Except String String) :=
  match row.recipientAddress.filter (· != ""), row.userId.filter (· != "") with
  | some address, _ => pure (.ok address)
  | none, none => pure (.error "user_id_missing")
  | none, some userId => do
      let email ← ask (.getUserEmail userId)
      match email.filter (· != "") with
      | some address => return .ok address
      | none => return .error "recipient_email_missing"

def resolveProvider (categoryId : String) : Task (Except String Provider) := do
  let provider ← ask (.getProviderForCategoryEmail categoryId)
  match provider with
  | none =>
    let emailProviderId ← ask (.getCategoryEmailProviderId categoryId)
    return .error (if truthy emailProviderId then "override_provider_unavailable"
      else "no_default_notification_provider")
  | some provider =>
    return if truthy provider.smtpHost then .ok provider else .error "provider_smtp_host_missing"

def resolveCredentials (encryptionKey : Option String) (provider : Provider) :
    Task (Except String Unit) :=
  if ¬ truthy encryptionKey then pure (.error "platform_encryption_key_missing")
  else if provider.stalwartInternal then do
    let found ← ask .readStalwartMasterCredentials
    return if found then .ok () else .error "stalwart_master_credentials_unavailable"
  else match provider.authPasswordEncrypted.filter (· != "") with
    | none => pure (.ok ())
    | some secret =>
      tryCatch (do
        let _ ← ask (.decrypt secret)
        return .ok ()) fun _ => pure (.error "provider_password_decrypt_failed")

def prepare (encryptionKey : Option String) (row : Delivery) (templateId : String) :
    Task (Except String (Rendered × String)) := do
  if ¬ (← templateFound templateId) then return .error "template_not_found"
  let rendered ← ask (.renderForDelivery row)
  match ← resolveRecipient row with
  | .error reason => return .error reason
  | .ok recipient =>
    match ← resolveProvider row.categoryId with
    | .error reason => return .error reason
    | .ok provider =>
      match ← resolveCredentials encryptionKey provider with
      | .error reason => return .error reason
      | .ok () => return .ok (rendered, recipient)

def clampDegradedVars (vars : List String) : List String := vars.take 20

def sentUpdate (row : Delivery) (rendered : Rendered) (recipient : String) : Update :=
  .sent (row.attempt + 1)
    (if truthy row.recipientAddress then none else some recipient)
    (if rendered.degradedVars = [] then none else some (clampDegradedVars rendered.degradedVars))
    (if rendered.fallbackUsed then some "render_fallback: template unrenderable at send time"
      else none)

def deliver (encryptionKey : Option String) (deliveryId : String) (row : Delivery)
    (templateId : String) : Task Reply := do
  match ← prepare encryptionKey row templateId with
  | .error reason => markFailedOrDlq row.id (row.attempt + 1) reason
  | .ok (rendered, recipient) =>
    ask (.send deliveryId recipient)
    ask (.updateDelivery deliveryId (sentUpdate row rendered recipient))
    return .processed .sent none

def claimAndDeliver (encryptionKey : Option String) (deliveryId : String) (row : Delivery)
    (templateId : String) : Task Reply := do
  ask (.updateDelivery deliveryId .sending)
  tryCatch (deliver encryptionKey deliveryId row templateId) fun thrown =>
    markFailedOrDlq row.id (row.attempt + 1) thrown.message

def processDelivery (encryptionKey : Option String) (deliveryId : String) : Task Reply := do
  match ← ask (.findDelivery deliveryId) with
  | none => return .processed .skipped (some "delivery_not_found")
  | some row =>
    if ¬ row.status.Waiting then
      return .processed .skipped (some s!"terminal_status:{row.status.text}")
    else if row.channel ≠ .email then return .processed .skipped (some "channel_not_email")
    else match row.templateId.filter (· != "") with
      | none => return .processed .skipped (some "template_id_missing")
      | some templateId => claimAndDeliver encryptionKey deliveryId row templateId

end EmailWorker

/-! ## The ntfy worker -/

section NtfyWorker

def failNtfy (deliveryId : String) (newAttempt : ℕ) (reason : String) (permanent : Bool) :
    Task Reply := do
  let now ← ask .now
  let decision := if permanent then .dlq else decideRetry newAttempt now
  ask (.updateDelivery deliveryId (.failure decision newAttempt reason))
  match decision with
  | .failed nextAttemptAt =>
    tryCatch
      (ask (.enqueueNtfyDelivery deliveryId
        { startAfter := some nextAttemptAt
          singletonKey := some s!"delivery:{deliveryId}:retry:{newAttempt}" }))
      fun _ => pure ()
    return .processed .failed (some reason)
  | .dlq => return .processed .dlq (some reason)

def ntfyCredentials (encryptionKey : Option String) (provider : NtfyProvider) : Task Bool :=
  let secret := match provider.ntfyAuthMethod with
    | .token => provider.ntfyTokenEncrypted
    | .basic => provider.authPasswordEncrypted
    | .none => none
  match truthy encryptionKey, secret.filter (· != "") with
  | true, some secret =>
    tryCatch (do
      let _ ← ask (.decrypt secret)
      return true) fun _ => pure false
  | _, _ => pure true

/-- The reason why the row can never be published, if there is one. -/
def ntfyObstacle (encryptionKey : Option String) (row : Delivery) : Task (Option String) := do
  let payload := row.ntfy.filter fun p => truthy p.title && truthy p.message
  match payload, row.providerId.filter (· != "") with
  | none, _ => return some "ntfy_payload_missing"
  | some _, none => return some "provider_id_missing"
  | some _, some providerId =>
    match ← ask (.getNtfyProvider providerId) with
    | none => return some "provider_not_found"
    | some provider =>
      if ¬ provider.enabled then return some "provider_disabled"
      else if ¬ truthy provider.ntfyTopic then return some "provider_topic_missing"
      else if ← ntfyCredentials encryptionKey provider then return none
      else return some "credential_decrypt_failed"

def claimAndPublish (deliveryId : String) (row : Delivery) : Task Reply := do
  ask (.updateDelivery deliveryId .sending)
  tryCatch (do
    ask (.publishNtfy deliveryId)
    ask (.updateDelivery deliveryId .published)
    return .processed .sent none) fun thrown =>
      failNtfy row.id (row.attempt + 1) (String.ofList (thrown.message.toList.take 1000))
        thrown.permanent

def processNtfyDelivery (encryptionKey : Option String) (deliveryId : String) : Task Reply := do
  match ← ask (.findDelivery deliveryId) with
  | none => return .processed .skipped (some "delivery_not_found")
  | some row =>
    if ¬ row.status.Waiting then
      return .processed .skipped (some s!"terminal_status:{row.status.text}")
    else if row.channel ≠ .ntfy then return .processed .skipped (some "channel_not_ntfy")
    else match ← ntfyObstacle encryptionKey row with
      | some reason => failNtfy row.id (row.attempt + 1) reason true
      | none => claimAndPublish deliveryId row

end NtfyWorker

/-! ## The dispatcher's part -/

/-- Why the dispatcher writes a row that no worker is to look at. -/
inductive Withheld
  | muted
  | skipped
  | rateLimited

def Withheld.status : Withheld → DeliveryStatus
  | muted => .muted
  | skipped => .skipped
  | rateLimited => .rateLimited

inductive Leg
  | withheld (userId categoryId : String) (channel : Channel) (why : Withheld)
      (lastError : Option String)
  | inApp (userId categoryId templateId : String)
  | email (userId categoryId templateId : String)
  | external (address categoryId templateId : String)
  | ntfy (categoryId templateId providerId : String) (payload : NtfyPayload)

namespace Leg

def delivery (id : String) (queuedAt : ℤ) (dedupeKey : Option String) : Leg → Delivery
  | withheld userId categoryId channel why lastError =>
    { id, queuedAt, dedupeKey, categoryId, channel, lastError
      userId := some userId
      recipientAddress := none
      providerId := none
      templateId := none
      status := why.status
      attempt := 0
      nextAttemptAt := none
      degradedVars := none
      ntfy := none }
  | inApp userId categoryId templateId =>
    { id, queuedAt, dedupeKey, categoryId
      channel := .inApp
      userId := some userId
      recipientAddress := none
      providerId := none
      templateId := some templateId
      status := .sent
      attempt := 1
      nextAttemptAt := none
      lastError := none
      degradedVars := none
      ntfy := none }
  | email userId categoryId templateId =>
    { id, queuedAt, dedupeKey, categoryId
      channel := .email
      userId := some userId
      recipientAddress := none
      providerId := none
      templateId := some templateId
      status := .queued
      attempt := 0
      nextAttemptAt := none
      lastError := none
      degradedVars := none
      ntfy := none }
  | external address categoryId templateId =>
    { id, queuedAt, dedupeKey, categoryId
      channel := .email
      userId := none
      recipientAddress := some address
      providerId := none
      templateId := some templateId
      status := .queued
      attempt := 0
      nextAttemptAt := none
      lastError := none
      degradedVars := none
      ntfy := none }
  | ntfy categoryId templateId providerId payload =>
    { id, queuedAt, dedupeKey, categoryId
      channel := .ntfy
      userId := none
      recipientAddress := none
      providerId := some providerId
      templateId := some templateId
      status := .queued
      attempt := 0
      nextAttemptAt := none
      lastError := none
      degradedVars := none
      ntfy := some payload }

def enqueue (id : String) : Leg → Task Unit
  | withheld .. => pure ()
  | inApp .. => pure ()
  | email .. => ask (.enqueueDelivery id { startAfter := none, singletonKey := none })
  | external .. => ask (.enqueueDelivery id { startAfter := none, singletonKey := none })
  | ntfy .. => ask (.enqueueNtfyDelivery id { startAfter := none, singletonKey := none })

end Leg

def emitLeg (leg : Leg) (dedupeKey : Option String) : Task Reply := do
  let id ← ask .randomUUID
  let queuedAt ← ask .now
  ask (.insertDelivery (leg.delivery id queuedAt dedupeKey))
  -- Best effort: the row stays queued, and the scan is to find it.
  tryCatch (leg.enqueue id) fun _ => pure ()
  return .emitted

/-- `POST /admin/notifications/deliveries/:id/retry`. -/
def retryDelivery (id : String) : Task Reply := do
  match ← ask (.findDelivery id) with
  | none => return .refused 404 "DELIVERY_NOT_FOUND" s!"Delivery '{id}' not found"
  | some row =>
    if row.channel ≠ .email then
      return .refused 400 "OPERATION_NOT_ALLOWED"
        "Only email deliveries can be retried (in_app rows are written synchronously)"
    else if row.status ≠ .failed ∧ row.status ≠ .dlq then
      let status := row.status.text
      return .refused 409 "OPERATION_NOT_ALLOWED"
        s!"Cannot retry delivery in status '{status}' — only 'failed' or 'dlq' are retriable"
    else
      ask (.updateDelivery id .requeued)
      let now ← ask .now
      tryCatch
        (ask (.enqueueDelivery id
          { startAfter := none
            singletonKey := some s!"delivery:{id}:manual-retry:{now}" }))
        fun _ => pure ()
      return .retried id

/-! ## The scan -/

section Scan

/-- `STUCK_QUEUED_THRESHOLD_SECONDS` and `FAILED_RETRY_LAG_SECONDS`, in milliseconds. -/
def scanLagMs : ℤ := 60 * 1000

def maxBatchSize : ℕ := 100

variable (now : ℤ) (rows : List Delivery)

def stuck (d : Delivery) : Prop :=
  (d.channel = .email ∨ d.channel = .ntfy) ∧
    ((d.status = .queued ∧ d.queuedAt < now - scanLagMs) ∨
      (d.status = .failed ∧ ∀ t ∈ d.nextAttemptAt, t < now - scanLagMs))

instance (d : Delivery) : Decidable (stuck now d) := by
  unfold stuck
  infer_instance

def candidates : List Delivery := rows.filter fun d => stuck now d

/-- The jobs that `reenqueueStuckDeliveries` asks for: the queue of the channel, the delivery and
the key of the job. -/
def reenqueueStuckDeliveries : List (Channel × String × String) :=
  ((candidates now rows).take maxBatchSize).map fun d =>
    let minute := now / 60000
    (if d.channel = .ntfy then .ntfy else .email, d.id,
      s!"delivery:{d.id}:scan:{minute}:attempt:{d.attempt}")

end Scan

end Insula.Notifications
