import Insula.DeliveryQueue

/-!
# The fan-out of the dispatcher

`emitEvent` of `notifications/dispatcher/dispatch.ts`. A call goes through the users it resolved
and, for each, through the routed channels: a gate withholds a message, and otherwise it goes into
the panel, into the user's digest or to the queue of emails. Then come the external addresses. The
answers of the tables that are only asked (preferences, rate limits, templates, addresses) are part
of a call. A call can break off at any insert. The ntfy leg, which has no recipient, is left out.
-/

namespace Insula.Notifications

open Javascript

inductive NotificationClass
  | ambient
  | record
  | action
  | incident
  | availability
  | security
  deriving DecidableEq

structure ClassPolicy where
  mandatory : Bool
  digestible : Bool
  bypassesQuietHours : Bool

def classPolicy : NotificationClass → ClassPolicy
  | .ambient => ⟨false, true, false⟩
  | .record => ⟨false, true, false⟩
  | .action => ⟨false, true, false⟩
  | .incident => ⟨true, false, true⟩
  | .availability => ⟨true, false, true⟩
  | .security => ⟨true, false, true⟩

structure Category where
  id : String
  isActive : Bool
  /-- `default_severity` is `critical`. -/
  critical : Bool
  /-- `categoryMeta(id).cls`; a category without metadata has none. -/
  cls : Option NotificationClass

inductive DigestMode
  | immediate
  | hourly
  | daily
  deriving DecidableEq

def isDigestible (category : Category) (mode : DigestMode) : Bool :=
  if mode = .immediate then false
  else if category.id = "platform.digest" then false
  else match category.cls with
    | none => false
    | some cls => (classPolicy cls).digestible && !(classPolicy cls).mandatory

structure Holder where
  userId : String
  digestMode : DigestMode
  inQuietHours : Bool
  /-- `isCategoryAllowedForUser`. -/
  allowed : Channel → Bool
  /-- `consumeRateLimit`, where the category has a limit. -/
  withinRateLimit : Channel → Bool
  /-- `getActiveTemplate`. -/
  template : Channel → Option String

inductive Recipient
  | user (userId : String)
  | address (address : String)
  deriving DecidableEq

inductive Insert
  | notification (userId : String)
  | delivery (leg : Leg)
  | digestItem (userId : String)

structure EmitEvent where
  /-- `getCategory`; none for an unknown one. -/
  category : Option Category
  notificationsEnabled : Bool
  objectMuted : Bool
  routedChannels : List Channel
  /-- `resolveRecipients`. -/
  resolved : List Holder
  suppressed : Bool
  externalOnly : Bool
  externalRecipients : List String
  externalRecipientsOptedIn : Bool
  /-- The email template of the external leg. -/
  externalTemplate : Option String
  /-- `getUserEmail`. -/
  getUserEmail : String → Option String
  dedupeKey : Option String
  /-- The clock of the process, and `queued_at` of the rows. -/
  now : ℤ
  queuedAt : ℤ
  randomUUID : Leg → String
  /-- The call breaks off before the insert, or at it: a read or the insert itself throws, the
  answer of the insert before is lost, or the process stops. -/
  throws : Insert → Bool

def dedupeWindowMs : ℤ := 30 * 24 * 60 * 60 * 1000

def dedupeKeyMax : ℕ := 128

section ClampDedupeKey

variable (sha256 : String → String)

def clampDedupeKey (key : String) : String :=
  if Javascript.length key ≤ dedupeKeyMax then key
  else
    let hash := (sha256 key).toList.take 16
    String.ofList (sliceTo (dedupeKeyMax - hash.length - 1) key.toList ++ [':'] ++ hash)

theorem clampDedupeKey_ne_empty {key : String} (hkey : key ≠ "") :
    clampDedupeKey sha256 key ≠ "" := by
  unfold clampDedupeKey
  split
  · exact hkey
  · intro h
    have hlist := congrArg String.toList h
    simp at hlist

end ClampDedupeKey

/-! ## What a call inserts -/

def Leg.hasRecipient : Leg → Bool
  | withheld userId _ _ _ _ => userId != ""
  | inApp userId _ _ => userId != ""
  | email userId _ _ => userId != ""
  | external address _ _ => address != ""
  | ntfy .. => true

namespace Insert

def message : Insert → Option (Channel × Recipient)
  | notification userId => some (.inApp, .user userId)
  | delivery (.email userId _ _) => some (.email, .user userId)
  | delivery (.external address _ _) => some (.email, .address address)
  | delivery _ => none
  | digestItem userId => some (.email, .user userId)

def leg : Insert → Option Leg
  | delivery leg => some leg
  | _ => none

end Insert

inductive Gate
  | withheld (why : Withheld) (lastError : Option String)
  | passed (templateId : String)

namespace EmitEvent

variable (c : EmitEvent) (category : Category)

def bypassesQuietHours : Bool :=
  category.critical || (category.cls.map fun cls => (classPolicy cls).bypassesQuietHours).getD false

def gate (h : Holder) (channel : Channel) : Gate :=
  if ¬ h.allowed channel then .withheld .muted none
  else if ¬ bypassesQuietHours category ∧ h.inQuietHours then .withheld .muted none
  else if channel = .email ∧ ¬ truthy (c.getUserEmail h.userId) then
    .withheld .skipped (some "recipient_email_missing")
  else if ¬ h.withinRateLimit channel then .withheld .rateLimited none
  else match h.template channel with
    | none => .withheld .skipped (some "template_not_found")
    | some templateId => .passed templateId

def channelInserts (h : Holder) (channel : Channel) : List Insert :=
  if channel = .ntfy then []
  else match c.gate category h channel with
    | .withheld why lastError =>
      [.delivery (.withheld h.userId category.id channel why lastError)]
    | .passed templateId =>
      if channel = .inApp then
        [.notification h.userId, .delivery (.inApp h.userId category.id templateId)]
      else if isDigestible category h.digestMode then [.digestItem h.userId]
      else [.delivery (.email h.userId category.id templateId)]

def holderInserts (h : Holder) : List Insert :=
  c.routedChannels.flatMap (c.channelInserts category h)

def emails (h : Holder) : Bool :=
  c.routedChannels.any fun channel => match channel, c.gate category h channel with
    | .email, .passed _ => true
    | _, _ => false

def fails (x : Insert) : Bool :=
  c.throws x || match x with
    | .delivery leg => !leg.hasRecipient
    | _ => false

def recipients : List Holder := if c.suppressed || c.externalOnly then [] else c.resolved

def external : List String := if c.suppressed then [] else c.externalRecipients

/-- `address.trim().toLowerCase()`, for addresses in ASCII. -/
def normalise (address : String) : String :=
  let trimmed := ((address.toList.dropWhile Char.isWhitespace).reverse.dropWhile
    Char.isWhitespace).reverse
  String.ofList (trimmed.map Char.toLower)

def alreadyMailed (emailed : List String) : List String :=
  let holdersToDeferTo :=
    if c.externalRecipientsOptedIn then emailed else c.recipients.map Holder.userId
  holdersToDeferTo.filterMap fun userId =>
    ((c.getUserEmail userId).filter (· != "")).map normalise

def externalInserts (emailed : List String) : List Insert :=
  c.external.filterMap fun address =>
    if normalise address ∈ c.alreadyMailed emailed then none
    else c.externalTemplate.map fun templateId =>
      .delivery (.external address category.id templateId)

end EmitEvent

/-! ## The tables -/

structure Outbox where
  deliveries : List Delivery
  messages : List (Channel × Recipient)

namespace Outbox

variable (sha256 : String → String) (c : EmitEvent) (o : Outbox)

def findDedupedNotification (userId dedupeKey : String) (now : ℤ) : Bool :=
  o.deliveries.any fun d =>
    d.userId = some userId ∧ d.dedupeKey = some dedupeKey ∧ now - dedupeWindowMs < d.queuedAt

def insertAll (inserts : List Insert) : Outbox :=
  let done := inserts.takeWhile fun x => !c.fails x
  { deliveries := o.deliveries ++ (done.filterMap Insert.leg).map fun leg =>
      leg.delivery (c.randomUUID leg) c.queuedAt (c.dedupeKey.map (clampDedupeKey sha256))
    messages := o.messages ++ done.filterMap Insert.message }

def alreadyTold (userId : String) : Bool :=
  match (c.dedupeKey.map (clampDedupeKey sha256)).filter (· != "") with
  | some key => o.findDedupedNotification userId key c.now
  | none => false

/-- The loop over the users, with `emailedUserIds`; none once an insert has thrown. -/
def fanOut (category : Category) : Outbox → List String → List Holder → Outbox × Option (List String)
  | o, emailed, [] => (o, some emailed)
  | o, emailed, h :: hs =>
    if o.alreadyTold sha256 c h.userId then fanOut category o (h.userId :: emailed) hs
    else
      let o' := o.insertAll sha256 c (c.holderInserts category h)
      if (c.holderInserts category h).any c.fails then (o', none)
      else fanOut category o' (if c.emails category h then h.userId :: emailed else emailed) hs

def emitEvent : Outbox :=
  match c.category with
  | none => o
  | some category =>
    if ¬ category.isActive ∨ ¬ c.notificationsEnabled ∨ c.objectMuted then o
    else match fanOut sha256 c category o [] c.recipients with
      | (o', none) => o'
      | (o', some emailed) => o'.insertAll sha256 c (c.externalInserts category emailed)

end Outbox

end Insula.Notifications
