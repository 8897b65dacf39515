import Insula.DeliveryQueue
import Insula.Stages

/-!
# Runs of the workers on one table

Any number of jobs, operator's retries and dispatches run on the table of deliveries, one statement
at a time in any order, and each may stop midway. `Stage` is what one of them has last done to its
delivery; it is kept beside the table and read by no code. Every program below keeps to the order of
stages: only what has claimed a delivery sends it, and it ends only after it has written what came
of it, or after that very write has thrown.
-/

namespace Insula.Notifications

open Program Concurrent

inductive Stage
  | idle
  /-- It has read the row, and written nothing. -/
  | found (d : Delivery)
  /-- It has set the row to `sending`. -/
  | claimed (id : String)
  /-- An exception was caught after that. -/
  | caught (id : String)
  /-- The message was handed to the mail provider. -/
  | handed (id : String)
  /-- It was, and then its sending or the update to `sent` threw. -/
  | unmarked (id : String)
  /-- What came of it was written to the row. -/
  | settled (id : String)
  /-- What comes of it will not be written: nothing is left to try. -/
  | stranded (id : String)
  deriving DecidableEq

namespace Stage

/-- The delivery that it has set to `sending` without having written what came of it. -/
def claim : Stage → Option String
  | claimed id => some id
  | caught id => some id
  | handed id => some id
  | unmarked id => some id
  | _ => none

/-- The delivery it is about, once it knows that it is one of a queue. -/
def subject : Stage → Option String
  | idle => none
  | found d => if d.channel = .inApp then none else some d.id
  | claimed id => some id
  | caught id => some id
  | handed id => some id
  | unmarked id => some id
  | settled id => some id
  | stranded id => some id

/-- After an exception that goes to the `catch`. -/
def throwing : Stage → Stage
  | claimed id => caught id
  | handed id => unmarked id
  | b => b

def failing : Stage → Stage
  | claimed id => caught id
  | caught id => stranded id
  | unmarked id => stranded id
  | b => b

/-- After an update that took effect and threw. The one to `sending` is outside of the `try`. -/
def unanswered (id : String) : Update → Stage
  | .sending => stranded id
  | _ => settled id

def Allowed : Stage → Op → Prop
  | b, .findDelivery _ => b = idle
  | b, .insertDelivery d =>
    b = idle ∧ d.status ≠ .sending ∧ (d.channel = .inApp → d.status.Final)
  | b, .updateDelivery id .sending =>
    ∃ d, b = found d ∧ d.id = id ∧ d.channel ≠ .inApp ∧ d.status.Waiting
  | b, .updateDelivery id (.sent ..) => b = handed id
  | b, .updateDelivery id .published => b = claimed id
  | b, .updateDelivery id (.failure ..) =>
    b = claimed id ∨ b = caught id ∨ b = unmarked id ∨ b = settled id ∨
      ∃ d, b = found d ∧ d.id = id ∧ d.channel = .ntfy ∧ d.status.Waiting
  | b, .updateDelivery id .requeued =>
    ∃ d, b = found d ∧ d.id = id ∧ d.channel = .email ∧ (d.status = .failed ∨ d.status = .dlq)
  | b, .send id _ => b = claimed id
  | b, .publishNtfy id => b = claimed id
  | handed _, _ => False
  | _, _ => True

/-- The stage after the answer; `none` for an answer that does not occur. -/
def next (b : Stage) : (o : Op) → Except Thrown (Val o) → Option Stage
  | .findDelivery id, .ok (some d) => if d.id = id then some (found d) else none
  | .updateDelivery id .sending, .ok _ => some (claimed id)
  | .updateDelivery id (.failure ..), .ok _ => some (settled id)
  | .updateDelivery id (.failure decision attempt reason), .error e =>
    some (if e.applied then unanswered id (.failure decision attempt reason) else b.failing)
  | .updateDelivery _ _, .ok _ => some idle
  | .updateDelivery id u, .error e => some (if e.applied then unanswered id u else b.throwing)
  | .send id _, .ok _ => some (handed id)
  | .send id _, .error e => some (if e.applied then unmarked id else b.throwing)
  -- Without a template, or when a secret cannot be decrypted, no exception leaves.
  | .getTemplate _, .error _ => some b
  | .decrypt _, .error _ => some b
  | .now, .error _ => none
  | .randomUUID, .error _ => none
  | _, .ok _ => some b
  | _, .error _ => some b.throwing

@[simp] theorem subject_throwing (b : Stage) : b.throwing.subject = b.subject := by cases b <;> rfl

@[simp] theorem claim_throwing (b : Stage) : b.throwing.claim = b.claim := by cases b <;> rfl

@[simp] theorem subject_failing (b : Stage) : b.failing.subject = b.subject := by cases b <;> rfl

@[simp] theorem claim_unanswered (id : String) (u : Update) : (unanswered id u).claim = none := by
  cases u <;> rfl

@[simp] theorem subject_unanswered (id : String) (u : Update) :
    (unanswered id u).subject = some id := by
  cases u <;> rfl

theorem subject_of_claim {b : Stage} {id : String} (h : b.claim = some id) :
    b.subject = some id := by
  cases b <;> first | exact h | cases h

/-- A write is to the row that the process is about. -/
theorem subject_of_allowed {b : Stage} {id : String} {u : Update}
    (h : b.Allowed (.updateDelivery id u)) : b.subject = some id := by
  cases u with
  | sending =>
    obtain ⟨d, rfl, hid, hchannel, -⟩ := h
    simp [subject, hchannel, hid]
  | sent attempt recipientAddress degradedVars lastError =>
    cases h
    rfl
  | published =>
    cases h
    rfl
  | failure decision attempt reason =>
    rcases h with rfl | rfl | rfl | rfl | ⟨d, rfl, hid, hchannel, -⟩
    · rfl
    · rfl
    · rfl
    · rfl
    · simp [subject, hchannel, hid]
  | requeued =>
    obtain ⟨d, rfl, hid, hchannel, -⟩ := h
    simp [subject, hchannel, hid]

def discipline : Discipline Op (fun o => Except Thrown (Val o)) Stage where
  allowed := Allowed
  next := next

end Stage

/-! ## The table and what goes on around it -/

structure World where
  rows : List Delivery
  /-- The deliveries whose message was accepted by the mail provider. -/
  handedOver : List String
  /-- By process. -/
  stage : ℕ → Stage

namespace World

variable (w : World) {id : String}

def update (id : String) (u : Update) : List Delivery :=
  w.rows.map fun d => if d.id = id then d.apply u else d

def effect : Op → Option World
  | .updateDelivery id u => some { w with rows := w.update id u }
  | .insertDelivery d =>
    if d.id ∉ w.rows.map Delivery.id ∧ d.id ∉ w.handedOver then
      some { w with rows := w.rows ++ [d] }
    else none
  | .send id _ => some { w with handedOver := id :: w.handedOver }
  | _ => some w

def perform : (o : Op) → Val o → Option World
  | .findDelivery id, r => if r = w.rows.find? (fun d => d.id = id) then some w else none
  | o, _ => w.effect o

/-- What a call does to the table when it is answered: nothing, where it throws without effect. -/
def respond (o : Op) : Except Thrown (Val o) → Option World
  | .ok r => w.perform o r
  | .error e => if e.applied then w.effect o else some w

theorem respond_error {m : World} {o : Op} {e : Thrown} (hm : w.respond o (.error e) = some m) :
    (e.applied = false ∧ m = w) ∨ (e.applied = true ∧ w.effect o = some m) := by
  change (if e.applied then w.effect o else some w) = some m at hm
  cases hlost : e.applied with
  | false => exact .inl ⟨rfl, by simpa [hlost] using hm.symm⟩
  | true => exact .inr ⟨rfl, by simpa [hlost] using hm⟩

/-- A process that looks for a row has read one of the table, or goes on as it was. -/
theorem findDelivery_cases {m : World} {i : ℕ} {a : Val (.findDelivery id)} {b : Stage}
    (hm : w.perform (.findDelivery id) a = some m)
    (hb : (w.stage i).next (.findDelivery id) (.ok a) = some b) :
    m = w ∧ (b = w.stage i ∨ ∃ d ∈ w.rows, b = .found d) := by
  obtain ⟨hfound, hm⟩ := Option.ite_none_right_eq_some.mp hm
  refine ⟨(Option.some.inj hm).symm, ?_⟩
  cases a with
  | none => exact .inl (Option.some.inj hb).symm
  | some d =>
    obtain ⟨-, hb⟩ := Option.ite_none_right_eq_some.mp hb
    exact .inr ⟨d, List.mem_of_find?_eq_some hfound.symm, (Option.some.inj hb).symm⟩

theorem mem_update_self {u : Update} {d : Delivery} (hid : d.id = id) :
    d ∈ w.update id u ↔ ∃ d₀ ∈ w.rows, d₀.id = id ∧ d = d₀.apply u := by
  unfold update
  rw [List.mem_map]
  constructor
  · rintro ⟨d₀, hd₀, rfl⟩
    by_cases h : d₀.id = id
    · rw [if_pos h]
      exact ⟨d₀, hd₀, h, rfl⟩
    · rw [if_neg h] at hid
      exact absurd hid h
  · rintro ⟨d₀, hd₀, h, rfl⟩
    exact ⟨d₀, hd₀, if_pos h⟩

theorem mem_update_of_ne {u : Update} {d : Delivery} (hid : d.id ≠ id) :
    d ∈ w.update id u ↔ d ∈ w.rows := by
  unfold update
  rw [List.mem_map]
  constructor
  · rintro ⟨d₀, hd₀, rfl⟩
    by_cases h : d₀.id = id
    · rw [if_pos h] at hid
      exact absurd (by simpa using h) hid
    · rw [if_neg h]
      exact hd₀
  · intro hd
    exact ⟨d, hd, if_neg hid⟩

end World

def handle (w : World) (i : ℕ) (o : Op) (r : Except Thrown (Val o)) : Option World :=
  (w.respond o r).bind fun w' =>
    ((w.stage i).next o r).map fun b => { w' with stage := Function.update w.stage i b }

inductive Kind
  | job (deliveryId : String)
  | ntfyJob (deliveryId : String)
  | retry (id : String)
  | emit (leg : Leg) (dedupeKey : Option String)

variable (encryptionKey : Option String)

def Kind.run : Kind → Program Op (fun o => Except Thrown (Val o)) (Except Thrown Reply)
  | job deliveryId => (processDelivery encryptionKey deliveryId).run
  | ntfyJob deliveryId => (processNtfyDelivery encryptionKey deliveryId).run
  | retry id => (retryDelivery id).run
  | emit leg dedupeKey => (emitLeg leg dedupeKey).run

abbrev Deliveries := Config World Kind Op (fun o => Except Thrown (Val o)) (Except Thrown Reply)

abbrev Happening := Event Kind Op (fun o => Except Thrown (Val o))

/-! ## The programs keep to the discipline -/

/-- It ends without a claim that nothing was written for. -/
def Ends (b : Stage) (_ : Except Thrown Reply) : Prop := b.claim = none

section Follows

open Stage

variable {α β : Type} {b : Stage} {id : String} {row : Delivery}

theorem follows_ask (o : Op) {Q : Stage → Except Thrown (Val o) → Prop} :
    Follows discipline Q (ask o).run b ↔
      Allowed b o ∧ (∀ a b', b.next o (.ok a) = some b' → Q b' (.ok a)) ∧
        ∀ e b', b.next o (.error e) = some b' → Q b' (.error e) :=
  follows_run_request

theorem follows_ask_bind (o : Op) {f : Val o → Task β} {Q : Stage → Except Thrown β → Prop} :
    Follows discipline Q (ask o >>= f).run b ↔ Allowed b o ∧
        (∀ a b', b.next o (.ok a) = some b' → Follows discipline Q (f a).run b') ∧
        ∀ e b', b.next o (.error e) = some b' → Q b' (.error e) := by
  rw [follows_run_bind]
  exact follows_ask o

/-- Looking things up for a message leaves the claim, unless something is thrown. -/
def Looked (id : String) (b : Stage) : Except Thrown α → Prop
  | .ok _ => b = claimed id
  | .error _ => b = caught id

theorem looked_pure (a : α) : Follows discipline (Looked id) (pure a : Task α).run (claimed id) := rfl

theorem looked_bind {x : Task α} {f : α → Task β}
    (hx : Follows discipline (Looked id) x.run (claimed id))
    (hf : ∀ a, Follows discipline (Looked id) (f a).run (claimed id)) :
    Follows discipline (Looked id) (x >>= f).run (claimed id) := by
  rw [follows_run_bind]
  apply follows_mono _ hx
  intro b' a hb'
  cases a with
  | ok a =>
    cases hb'
    exact hf a
  | error e => exact hb'

/-- A lookup whose exception goes to the `catch`. -/
theorem looked_ask {o : Op} (hallowed : Allowed (claimed id) o)
    (hok : ∀ a, (claimed id).next o (.ok a) = some (claimed id))
    (herror : ∀ e, (claimed id).next o (.error e) = some (caught id)) :
    Follows discipline (Looked id) (ask o).run (claimed id) := by
  refine (follows_ask o).mpr ⟨hallowed, ?_, ?_⟩
  · intro a b' hb'
    exact (Option.some.inj ((hok a).symm.trans hb')).symm
  · intro e b' hb'
    exact (Option.some.inj ((herror e).symm.trans hb')).symm

/-- A lookup whose exception is caught at once. -/
theorem looked_tryAsk {x : Task α} {a : α}
    (hx : Follows discipline (fun b' _ => b' = claimed id) x.run (claimed id)) :
    Follows discipline (Looked id) (tryCatch x fun _ => pure a).run (claimed id) := by
  rw [follows_run_tryCatch]
  apply follows_mono _ hx
  intro b' r hb'
  cases r with
  | ok r => exact hb'
  | error e => exact hb'

theorem templateFound_looked (templateId : String) :
    Follows discipline (Looked id) (templateFound templateId).run (claimed id) := by
  apply looked_tryAsk
  refine (follows_ask (.getTemplate templateId)).mpr ⟨trivial, ?_, ?_⟩
  · intro a b' hb'
    exact (Option.some.inj hb').symm
  · intro e b' hb'
    exact (Option.some.inj hb').symm

theorem resolveRecipient_looked (row : Delivery) :
    Follows discipline (Looked id) (resolveRecipient row).run (claimed id) := by
  unfold resolveRecipient
  split
  · exact looked_pure _
  · exact looked_pure _
  · apply looked_bind
    · exact looked_ask trivial (fun _ => rfl) (fun _ => rfl)
    · intro email
      split <;> exact looked_pure _

theorem resolveProvider_looked (categoryId : String) :
    Follows discipline (Looked id) (resolveProvider categoryId).run (claimed id) := by
  unfold resolveProvider
  apply looked_bind
  · exact looked_ask trivial (fun _ => rfl) (fun _ => rfl)
  · intro provider
    cases provider with
    | none =>
      apply looked_bind
      · exact looked_ask trivial (fun _ => rfl) (fun _ => rfl)
      · exact fun _ => looked_pure _
    | some provider => exact looked_pure _

theorem resolveCredentials_looked (provider : Provider) :
    Follows discipline (Looked id) (resolveCredentials encryptionKey provider).run (claimed id) := by
  unfold resolveCredentials
  split
  · exact looked_pure _
  · split
    · apply looked_bind
      · exact looked_ask trivial (fun _ => rfl) (fun _ => rfl)
      · exact fun _ => looked_pure _
    · split
      · exact looked_pure _
      · rename_i secret _
        apply looked_tryAsk
        rw [follows_run_bind]
        refine (follows_ask (.decrypt secret)).mpr ⟨trivial, ?_, ?_⟩
        · intro a b' hb'
          exact (Option.some.inj hb').symm
        · intro e b' hb'
          exact (Option.some.inj hb').symm

theorem prepare_looked (row : Delivery) (templateId : String) :
    Follows discipline (Looked id) (prepare encryptionKey row templateId).run (claimed id) := by
  unfold prepare
  apply looked_bind (templateFound_looked templateId)
  intro found
  split
  · exact looked_pure _
  · apply looked_bind (looked_ask (o := .renderForDelivery row) trivial (fun _ => rfl) (fun _ => rfl))
    intro rendered
    apply looked_bind (resolveRecipient_looked row)
    intro recipient
    cases recipient with
    | error reason => exact looked_pure _
    | ok recipient =>
      apply looked_bind (resolveProvider_looked row.categoryId)
      intro provider
      cases provider with
      | error reason => exact looked_pure _
      | ok provider =>
        apply looked_bind (resolveCredentials_looked encryptionKey provider)
        intro credentials
        cases credentials <;> exact looked_pure _

/-! ### Writing what came of it -/

def Writing (id : String) (b : Stage) : Prop :=
  b = claimed id ∨ b = caught id ∨ b = unmarked id ∨ b = settled id

theorem Writing.allowed (hb : Writing id b) {decision : RetryDecision} {attempt : ℕ}
    {reason : String} : Allowed b (.updateDelivery id (.failure decision attempt reason)) := by
  rcases hb with h | h | h | h
  · exact .inl h
  · exact .inr (.inl h)
  · exact .inr (.inr (.inl h))
  · exact .inr (.inr (.inr (.inl h)))

theorem Writing.now (hb : Writing id b) : Allowed b .now := by
  rcases hb with rfl | rfl | rfl | rfl <;> trivial

def Wrote (id : String) (b₀ b : Stage) : Except Thrown Reply → Prop
  | .ok _ => b = settled id
  | .error _ => b = settled id ∨ b = b₀.failing

theorem markFailedOrDlq_wrote (hb : Writing id b) (newAttempt : ℕ) (reason : String) :
    Follows discipline (Wrote id b) (markFailedOrDlq id newAttempt reason).run b := by
  unfold markFailedOrDlq
  refine (follows_ask_bind .now).mpr ⟨hb.now, ?_, fun e b' hb' => by cases hb'⟩
  intro now b' hb'
  cases hb'
  refine (follows_ask_bind (.updateDelivery id (.failure (decideRetry newAttempt now) newAttempt
    reason))).mpr ⟨hb.allowed, ?_, ?_⟩
  · intro _ b' hb'
    cases hb'
    cases decideRetry newAttempt now with
    | failed nextAttemptAt =>
      refine (follows_ask_bind (.enqueueDelivery id _)).mpr ⟨trivial, ?_, ?_⟩
      · intro _ b' hb'
        cases hb'
        rfl
      · intro e b' hb'
        cases hb'
        exact .inl rfl
    | dlq => exact rfl
  · intro e b' hb'
    cases hb'
    by_cases happlied : e.applied = true
    · rw [if_pos happlied]
      exact .inl rfl
    · rw [if_neg happlied]
      exact .inr rfl

/-- Where the `catch` may be entered from. -/
def Caught (id : String) (b : Stage) : Prop := b = caught id ∨ b = unmarked id ∨ b = settled id

/-- In the `catch` the failure is written, or the program ends. -/
theorem ends_of_wrote {b₀ : Stage} (hb₀ : Caught id b₀) {r : Except Thrown Reply}
    (h : Wrote id b₀ b r) : Ends b r := by
  have hfailing : b₀.failing.claim = none := by
    rcases hb₀ with rfl | rfl | rfl <;> rfl
  cases r with
  | ok reply =>
    cases h
    rfl
  | error e =>
    rcases h with rfl | rfl
    · rfl
    · exact hfailing

/-- After the message was sent or a failure written, or in the `catch`. -/
def Delivered (id : String) (b : Stage) : Except Thrown Reply → Prop
  | .ok _ => b.claim = none
  | .error _ => Caught id b

theorem deliver_delivered (row : Delivery) (hrow : row.id = id) (templateId : String) :
    Follows discipline (Delivered id) (deliver encryptionKey id row templateId).run
      (claimed id) := by
  unfold deliver
  rw [follows_run_bind]
  apply follows_mono _ (prepare_looked encryptionKey row templateId)
  intro b prepared hb
  cases prepared with
  | error e => exact .inl hb
  | ok prepared =>
    cases hb
    cases prepared with
    | error reason =>
      have hwrote := markFailedOrDlq_wrote (b := claimed id) (.inl rfl) (row.attempt + 1) reason
      change Follows discipline _ (markFailedOrDlq row.id (row.attempt + 1) reason).run _
      rw [hrow]
      apply follows_mono _ hwrote
      intro b r h
      cases r with
      | ok reply =>
        cases h
        rfl
      | error e =>
        rcases h with rfl | rfl
        · exact .inr (.inr rfl)
        · exact .inl rfl
    | ok found =>
      refine (follows_ask_bind (.send id found.2)).mpr ⟨rfl, ?_, ?_⟩
      · intro _ b hb
        cases hb
        refine (follows_ask_bind (.updateDelivery id (sentUpdate row found.1 found.2))).mpr
          ⟨rfl, ?_, ?_⟩
        · intro _ b hb
          cases hb
          rfl
        · intro e b hb
          cases hb
          by_cases happlied : e.applied = true
          · rw [if_pos happlied]
            exact .inr (.inr rfl)
          · rw [if_neg happlied]
            exact .inr (.inl rfl)
      · intro e b hb
        cases hb
        by_cases happlied : e.applied = true
        · rw [if_pos happlied]
          exact .inr (.inl rfl)
        · rw [if_neg happlied]
          exact .inl rfl

/-- An update that throws outside of the `try` leaves no claim. -/
theorem ends_unanswered (e : Thrown) {u : Update} {b₀ : Stage} (hb₀ : b₀.claim = none)
    {r : Except Thrown Reply} : Ends (if e.applied then unanswered id u else b₀) r := by
  unfold Ends
  split
  · exact claim_unanswered id u
  · exact hb₀

theorem claimAndDeliver_ends (hrow : row.id = id) (hwaiting : row.status.Waiting)
    (hchannel : row.channel = .email) (templateId : String) :
    Follows discipline Ends (claimAndDeliver encryptionKey id row templateId).run (found row) := by
  unfold claimAndDeliver
  refine (follows_ask_bind (.updateDelivery id .sending)).mpr ⟨?_, ?_, ?_⟩
  · exact ⟨row, rfl, hrow, by simp [hchannel], hwaiting⟩
  · intro _ b hb
    cases hb
    rw [follows_run_tryCatch]
    apply follows_mono _ (deliver_delivered encryptionKey row hrow templateId)
    intro b r hr
    cases r with
    | ok reply => exact hr
    | error e =>
      have hwriting : Writing id b := by
        rcases hr with h | h | h
        · exact .inr (.inl h)
        · exact .inr (.inr (.inl h))
        · exact .inr (.inr (.inr h))
      change Follows discipline _ (markFailedOrDlq row.id (row.attempt + 1) e.message).run _
      rw [hrow]
      exact follows_mono (fun _ _ => ends_of_wrote hr)
        (markFailedOrDlq_wrote hwriting (row.attempt + 1) e.message)
  · intro e b hb
    cases hb
    exact ends_unanswered e rfl

theorem idle_find_ends {deliveryId : String} {f : Option Delivery → Task Reply}
    (hnone : Follows discipline Ends (f none).run idle)
    (hsome : ∀ row : Delivery, row.id = deliveryId →
      Follows discipline Ends (f (some row)).run (found row)) :
    Follows discipline Ends (ask (.findDelivery deliveryId) >>= f).run idle := by
  refine (follows_ask_bind (.findDelivery deliveryId)).mpr ⟨rfl, ?_, ?_⟩
  · intro row b hb
    cases row with
    | none =>
      cases hb
      exact hnone
    | some row =>
      simp only [Stage.next] at hb
      split_ifs at hb with hrow
      cases hb
      exact hsome row hrow
  · intro e b hb
    cases hb
    rfl

theorem processDelivery_ends (deliveryId : String) :
    Follows discipline Ends (processDelivery encryptionKey deliveryId).run idle := by
  unfold processDelivery
  apply idle_find_ends
  · exact rfl
  · intro row hrow
    dsimp only
    split
    · exact rfl
    · rename_i hwaiting
      split
      · exact rfl
      · rename_i hchannel
        split
        · exact rfl
        · rename_i templateId _
          exact claimAndDeliver_ends encryptionKey hrow (not_not.mp hwaiting) (not_not.mp hchannel)
            templateId

theorem failNtfy_wrote (hnow : Allowed b .now) (hallowed : ∀ decision attempt reason,
      Allowed b (.updateDelivery id (.failure decision attempt reason)))
    (newAttempt : ℕ) (reason : String) (permanent : Bool) :
    Follows discipline (Wrote id b) (failNtfy id newAttempt reason permanent).run b := by
  unfold failNtfy
  refine (follows_ask_bind .now).mpr ⟨hnow, ?_, fun e b' hb' => by cases hb'⟩
  intro now b' hb'
  cases hb'
  dsimp only
  generalize (if permanent then .dlq else decideRetry newAttempt now : RetryDecision) = decision
  refine (follows_ask_bind (.updateDelivery id (.failure decision newAttempt reason))).mpr
    ⟨hallowed _ _ _, ?_, ?_⟩
  · intro _ b' hb'
    cases hb'
    cases decision with
    | failed nextAttemptAt =>
      rw [follows_run_bind, follows_run_tryCatch]
      refine (follows_ask (.enqueueNtfyDelivery id _)).mpr ⟨trivial, ?_, ?_⟩
      · intro _ b' hb'
        cases hb'
        rfl
      · intro e b' hb'
        cases hb'
        rfl
    | dlq => exact rfl
  · intro e b' hb'
    cases hb'
    by_cases happlied : e.applied = true
    · rw [if_pos happlied]
      exact .inl rfl
    · rw [if_neg happlied]
      exact .inr rfl

/-- What the ntfy worker looks at before it claims the row leaves it where it is. -/
theorem ntfyCredentials_found (provider : NtfyProvider) :
    Follows discipline (fun b _ => b = found row) (ntfyCredentials encryptionKey provider).run
      (found row) := by
  unfold ntfyCredentials
  dsimp only
  split
  · rename_i secret _ _
    rw [follows_run_tryCatch, follows_run_bind]
    refine (follows_ask (.decrypt secret)).mpr ⟨trivial, ?_, ?_⟩
    · intro _ b hb
      cases hb
      rfl
    · intro e b hb
      cases hb
      rfl
  · exact rfl

theorem ntfyObstacle_found (row : Delivery) :
    Follows discipline (fun b _ => b = found row) (ntfyObstacle encryptionKey row).run
      (found row) := by
  unfold ntfyObstacle
  dsimp only
  split
  · exact rfl
  · exact rfl
  · rename_i providerId _ _
    refine (follows_ask_bind (.getNtfyProvider providerId)).mpr ⟨trivial, ?_, ?_⟩
    · intro provider b hb
      cases hb
      cases provider with
      | none => exact rfl
      | some provider =>
        dsimp only
        split
        · exact rfl
        · split
          · exact rfl
          · rw [follows_run_bind]
            apply follows_mono _ (ntfyCredentials_found encryptionKey provider)
            intro b r hb
            cases r with
            | ok decrypted =>
              unfold Resumes
              dsimp only
              split <;> exact hb
            | error e => exact hb
    · intro e b hb
      cases hb
      rfl

theorem claimAndPublish_ends (hrow : row.id = id) (hwaiting : row.status.Waiting)
    (hchannel : row.channel = .ntfy) :
    Follows discipline Ends (claimAndPublish id row).run (found row) := by
  have hcatch : ∀ (e : Thrown) (b : Stage), Caught id b → Follows discipline Ends
      (failNtfy row.id (row.attempt + 1) (String.ofList (e.message.toList.take 1000))
        e.permanent).run b := by
    intro e b hb
    have hwriting : Writing id b := .inr hb
    rw [hrow]
    apply follows_mono _ (failNtfy_wrote hwriting.now (fun _ _ _ => hwriting.allowed)
      (row.attempt + 1) (String.ofList (e.message.toList.take 1000)) e.permanent)
    exact fun _ _ => ends_of_wrote hb
  unfold claimAndPublish
  refine (follows_ask_bind (.updateDelivery id .sending)).mpr ⟨?_, ?_, ?_⟩
  · exact ⟨row, rfl, hrow, by simp [hchannel], hwaiting⟩
  · intro _ b hb
    cases hb
    rw [follows_run_tryCatch]
    refine (follows_ask_bind (.publishNtfy id)).mpr ⟨rfl, ?_, ?_⟩
    · intro _ b hb
      cases hb
      refine (follows_ask_bind (.updateDelivery id .published)).mpr ⟨rfl, ?_, ?_⟩
      · intro _ b hb
        cases hb
        rfl
      · intro e b hb
        cases hb
        apply hcatch e
        by_cases happlied : e.applied = true
        · rw [if_pos happlied]
          exact .inr (.inr rfl)
        · rw [if_neg happlied]
          exact .inl rfl
    · intro e b hb
      cases hb
      exact hcatch e _ (.inl rfl)
  · intro e b hb
    cases hb
    exact ends_unanswered e rfl

theorem processNtfyDelivery_ends (deliveryId : String) :
    Follows discipline Ends (processNtfyDelivery encryptionKey deliveryId).run idle := by
  unfold processNtfyDelivery
  apply idle_find_ends
  · exact rfl
  · intro row hrow
    dsimp only
    split
    · exact rfl
    · rename_i hwaiting
      split
      · exact rfl
      · rename_i hchannel
        have hntfy := not_not.mp hchannel
        rw [follows_run_bind]
        apply follows_mono _ (ntfyObstacle_found encryptionKey row)
        intro b r hb
        cases hb
        cases r with
        | ok obstacle =>
          cases obstacle with
          | some reason =>
            change Follows discipline Ends (failNtfy row.id (row.attempt + 1) reason true).run _
            have hallowed : ∀ decision attempt reason, Allowed (found row)
                (.updateDelivery row.id (.failure decision attempt reason)) :=
              fun _ _ _ => .inr (.inr (.inr (.inr ⟨row, rfl, rfl, hntfy, not_not.mp hwaiting⟩)))
            have hwrote := failNtfy_wrote (b := found row) trivial hallowed
              (row.attempt + 1) reason true
            apply follows_mono _ hwrote
            intro b r h
            cases r with
            | ok reply =>
              cases h
              rfl
            | error e =>
              rcases h with rfl | rfl <;> rfl
          | none => exact claimAndPublish_ends hrow (not_not.mp hwaiting) hntfy
        | error e => exact rfl

theorem retryDelivery_ends (deliveryId : String) :
    Follows discipline Ends (retryDelivery deliveryId).run idle := by
  unfold retryDelivery
  apply idle_find_ends
  · exact rfl
  · intro row hrow
    dsimp only
    split
    · exact rfl
    · rename_i hchannel
      split
      · exact rfl
      · rename_i hstatus
        have hretriable : row.status = .failed ∨ row.status = .dlq := by
          by_contra hnot
          exact hstatus (not_or.mp hnot)
        refine (follows_ask_bind (.updateDelivery deliveryId .requeued)).mpr ⟨?_, ?_, ?_⟩
        · exact ⟨row, rfl, hrow, not_not.mp hchannel, hretriable⟩
        · intro _ b hb
          cases hb
          refine (follows_ask_bind .now).mpr ⟨trivial, ?_, fun e b' hb' => by cases hb'⟩
          intro now b hb
          cases hb
          rw [follows_run_bind, follows_run_tryCatch]
          refine (follows_ask (.enqueueDelivery deliveryId _)).mpr ⟨trivial, ?_, ?_⟩
          · intro _ b hb
            cases hb
            rfl
          · intro e b hb
            cases hb
            rfl
        · intro e b hb
          cases hb
          exact ends_unanswered e rfl

theorem enqueue_idle (leg : Leg) :
    Follows discipline (fun b _ => b = idle) (leg.enqueue id).run idle := by
  cases leg with
  | withheld userId categoryId channel why lastError => exact rfl
  | inApp userId categoryId templateId => exact rfl
  | email userId categoryId templateId =>
    exact (follows_ask (.enqueueDelivery id _)).mpr
      ⟨trivial, fun _ b hb => (Option.some.inj hb).symm, fun e b hb => (Option.some.inj hb).symm⟩
  | external address categoryId templateId =>
    exact (follows_ask (.enqueueDelivery id _)).mpr
      ⟨trivial, fun _ b hb => (Option.some.inj hb).symm, fun e b hb => (Option.some.inj hb).symm⟩
  | ntfy categoryId templateId providerId payload =>
    exact (follows_ask (.enqueueNtfyDelivery id _)).mpr
      ⟨trivial, fun _ b hb => (Option.some.inj hb).symm, fun e b hb => (Option.some.inj hb).symm⟩

/-- The dispatcher writes rows that are queued or final, and to the panel only final ones. -/
theorem delivery_status (leg : Leg) (queuedAt : ℤ) (dedupeKey : Option String) :
    (leg.delivery id queuedAt dedupeKey).status ≠ .sending ∧
      ((leg.delivery id queuedAt dedupeKey).channel = .inApp →
        (leg.delivery id queuedAt dedupeKey).status.Final) := by
  cases leg with
  | withheld userId categoryId channel why lastError =>
    cases why <;> simp [Leg.delivery, Withheld.status, DeliveryStatus.Final]
  | _ => simp [Leg.delivery, DeliveryStatus.Final]

theorem emitLeg_ends (leg : Leg) (dedupeKey : Option String) :
    Follows discipline Ends (emitLeg leg dedupeKey).run idle := by
  unfold emitLeg
  refine (follows_ask_bind .randomUUID).mpr ⟨trivial, ?_, fun e b' hb' => by cases hb'⟩
  intro newId b hb
  cases hb
  refine (follows_ask_bind .now).mpr ⟨trivial, ?_, fun e b' hb' => by cases hb'⟩
  intro queuedAt b hb
  cases hb
  refine (follows_ask_bind (.insertDelivery (leg.delivery newId queuedAt dedupeKey))).mpr ⟨?_, ?_, ?_⟩
  · exact ⟨rfl, delivery_status leg queuedAt dedupeKey⟩
  · intro _ b hb
    cases hb
    rw [follows_run_bind, follows_run_tryCatch]
    apply follows_mono _ (enqueue_idle leg)
    intro b r hb
    cases hb
    cases r <;> exact rfl
  · intro e b hb
    cases hb
    rfl

theorem run_ends (kind : Kind) : Follows discipline Ends (kind.run encryptionKey) idle := by
  cases kind with
  | job deliveryId => exact processDelivery_ends encryptionKey deliveryId
  | ntfyJob deliveryId => exact processNtfyDelivery_ends encryptionKey deliveryId
  | retry id => exact retryDelivery_ends id
  | emit leg dedupeKey => exact emitLeg_ends leg dedupeKey

end Follows

/-! ## Every run keeps to it -/

section Runs

variable {encryptionKey : Option String} {s t : Deliveries} {e : Happening}

theorem handle_eq_some {w w' : World} {i : ℕ} {o : Op} {r : Except Thrown (Val o)} :
    handle w i o r = some w' ↔ ∃ m b, w.respond o r = some m ∧ (w.stage i).next o r = some b ∧
      w' = { m with stage := Function.update w.stage i b } := by
  apply Option.map₂_eq_some_iff.trans
  simp only [Option.mem_def, eq_comm (b := w')]

theorem handle_moves : MovesStages (fun _ : Kind => Stage.discipline) World.stage handle := by
  intro _ w i o r w' hw
  obtain ⟨m, b, -, hb, rfl⟩ := handle_eq_some.mp hw
  exact ⟨b, hb, rfl⟩

abbrev OnTrack (s : Deliveries) : Prop :=
  Holds (Fresh World.stage .idle) (OnCourse (fun _ => Stage.discipline) World.stage Ends) s

theorem onTrack_step (h : OnTrack s)
    (hs : Concurrent.step (Kind.run encryptionKey) handle s e = some t) : OnTrack t :=
  onCourse_step handle_moves (run_ends encryptionKey) h hs

theorem world_step (h : OnTrack s)
    (hs : Concurrent.step (Kind.run encryptionKey) handle s e = some t) :
    t.world = s.world ∨ ∃ i o r m b, e = .act i o r ∧ (s.world.stage i).Allowed o ∧
      s.world.respond o r = some m ∧ (s.world.stage i).next o r = some b ∧
      t.world = { m with stage := Function.update s.world.stage i b } := by
  rcases allowed_step h hs with hw | ⟨i, o, r, kind, next, rfl, -, hallowed, hw⟩
  · exact .inl hw
  · obtain ⟨m, b, hm, hb, heq⟩ := handle_eq_some.mp hw
    exact .inr ⟨i, o, r, m, b, rfl, hallowed, hm, hb, heq⟩

end Runs

end Insula.Notifications
