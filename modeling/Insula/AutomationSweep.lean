import Insula.AutomationPlan
import Insula.Program

/-!
# The sweep of the tenant automation

A sweep reads the tenants of a step once, and the settings again before every tenant. What it calls
is judged by what it has read: it begins an archive or a delete only for a tenant of its list that
is due under the settings of the moment, and tells a tenant only the date that the plan gives.
-/

namespace Insula.TenantAutomation

open Program

/-! ## What the sweep calls -/

structure Thrown where
  code : Option String
  message : String
  /-- The storage operation that owns the tenant. -/
  currentState : Option String
deriving DecidableEq

inductive ActionOutcome
  | done
  | skipped (reason : String)
  | failed (error : String)
deriving DecidableEq

inductive TellOutcome
  | told (reached : Bool)
  | skipped (reason : String)
deriving DecidableEq

structure Standing where
  status : String
  since : Option ℤ
  exempt : Bool
deriving DecidableEq

inductive Entry
  | told (tenantId name : String) (step : Step) (date : ℤ) (reached : Bool)
  | did (tenantId name : String) (step : Step)
  | failed (tenantId name : String) (step : Step) (error : String)
deriving DecidableEq

structure TenantAutomationRun where
  startedAt : ℤ
  finishedAt : ℤ
  scheduled : Bool
  archived : List Entry
  deleted : List Entry
  failed : List Entry
  told : List Entry
  archiveSkippedReason : Option String
  errors : List String
deriving DecidableEq

inductive Op
  | now
  | settings
  | inLine (step : Step)
  | archiveBlockedReason
  | archiveRetentionDays
  | buildArchiveServiceCtx
  | archiveTenant (tenantId : String) (retentionDays : Option ℕ) (suspendedBefore : ℤ)
  | waitForArchive (tenantId : String)
  | deleteTenant (tenantId : String) (archivedBefore : ℤ)
  | selectTenant (step : Step) (tenantId : String)
  | notifyTenant (step : Step) (tenantId : String) (date : ℤ)
  | writeNotice (step : Step) (tenantId : String) (date : ℤ) (reached : ℕ)
  | record (run : TenantAutomationRun)
  | notify (run : TenantAutomationRun)
deriving DecidableEq

def Val : Op → Type
  | .now => ℤ
  | .settings => TenantAutomationSettings
  | .inLine _ => List InLineTenant
  | .archiveBlockedReason => Option String
  | .archiveRetentionDays => ℕ
  | .waitForArchive _ => ActionOutcome
  | .selectTenant _ _ => Option Standing
  | .notifyTenant _ _ _ => ℕ
  | _ => Unit

abbrev Ans (o : Op) : Type := Except Thrown (Val o)

abbrev Sweep (α : Type) := Program Op Ans α

abbrev Call (α : Type) := Attempt Thrown Op Val α

namespace SweepIo

def now : Call ℤ := request Op.now

def settings : Call TenantAutomationSettings := request Op.settings

def inLine (step : Step) : Call (List InLineTenant) := request (Op.inLine step)

def archiveBlockedReason : Call (Option String) := request Op.archiveBlockedReason

def archiveRetentionDays : Call ℕ := request Op.archiveRetentionDays

def buildArchiveServiceCtx : Call Unit := request Op.buildArchiveServiceCtx

def archiveTenant (tenantId : String) (retentionDays : Option ℕ) (suspendedBefore : ℤ) : Call Unit :=
  request (Op.archiveTenant tenantId retentionDays suspendedBefore)

def waitForArchive (tenantId : String) : Call ActionOutcome := request (Op.waitForArchive tenantId)

def deleteTenant (tenantId : String) (archivedBefore : ℤ) : Call Unit :=
  request (Op.deleteTenant tenantId archivedBefore)

def selectTenant (step : Step) (tenantId : String) : Call (Option Standing) :=
  request (Op.selectTenant step tenantId)

def notifyTenant (step : Step) (tenantId : String) (date : ℤ) : Call ℕ :=
  request (Op.notifyTenant step tenantId date)

def writeNotice (step : Step) (tenantId : String) (date : ℤ) (reached : ℕ) : Call Unit :=
  request (Op.writeNotice step tenantId date reached)

def record (run : TenantAutomationRun) : Call Unit := request (Op.record run)

def notify (run : TenantAutomationRun) : Call Unit := request (Op.notify run)

end SweepIo

/-! ## One tenant -/

def Step.status : Step → String
  | .archive => "suspended"
  | .delete => "archived"

def notNow : List String :=
  ["NO_LONGER_DUE", "TENANT_BUSY", "STORAGE_OP_IN_PROGRESS", "ALREADY_ARCHIVED", "TENANT_NOT_FOUND"]

def stuck : String :=
  "Its last storage operation failed and has not been cleared. Clear it on the tenant's page; the tenant is skipped until then."

def outcomeOfRefusal (err : Thrown) : ActionOutcome :=
  match err.code with
  | none => .failed err.message
  | some code =>
    if code ∉ notNow then .failed err.message
    else if code = "STORAGE_OP_IN_PROGRESS" ∧ err.currentState = some "failed" then .failed stuck
    else .skipped err.message

def tellTenant (step : Step) (tenant : InLineTenant) (date : ℤ) : Call TellOutcome := do
  let row ← SweepIo.selectTenant step tenant.tenantId
  match row with
  | none => return .skipped "the tenant is gone"
  | some row =>
    if row.exempt then return .skipped "it is kept out of automatic archive and delete"
    else if row.status ≠ step.status ∨ row.since ≠ tenant.since then
      return .skipped ("it is no longer " ++ step.status ++ " as it was when the sweep began")
    else
      let reached ← SweepIo.notifyTenant step tenant.tenantId date
      SweepIo.writeNotice step tenant.tenantId date reached
      return .told (0 < reached)

def archive (tenant : InLineTenant) (retentionDays : Option ℕ) (suspendedBefore : ℤ) :
    Call ActionOutcome := do
  let refusal ← tryCatch
    (do
      SweepIo.buildArchiveServiceCtx
      SweepIo.archiveTenant tenant.tenantId retentionDays suspendedBefore
      return none)
    fun err => return some (outcomeOfRefusal err)
  match refusal with
  | some outcome => return outcome
  | none => SweepIo.waitForArchive tenant.tenantId

def remove (tenant : InLineTenant) (archivedBefore : ℤ) : Call ActionOutcome :=
  tryCatch
    (do
      SweepIo.deleteTenant tenant.tenantId archivedBefore
      return .done)
    fun err => return outcomeOfRefusal err

/-! ## One step -/

def planOf (startedAt : ℤ) (tenant : InLineTenant) (settings : TenantAutomationSettings) (step : Step) :
    TenantAutomationPlan :=
  tenantAutomationPlan tenant (settings.daysOf step) settings.noticeDays startedAt

def hasWork (startedAt : ℤ) (settings : TenantAutomationSettings) (step : Step)
    (tenant : InLineTenant) :
    Bool :=
  match planOf startedAt tenant settings step with
  | .due => true
  | .tell _ => true
  | _ => false

def act (step : Step) (platformRetention : ℕ) (tenant : InLineTenant)
    (settings : TenantAutomationSettings)
    (before : ℤ) : Call ActionOutcome :=
  match step with
  | .archive => archive tenant (tenantAutomationArchiveRetentionDays settings platformRetention) before
  | .delete => remove tenant before

def turn (step : Step) (startedAt : ℤ) (platformRetention : ℕ)
    (listedWith settings : TenantAutomationSettings)
    (tenant : InLineTenant) : Sweep (List Entry) :=
  match planOf startedAt tenant settings step with
  | .tell date => do
    match ← (tellTenant step tenant date).run with
    | .ok (.told reached) => return [.told tenant.tenantId tenant.name step date reached]
    | .ok (.skipped _) => return []
    | .error err =>
      return [.failed tenant.tenantId tenant.name step ("It could not be told: " ++ err.message)]
  | .due => do
    let heldTo := max (listedWith.daysOf step) (settings.daysOf step)
    match ← (act step platformRetention tenant settings (startedAt - heldTo * dayMs)).run with
    | .ok .done => return [.did tenant.tenantId tenant.name step]
    | .ok (.skipped _) => return []
    | .ok (.failed error) => return [.failed tenant.tenantId tenant.name step error]
    | .error err => return [.failed tenant.tenantId tenant.name step err.message]
  | _ => return []

def work (step : Step) (startedAt : ℤ) (platformRetention : ℕ) (listedWith : TenantAutomationSettings) :
    List InLineTenant → Sweep (List Entry × Option Thrown)
  | [] => return ([], none)
  | tenant :: todo => do
    match ← SweepIo.settings.run with
    | .error err => return ([], some err)
    | .ok settings =>
      if settings.isOn step then
        let entries ← turn step startedAt platformRetention listedWith settings tenant
        let rest ← work step startedAt platformRetention listedWith todo
        return (entries ++ rest.1, rest.2)
      else return ([], none)

structure StepRun where
  entries : List Entry
  stopped : Option Thrown
  skippedReason : Option String

def StepRun.ofWork (r : List Entry × Option Thrown) : StepRun := ⟨r.1, r.2, none⟩

def StepRun.nothing : StepRun := ⟨[], none, none⟩

def archiveStep (startedAt : ℤ) : Call StepRun := do
  let settings ← SweepIo.settings
  if settings.autoArchiveEnabled then
    let inLine ← SweepIo.inLine .archive
    let todo := inLine.filter (hasWork startedAt settings .archive)
    if todo = [] then return .nothing
    else
      let reason ← SweepIo.archiveBlockedReason
      if reason.getD "" ≠ "" then return ⟨[], none, reason⟩
      else
        let platformRetention ← SweepIo.archiveRetentionDays
        let r ← ExceptT.lift (work .archive startedAt platformRetention settings todo)
        return { StepRun.ofWork r with skippedReason := reason }
  else return .nothing

def deleteStep (startedAt : ℤ) : Call StepRun := do
  let settings ← SweepIo.settings
  if settings.autoDeleteEnabled then
    let inLine ← SweepIo.inLine .delete
    let r ← ExceptT.lift
      (work .delete startedAt 0 settings (inLine.filter (hasWork startedAt settings .delete)))
    return .ofWork r
  else return .nothing

def StepRun.ofResult : Except Thrown StepRun → StepRun
  | .ok r => r
  | .error err => ⟨[], some err, none⟩

def StepRun.errors (r : StepRun) (step : String) : List String :=
  r.stopped.toList.map fun err => "The " ++ step ++ " step stopped: " ++ err.message

/-! ## The sweep -/

def Entry.isTold : Entry → Bool
  | .told _ _ _ _ _ => true
  | _ => false

def Entry.isDone : Entry → Bool
  | .did _ _ _ => true
  | _ => false

def Entry.isFailed : Entry → Bool
  | .failed _ _ _ _ => true
  | _ => false

def maxRecorded : ℕ := 50

def newRun (startedAt finishedAt : ℤ) (scheduled : Bool) (archived deleted : StepRun) :
    TenantAutomationRun where
  startedAt := startedAt
  finishedAt := finishedAt
  scheduled := scheduled
  archived := (archived.entries.filter Entry.isDone).take maxRecorded
  deleted := (deleted.entries.filter Entry.isDone).take maxRecorded
  failed := ((archived.entries ++ deleted.entries).filter Entry.isFailed).take maxRecorded
  told := ((archived.entries ++ deleted.entries).filter Entry.isTold).take maxRecorded
  archiveSkippedReason := archived.skippedReason
  errors := archived.errors "archive" ++ deleted.errors "delete"

def runTenantAutomationSweep (scheduled : Bool) : Call TenantAutomationRun := do
  let startedAt ← SweepIo.now
  let archived ← ExceptT.lift (StepRun.ofResult <$> (archiveStep startedAt).run)
  let deleted ← ExceptT.lift (StepRun.ofResult <$> (deleteStep startedAt).run)
  let finishedAt ← SweepIo.now
  let run := newRun startedAt finishedAt scheduled archived deleted
  let _ ← ExceptT.lift (SweepIo.record run).run
  if archived.entries ≠ [] ∨ deleted.entries ≠ [] ∨ run.errors ≠ [] ∨
      run.archiveSkippedReason.getD "" ≠ "" then
    let _ ← ExceptT.lift (SweepIo.notify run).run
  return run

/-! ## What the sweep has read -/

structure Sent where
  step : Step
  tenantId : String
  date : ℤ
  reached : ℕ
deriving DecidableEq

structure Knows where
  startedAt : Option ℤ
  settings : Option TenantAutomationSettings
  /-- The step of the list that was read last, and the tenants of it that had no turn. -/
  step : Step
  waiting : List InLineTenant
  sent : Option Sent
deriving DecidableEq

namespace Knows

def start : Knows := ⟨none, none, .archive, [], none⟩

variable (b : Knows)

def drop (tenantId : String) : Knows :=
  { b with waiting := b.waiting.filter (·.tenantId ≠ tenantId) }

def next : (o : Op) → Ans o → Option Knows
  | .now, .ok t =>
    match b.startedAt with
    | none => some { b with startedAt := some t, waiting := [] }
    | some _ => some b
  | .settings, .ok s => some { b with settings := some s }
  | .inLine step, .ok l =>
    if (List.map InLineTenant.tenantId l).Nodup then
      some { b with step := step, waiting := l }
    else none
  | .archiveTenant tenantId _ _, _ => some (b.drop tenantId)
  | .deleteTenant tenantId _, _ => some (b.drop tenantId)
  | .notifyTenant step tenantId date, .ok reached =>
    some { b.drop tenantId with sent := some ⟨step, tenantId, date, reached⟩ }
  | .notifyTenant _ tenantId _, .error _ => some (b.drop tenantId)
  | .writeNotice _ _ _ _, _ => some { b with sent := none }
  | _, _ => some b

def Plans (step : Step) (tenantId : String) (plan : TenantAutomationPlan) (startedAt : ℤ)
    (settings : TenantAutomationSettings) : Prop :=
  b.startedAt = some startedAt ∧ b.settings = some settings ∧ settings.isOn step = true ∧
    b.step = step ∧
    ∃ t ∈ b.waiting, t.tenantId = tenantId ∧ planOf startedAt t settings step = plan

/-- An archive or a delete is begun for a tenant that is due, and has been for the limit. -/
def MayAct (step : Step) (tenantId : String) (before : ℤ) : Prop :=
  b.sent = none ∧ ∃ startedAt settings, b.Plans step tenantId .due startedAt settings ∧
    before ≤ startedAt - settings.daysOf step * dayMs

def allowed : Op → Prop
  | .inLine _ => b.sent = none
  | .archiveTenant tenantId _ before => b.MayAct .archive tenantId before
  | .deleteTenant tenantId before => b.MayAct .delete tenantId before
  | .notifyTenant step tenantId date =>
    b.sent = none ∧ ∃ startedAt settings, b.Plans step tenantId (.tell date) startedAt settings
  | .writeNotice step tenantId date reached => b.sent = some ⟨step, tenantId, date, reached⟩
  | _ => True

end Knows

def sweepDiscipline : Discipline Op Ans Knows where
  allowed := Knows.allowed
  next := Knows.next

/-! ## What the sweep does -/

section Follows

variable {b : Knows} {step : Step} {startedAt before date : ℤ}
  {settings listedWith : TenantAutomationSettings}
  {tenant : InLineTenant} {platformRetention : ℕ}

def Op.Still : Op → Prop
  | .archiveBlockedReason => True
  | .archiveRetentionDays => True
  | .buildArchiveServiceCtx => True
  | .waitForArchive _ => True
  | .selectTenant _ _ => True
  | .record _ => True
  | .notify _ => True
  | _ => False

theorem Op.Still.next {o : Op} (ho : o.Still) (b : Knows) (r : Ans o) :
    b.allowed o ∧ b.next o r = some b := by
  cases o <;> first | exact absurd ho id | (cases r <;> exact ⟨trivial, rfl⟩)

theorem still_call (o : Op) (ho : o.Still) {R : Knows → Val o → Prop} {X : Knows → Prop}
    (hR : ∀ a, R b a) (hX : X b) :
    Follows sweepDiscipline (Ends R X) (request o : Call (Val o)).run b := by
  have hnext : ∀ r b', sweepDiscipline.next b o r = some b' → b' = b := by
    intro r b' hb'
    rw [show sweepDiscipline.next b o r = some b from (ho.next b r).2, Option.some.injEq] at hb'
    exact hb'.symm
  apply ends_request (ho.next b (.error ⟨none, "", none⟩)).1
  · intro a b' hb'
    rw [hnext _ b' hb']
    exact hR a
  · intro e b' hb'
    rw [hnext _ b' hb']
    exact hX

/-- The tenant may have had its turn, and nothing else has changed. -/
def Knows.After (b : Knows) (tenantId : String) (b' : Knows) : Prop := b' = b ∨ b' = b.drop tenantId

theorem turn_call {o : Op} {tenantId : String} (ho : b.allowed o)
    (hnext : ∀ r, b.next o r = some (b.drop tenantId)) :
    Follows sweepDiscipline (Ends (fun b' _ => b.After tenantId b') (b.After tenantId))
      (request o : Call (Val o)).run b := by
  have hafter : ∀ r b', sweepDiscipline.next b o r = some b' → b.After tenantId b' := by
    intro r b' hb'
    rw [show sweepDiscipline.next b o r = _ from hnext r, Option.some.injEq] at hb'
    exact .inr hb'.symm
  exact ends_request ho (fun a b' => hafter _ b') fun e b' => hafter _ b'

theorem notice_sent (h : b.allowed (.notifyTenant step tenant.tenantId date)) : Follows sweepDiscipline
      (Ends (fun b' reached =>
          b' = { b.drop tenant.tenantId with sent := some ⟨step, tenant.tenantId, date, reached⟩ } ∧
            b.sent = none) (b.After tenant.tenantId))
      (SweepIo.notifyTenant step tenant.tenantId date).run b := by
  apply ends_request h
  · intro reached b' hb'
    cases hb'
    exact ⟨rfl, h.1⟩
  · intro e b' hb'
    cases hb'
    exact .inr rfl

theorem notice_written {b' : Knows} {reached : ℕ}
    (h : b' = { b.drop tenant.tenantId with sent := some ⟨step, tenant.tenantId, date, reached⟩ } ∧
      b.sent = none) : Follows sweepDiscipline
      (Ends (fun b' _ => b.After tenant.tenantId b') (b.After tenant.tenantId))
      (SweepIo.writeNotice step tenant.tenantId date reached).run b' := by
  obtain ⟨rfl, hsent⟩ := h
  have hdropped : { b.drop tenant.tenantId with sent := none } = b.drop tenant.tenantId := by
    rw [← hsent]
    rfl
  apply ends_request rfl
  · intro _ b' hb'
    cases hb'
    exact .inr hdropped
  · intro e b' hb'
    cases hb'
    exact .inr hdropped

/-- The tenant is told what the plan gives. -/
theorem tellTenant_ends (h : b.allowed (.notifyTenant step tenant.tenantId date)) :
    Follows sweepDiscipline
      (Ends (fun b' _ => b.After tenant.tenantId b') (b.After tenant.tenantId))
      (tellTenant step tenant date).run b := by
  apply ends_bind (still_call (R := fun b' _ => b' = b) (.selectTenant _ _) trivial (fun _ => rfl)
    (.inl rfl))
  rintro b' row rfl
  cases row with
  | none => exact ends_pure (.inl rfl)
  | some row =>
    dsimp only
    split_ifs
    · exact ends_pure (.inl rfl)
    · exact ends_pure (.inl rfl)
    · apply ends_bind (notice_sent h)
      intro b'' reached hb''
      exact ends_bind (notice_written hb'') fun _ _ hafter => ends_pure hafter

/-- The archive or the delete that is begun is one of a tenant that is due. -/
theorem act_ends (h : b.MayAct step tenant.tenantId before) : Follows sweepDiscipline
      (Ends (fun b' _ => b.After tenant.tenantId b') (b.After tenant.tenantId))
      (act step platformRetention tenant settings before).run b := by
  cases step with
  | archive =>
    apply ends_bind (R := fun b' _ => b.After tenant.tenantId b')
    · apply ends_tryCatch (Y := b.After tenant.tenantId)
      · apply ends_bind (still_call (R := fun b' _ => b' = b) .buildArchiveServiceCtx trivial
          (fun _ => rfl) (.inl rfl))
        rintro b' _ rfl
        exact ends_bind (turn_call h fun _ => rfl) fun b'' _ hb'' => ends_pure hb''
      · intro b' e hb'
        exact ends_pure hb'
    · intro b' refusal hb'
      cases refusal with
      | some outcome => exact ends_pure hb'
      | none => exact still_call (.waitForArchive _) trivial (fun _ => hb') hb'
  | delete =>
    apply ends_tryCatch (Y := b.After tenant.tenantId)
    · exact ends_bind (turn_call h fun _ => rfl) fun b'' _ hb'' => ends_pure hb''
    · intro b' e hb'
      exact ends_pure hb'

/-- The sweep has begun, and has nothing to write down. -/
structure Knows.Began (b : Knows) (startedAt : ℤ) : Prop where
  startedAt : b.startedAt = some startedAt
  sent : b.sent = none

variable (platformRetention listedWith) in
theorem turn_ends (hstarted : b.Began startedAt) (hsettings : b.settings = some settings)
    (hon : settings.isOn step = true) (hstep : b.step = step) (hmem : tenant ∈ b.waiting) :
    Follows sweepDiscipline (fun b' _ => b.After tenant.tenantId b')
      (turn step startedAt platformRetention listedWith settings tenant) b := by
  unfold turn
  cases hplan : planOf startedAt tenant settings step with
  | never => exact .inl rfl
  | later _ _ _ => exact .inl rfl
  | tell date =>
    have hallowed : b.allowed (.notifyTenant step tenant.tenantId date) :=
      ⟨hstarted.sent, startedAt, settings, hstarted.startedAt, hsettings, hon, hstep, tenant, hmem,
        rfl, hplan⟩
    apply follows_bind.mpr
    apply follows_mono _ (tellTenant_ends hallowed)
    intro b' r hb'
    cases r with
    | ok outcome => cases outcome <;> exact hb'
    | error e => exact hb'
  | due =>
    have hmay : b.MayAct step tenant.tenantId
        (startedAt - (max (listedWith.daysOf step) (settings.daysOf step) : ℕ) * dayMs) := by
      refine ⟨hstarted.sent, startedAt, settings,
        ⟨hstarted.startedAt, hsettings, hon, hstep, tenant, hmem, rfl, hplan⟩, ?_⟩
      have hmul : (settings.daysOf step : ℤ) * dayMs ≤
          (max (listedWith.daysOf step) (settings.daysOf step) : ℕ) * dayMs :=
        Int.mul_le_mul_of_nonneg_right (by omega) (Int.le_of_lt dayMs_pos)
      omega
    apply follows_bind.mpr
    apply follows_mono _ (act_ends hmay)
    intro b' r hb'
    cases r with
    | ok outcome => cases outcome <;> exact hb'
    | error e => exact hb'

structure Knows.Listed (b : Knows) (step : Step) (startedAt : ℤ) : Prop where
  began : b.Began startedAt
  step : b.step = step

theorem Knows.Began.reads (h : b.Began startedAt) (s : Option TenantAutomationSettings) :
    Knows.Began { b with settings := s } startedAt := ⟨h.startedAt, h.sent⟩

theorem work_ends {todo : List InLineTenant} (h : b.Listed step startedAt)
    (hmem : ∀ t ∈ todo, t ∈ b.waiting) (hnodup : (todo.map InLineTenant.tenantId).Nodup) :
    Follows sweepDiscipline (fun b' _ => b'.Began startedAt)
      (work step startedAt platformRetention listedWith todo) b := by
  induction todo generalizing b with
  | nil => exact h.began
  | cons tenant todo ih =>
    rw [List.map_cons, List.nodup_cons] at hnodup
    unfold work
    apply follows_bind.mpr
    refine ⟨trivial, ?_⟩
    intro r b' hb'
    cases r with
    | error e =>
      cases hb'
      exact h.began
    | ok settings =>
      cases hb'
      apply follows_ret.mpr
      dsimp only
      split_ifs with hon
      · apply follows_bind.mpr
        have hturn := turn_ends (b := { b with settings := some settings }) listedWith platformRetention
          (h.began.reads _) rfl hon h.step (hmem tenant List.mem_cons_self)
        apply follows_mono _ hturn
        intro b' _ hb'
        apply follows_bind.mpr
        apply follows_mono (fun _ _ h => h)
        apply ih
        · rcases hb' with rfl | rfl <;> exact ⟨⟨h.began.startedAt, h.began.sent⟩, h.step⟩
        · intro t ht
          have hwaits := hmem t (List.mem_cons_of_mem _ ht)
          rcases hb' with rfl | rfl
          · exact hwaits
          · refine List.mem_filter.mpr ⟨hwaits, decide_eq_true ?_⟩
            intro heq
            exact hnodup.1 (heq ▸ List.mem_map_of_mem ht)
        · exact hnodup.2
      · exact h.began.reads _

theorem settings_ends (h : b.Began startedAt) :
    Follows sweepDiscipline (Ends (fun b' _ => b'.Began startedAt)
      (·.Began startedAt)) SweepIo.settings.run b := by
  apply ends_request trivial
  · intro settings b' hb'
    cases hb'
    exact h.reads _
  · intro e b' hb'
    cases hb'
    exact h

theorem inLine_ends (h : b.Began startedAt) : Follows sweepDiscipline (Ends
      (fun b' l => b'.Listed step startedAt ∧ b'.waiting = l ∧ (l.map InLineTenant.tenantId).Nodup)
      (·.Began startedAt)) (SweepIo.inLine step).run b := by
  apply ends_request h.sent
  · intro l b' hb'
    change (if (List.map InLineTenant.tenantId l).Nodup then _ else _) = _ at hb'
    split_ifs at hb' with hnodup
    cases hb'
    exact ⟨⟨⟨h.startedAt, h.sent⟩, rfl⟩, rfl, hnodup⟩
  · intro e b' hb'
    cases hb'
    exact h

theorem lift_work_ends (h : b.Listed step startedAt)
    (hnodup : (b.waiting.map InLineTenant.tenantId).Nodup)
    (p : InLineTenant → Bool) :
    Follows sweepDiscipline (Ends (fun b' _ => b'.Began startedAt)
      (·.Began startedAt))
      (ExceptT.lift (work step startedAt platformRetention listedWith (b.waiting.filter p)) :
        Call (List Entry × Option Thrown)).run b := by
  apply follows_bind.mpr
  apply follows_mono _ (work_ends h (fun t ht => (List.mem_filter.mp ht).1)
    ((List.filter_sublist.map _).nodup hnodup))
  intro b' r hb'
  exact hb'

theorem archiveStep_ends (h : b.Began startedAt) :
    Follows sweepDiscipline (Ends (fun b' _ => b'.Began startedAt)
      (·.Began startedAt)) (archiveStep startedAt).run b := by
  apply ends_bind (settings_ends h)
  intro b settings h
  split_ifs with hon
  · apply ends_bind (inLine_ends h)
    rintro b l ⟨hlisted, rfl, hnodup⟩
    dsimp only
    split_ifs
    · exact ends_pure hlisted.began
    · apply ends_bind (still_call (R := fun b' _ => b' = b) .archiveBlockedReason trivial
        (fun _ => rfl) hlisted.began)
      rintro b reason rfl
      split_ifs
      · exact ends_pure hlisted.began
      · apply ends_bind (still_call (R := fun b' _ => b' = b) .archiveRetentionDays trivial
          (fun _ => rfl) hlisted.began)
        rintro b platformRetention rfl
        exact ends_bind (lift_work_ends hlisted hnodup _) fun b' _ hb' => ends_pure hb'
  · exact ends_pure h

theorem deleteStep_ends (h : b.Began startedAt) :
    Follows sweepDiscipline (Ends (fun b' _ => b'.Began startedAt)
      (·.Began startedAt)) (deleteStep startedAt).run b := by
  apply ends_bind (settings_ends h)
  intro b settings h
  split_ifs with hon
  · apply ends_bind (inLine_ends h)
    rintro b l ⟨hlisted, rfl, hnodup⟩
    exact ends_bind (lift_work_ends hlisted hnodup _) fun b' _ hb' => ends_pure hb'
  · exact ends_pure h

theorem lift_step_ends {x : Call StepRun} (h : Follows sweepDiscipline
    (Ends (fun b' _ => b'.Began startedAt) (·.Began startedAt)) x.run b) :
    Follows sweepDiscipline (Ends (fun b' _ => b'.Began startedAt) (·.sent = none))
      (ExceptT.lift (StepRun.ofResult <$> x.run) : Call StepRun).run b := by
  apply follows_bind.mpr
  change Follows sweepDiscipline _ (x.run >>= fun r => Pure.pure (StepRun.ofResult r)) b
  apply follows_bind.mpr
  apply follows_mono _ h
  intro b' r hb'
  cases r <;> exact hb'

/-- A call whose error is caught. -/
theorem lift_still_ends (o : Op) (ho : o.Still) (h : b.sent = none) :
    Follows sweepDiscipline (Ends (fun b' _ => b'.sent = none) (·.sent = none))
      (ExceptT.lift (request o : Call (Val o)).run : Call (Except Thrown (Val o))).run b := by
  apply follows_bind.mpr
  refine ⟨(ho.next b (.error ⟨none, "", none⟩)).1, ?_⟩
  intro r b' hb'
  rw [show sweepDiscipline.next b o r = some b from (ho.next b r).2, Option.some.injEq] at hb'
  subst hb'
  exact h

/-- A sweep acts on what is due by what it has read, tells what the plan gives, and ends with
nothing left to write down. -/
theorem sweep_follows (scheduled : Bool) :
    Follows sweepDiscipline (fun b _ => b.sent = none) (runTenantAutomationSweep scheduled).run
      Knows.start := by
  have hends : Follows sweepDiscipline (Ends (fun b' _ => b'.sent = none) (·.sent = none))
      (runTenantAutomationSweep scheduled).run Knows.start := by
    apply ends_bind (R := fun b' startedAt => b'.Began startedAt)
    · apply ends_request trivial
      · intro t b' hb'
        cases hb'
        exact ⟨rfl, rfl⟩
      · intro e b' hb'
        cases hb'
        rfl
    · intro b startedAt h
      apply ends_bind (lift_step_ends (archiveStep_ends h))
      intro b archived h
      apply ends_bind (lift_step_ends (deleteStep_ends h))
      intro b deleted h
      apply ends_bind (R := fun b' _ => b'.sent = none)
      · apply ends_request trivial
        · intro t b' hb'
          unfold sweepDiscipline Knows.next at hb'
          dsimp only at hb'
          split at hb'
          · cases hb'
            exact h.sent
          · cases hb'
            exact h.sent
        · intro e b' hb'
          cases hb'
          exact h.sent
      · intro b finishedAt h
        apply ends_bind (lift_still_ends (.record _) trivial h)
        intro b _ h
        split_ifs
        · exact ends_bind (lift_still_ends (.notify _) trivial h) fun _ _ h => ends_pure h
        · exact ends_pure h
  refine follows_mono (fun b r hr => ?_) hends
  cases r <;> exact hr

end Follows

end Insula.TenantAutomation
