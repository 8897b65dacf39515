import Insula.AutomationSweep
import Mathlib.Data.List.Sort

/-!
# Sweeps beside the changes of the tenants

Sweeps run one after the other while tenants are suspended, archived, brought back, kept out and
deleted and the settings change. A notice that reached nobody is written over the one before it. A
tenant that was told keeps its date as long as no such notice takes the place of one that reached
it.
-/

namespace Insula.TenantAutomation

open Program Transition

/-! ## The tenants -/

structure Tenant where
  id : String
  name : String
  status : String
  suspendedAt : Option ℤ
  archivedAt : Option ℤ
  isSystem : Bool
  exempt : Bool
  storageLifecycleState : String
  /-- Its newest archive is kept with no end date. -/
  archiveKept : Bool
deriving DecidableEq

namespace Tenant

variable (t : Tenant)

def since : Step → Option ℤ
  | .archive => t.suspendedAt
  | .delete => t.archivedAt

def inLine (step : Step) : Bool :=
  t.status = step.status && !t.isSystem && !t.exempt && !(step = .delete && t.archiveKept)

end Tenant

inductive Stamp
  | active
  | suspended
  | restored
  | archived
deriving DecidableEq

def Tenant.stamp (t : Tenant) (now : ℤ) : Stamp → Tenant
  | .active => { t with status := "active", suspendedAt := none, archivedAt := none }
  | .suspended => { t with status := "suspended", suspendedAt := some now }
  | .restored => { t with status := "suspended", suspendedAt := some now, archivedAt := none }
  | .archived => { t with status := "archived", archivedAt := some now }

structure StoredNotice where
  toldAt : ℤ
  announcedFor : ℤ
  reached : ℕ
deriving DecidableEq

def StoredNotice.read (n : StoredNotice) : Notice := ⟨n.toldAt, n.announcedFor, 0 < n.reached⟩

/-! ## The world -/

/-- A notice that was sent, or written down, and the suspension (or archive) that it was in. -/
structure Announcement where
  tenantId : String
  step : Step
  since : Option ℤ
  toldAt : ℤ
  date : ℤ
  reached : Bool
deriving DecidableEq

/-- An archive or a delete that was begun, and what the sweep had read. -/
structure Act where
  tenantId : String
  step : Step
  since : Option ℤ
  time : ℤ
  settings : Option TenantAutomationSettings
deriving DecidableEq

structure World where
  clock : ℤ
  settings : TenantAutomationSettings
  tenants : List Tenant
  notices : String → Step → Option StoredNotice
  /-- The messages. -/
  told : List Announcement
  /-- What was written down of them. -/
  recorded : List Announcement
  acts : List Act
  /-- What the sweep under way has read. -/
  knows : Knows

structure Luck where
  throws : Option Thrown
  midway : Option Thrown
  reason : Option String
  retention : ℕ
  outcome : ActionOutcome
  reached : ℕ
  recorded : Bool

namespace World

variable (w : World)

def find (tenantId : String) : Option Tenant := w.tenants.find? (·.id = tenantId)

def sinceOf (tenantId : String) (step : Step) : Option ℤ := (w.find tenantId).bind (·.since step)

def update (tenantId : String) (f : Tenant → Tenant) : World :=
  { w with tenants := w.tenants.map fun t => if t.id = tenantId then f t else t }

def erase (tenantId : String) : World :=
  { w with
    tenants := w.tenants.filter (·.id ≠ tenantId)
    notices := fun id step => if id = tenantId then none else w.notices id step }

def sinceLe : Option ℤ → Option ℤ → Bool
  | _, none => true
  | none, some _ => false
  | some a, some b => a ≤ b

def listed (step : Step) (t : Tenant) : InLineTenant :=
  ⟨t.id, t.name, t.since step, (w.notices t.id step).map StoredNotice.read⟩

def inLine (step : Step) : List InLineTenant :=
  ((w.tenants.filter (·.inLine step)).insertionSort fun a b =>
    sinceLe (a.since step) (b.since step) = true).map (w.listed step)

def standing (step : Step) (tenantId : String) : Option Standing :=
  (w.find tenantId).map fun t => ⟨t.status, t.since step, t.exempt⟩

def refusal (code message : String) : Thrown := ⟨some code, message, none⟩

def notFound (tenantId : String) : Thrown := refusal "TENANT_NOT_FOUND" ("Tenant " ++ tenantId ++ " not found")

def begun (step : Step) (t : Tenant) : World :=
  { w with acts := w.acts ++ [⟨t.id, step, t.since step, w.clock, w.knows.settings⟩] }

def archiveRefusal (t : Tenant) (suspendedBefore : ℤ) : Option Thrown :=
  if t.storageLifecycleState ≠ "idle" then
    some ⟨some "STORAGE_OP_IN_PROGRESS",
      if t.storageLifecycleState = "failed" then
        "The last storage operation on this tenant failed and left it in the failed state. Reset it to idle, then try again."
      else "A " ++ t.storageLifecycleState ++ " operation is already in progress for this tenant",
      some t.storageLifecycleState⟩
  else if t.status = "archived" then some (refusal "ALREADY_ARCHIVED" "Tenant is already archived")
  else if t.status ≠ "suspended" then
    some (refusal "TENANT_NOT_SUSPENDED" "Only a suspended tenant can be archived — suspend it first")
  else if ¬ (t.suspendedAt.any (· < suspendedBefore)) then
    some (refusal "NO_LONGER_DUE"
      "Tenant is no longer suspended for long enough to be archived automatically")
  else if t.exempt then
    some (refusal "NO_LONGER_DUE" "Tenant is kept out of automatic archive and delete")
  else none

def archiveTenant (luck : Luck) (tenantId : String) (suspendedBefore : ℤ) :
    Except Thrown Unit × World :=
  match w.find tenantId with
  | none => (.error (notFound tenantId), w)
  | some t =>
    match archiveRefusal t suspendedBefore, luck.midway with
    | some e, _ => (.error e, w)
    | none, some e => (.error e, w)
    | none, none =>
      (.ok (), (w.begun .archive t).update tenantId ({ · with storageLifecycleState := "quiescing" }))

def deleteRefusal (t : Tenant) (archivedBefore : ℤ) : Option Thrown :=
  if t.isSystem then
    some (refusal "SYSTEM_TENANT_PROTECTED"
      "Cannot delete SYSTEM tenant — the platform-owned tenant is protected against destructive transitions (ADR-040).")
  else if ¬ (t.status = "archived" ∧ t.archivedAt.any (· < archivedBefore)) then
    some (refusal "NO_LONGER_DUE" "Tenant is no longer archived for long enough to be deleted automatically")
  else if t.exempt then
    some (refusal "NO_LONGER_DUE" "Tenant is kept out of automatic archive and delete")
  else if t.storageLifecycleState ≠ "idle" then
    some ⟨some "STORAGE_OP_IN_PROGRESS",
      "A " ++ t.storageLifecycleState ++ " operation owns this tenant; it is not deleted automatically meanwhile",
      some t.storageLifecycleState⟩
  else none

def deleteTenant (luck : Luck) (tenantId : String) (archivedBefore : ℤ) : Except Thrown Unit × World :=
  match w.find tenantId with
  | none => (.error (notFound tenantId), w)
  | some t =>
    match deleteRefusal t archivedBefore, luck.midway with
    | some e, _ => (.error e, w)
    | none, some e => (.error e, w.begun .delete t)
    | none, none => (.ok (), (w.begun .delete t).erase tenantId)

def announce (step : Step) (tenantId : String) (date : ℤ) (reached : ℕ) : World :=
  { w with
    told := w.told ++
      [⟨tenantId, step, w.sinceOf tenantId step, w.clock, date, 0 < reached⟩] }

/-- The tenant's users are told, and its contact addresses; it may throw when some of them were. -/
def notifyTenant (luck : Luck) (step : Step) (tenantId : String) (date : ℤ) : Except Thrown ℕ × World :=
  (match luck.midway with
    | some e => .error e
    | none => .ok luck.reached, w.announce step tenantId date luck.reached)

def noted (step : Step) (tenantId : String) (n : StoredNotice) : World :=
  { w with
    notices := fun id s => if id = tenantId ∧ s = step then some n else w.notices id s
    recorded := w.recorded ++
      [⟨tenantId, step, w.sinceOf tenantId step, n.toldAt, n.announcedFor, 0 < n.reached⟩] }

def unwritten : Thrown := ⟨none, "the notice could not be written", none⟩

def writeNotice (luck : Luck) (step : Step) (tenantId : String) (date : ℤ) (reached : ℕ) :
    Except Thrown Unit × World :=
  if luck.recorded && (w.find tenantId).isSome then
    (match luck.midway with
      | some e => .error e
      | none => .ok (), w.noted step tenantId ⟨w.clock, date, reached⟩)
  else (.error unwritten, w)

def respond (luck : Luck) (o : Op) : Ans o × World :=
  match o, luck.throws with
  | .now, _ => (.ok w.clock, w)
  | _, some e => (.error e, w)
  | .settings, none => (.ok w.settings, w)
  | .inLine step, none => (.ok (w.inLine step), w)
  | .archiveBlockedReason, none => (.ok luck.reason, w)
  | .archiveRetentionDays, none => (.ok luck.retention, w)
  | .buildArchiveServiceCtx, none => (.ok (), w)
  | .archiveTenant tenantId _ before, none => w.archiveTenant luck tenantId before
  | .waitForArchive _, none => (.ok luck.outcome, w)
  | .deleteTenant tenantId before, none => w.deleteTenant luck tenantId before
  | .selectTenant step tenantId, none => (.ok (w.standing step tenantId), w)
  | .notifyTenant step tenantId date, none => w.notifyTenant luck step tenantId date
  | .writeNotice step tenantId date reached, none => w.writeNotice luck step tenantId date reached
  | .record _, none => (.ok (), w)
  | .notify _, none => (.ok (), w)

end World

/-! ## Runs -/

inductive Change
  | pass
  | saveSettings (settings : TenantAutomationSettings)
  | create (tenantId name status : String) (isSystem : Bool)
  | stamp (tenantId : String) (stamp : Stamp)
  | keepOut (tenantId : String) (exempt : Bool)
  | setState (tenantId state : String)
  | keepArchive (tenantId : String) (kept : Bool)
  | delete (tenantId : String)

def World.change (w : World) : Change → World
  | .pass => w
  | .saveSettings settings => { w with settings := settings }
  | .create tenantId name status isSystem =>
    if (w.find tenantId).isSome then w
    else { w with
      tenants := w.tenants ++ [⟨tenantId, name, status, none, none, isSystem, false, "idle", false⟩] }
  | .stamp tenantId stamp => w.update tenantId (·.stamp w.clock stamp)
  | .keepOut tenantId exempt => w.update tenantId ({ · with exempt := exempt })
  | .setState tenantId state => w.update tenantId ({ · with storageLifecycleState := state })
  | .keepArchive tenantId kept => w.update tenantId ({ · with archiveKept := kept })
  | .delete tenantId => w.erase tenantId

structure State where
  world : World
  sweep : Option (Program Op Ans (Except Thrown TenantAutomationRun))

inductive Event
  | change (elapsed : ℕ) (c : Change)
  | sweep (scheduled : Bool)
  /-- The sweep's call is answered. -/
  | answer (elapsed : ℕ) (luck : Luck)
  /-- The sweep dies. -/
  | stop

def World.wait (w : World) (elapsed : ℕ) : World := { w with clock := w.clock + elapsed + 1 }

def step (s : State) : Event → Option State
  | .change elapsed c =>
    some { s with world := (s.world.wait elapsed).change c }
  | .sweep scheduled =>
    match s.sweep with
    | some (.call _ _) => none
    | _ =>
      some ⟨{ s.world with knows := .start }, some (runTenantAutomationSweep scheduled).run⟩
  | .answer elapsed luck =>
    match s.sweep with
    | some (.call o next) =>
      let r := (s.world.wait elapsed).respond luck o
      (s.world.knows.next o r.1).map fun b => ⟨{ r.2 with knows := b }, some (next r.1)⟩
    | _ => none
  | .stop => some { s with sweep := none }

/-! ## What is promised -/

/-- The archive or the delete was of a tenant past its limit, for which the date was written down or
which is not to be told. -/
def Act.Warned (a : Act) (recorded : List Announcement) : Prop :=
  ∃ settings since, a.settings = some settings ∧ a.since = some since ∧ settings.isOn a.step = true ∧
    tenantAutomationDueAt since (settings.daysOf a.step) ≤ a.time ∧
    (settings.noticeDays = 0 ∨
      ∃ x ∈ recorded, x.tenantId = a.tenantId ∧ x.step = a.step ∧ x.since = some since ∧
      x.reached = true ∧
        x.toldAt ≤ a.time ∧ x.date ≤ a.time)

/-- Of one suspension, and both reached somebody. -/
def Announcement.Renews (x y : Announcement) : Prop :=
  x.tenantId = y.tenantId ∧ x.step = y.step ∧ x.since = y.since ∧ x.since.isSome ∧ x.reached = true ∧
    y.reached = true

/-- No date that was announced moves earlier, and nothing is done before it. -/
structure World.KeepsDates (w : World) : Prop where
  announced : w.told.Pairwise fun x y => x.Renews y → x.date ≤ y.date
  acted : ∀ a ∈ w.acts, ∀ x ∈ w.told, x.tenantId = a.tenantId → x.step = a.step → x.since = a.since →
    x.reached = true → x.toldAt ≤ a.time → x.date ≤ a.time

def World.LosesNoDate (w : World) (luck : Luck) : Op → Prop
  | .notifyTenant _ _ _ => luck.throws = none → 0 < luck.reached → luck.midway = none
  | .writeNotice step tenantId _ reached =>
    (0 < reached → luck.throws = none ∧ luck.recorded = true) ∧
      (reached = 0 → luck.throws = none → luck.recorded = true → ∀ since ∈ w.sinceOf tenantId step,
        ∀ n ∈ w.notices tenantId step, since ≤ n.toldAt → n.reached = 0)
  | _ => True

/-- Nor does a sweep die when a message that reached somebody is to be written down. -/
def Careful (s : State) (e : Event) (_ : State) : Prop :=
  match e, s.sweep with
  | .answer _ luck, some (.call o _) => s.world.LosesNoDate luck o
  | .stop, _ => ∀ n ∈ s.world.knows.sent, n.reached = 0
  | _, _ => True

/-! ## What stays true -/

theorem Act.Warned.mono {a : Act} {recorded recorded' : List Announcement} (h : a.Warned recorded)
    (hsub : ∀ x ∈ recorded, x ∈ recorded') : a.Warned recorded' := by
  obtain ⟨settings, since, hsettings, hsince, hon, hlimit, hcase⟩ := h
  refine ⟨settings, since, hsettings, hsince, hon, hlimit, ?_⟩
  rcases hcase with hdays | ⟨x, hx, hrest⟩
  · exact .inl hdays
  · exact .inr ⟨x, hsub x hx, hrest⟩

namespace World

structure Sound (w : World) : Prop where
  nodup : (w.tenants.map Tenant.id).Nodup
  since_le : ∀ id step, ∀ since ∈ w.sinceOf id step, since ≤ w.clock
  told_le : ∀ x ∈ w.told, x.toldAt ≤ w.clock ∧ ∀ since ∈ x.since, since ≤ x.toldAt
  notice_le : ∀ id step, ∀ n ∈ w.notices id step, n.toldAt ≤ w.clock
  acts_le : ∀ a ∈ w.acts, a.time ≤ w.clock
  noted : ∀ id step since n, w.sinceOf id step = some since → w.notices id step = some n →
    since ≤ n.toldAt →
      ⟨id, step, some since, n.toldAt, n.announcedFor, 0 < n.reached⟩ ∈ w.recorded
  warned : ∀ a ∈ w.acts, a.Warned w.recorded

/-- The message is the last, and its tenant is in the suspension that it was sent in or in a later
one. -/
structure Last (told : List Announcement) (sinceOf : String → Step → Option ℤ) (n : Sent)
    (x : Announcement) : Prop where
  tenantId : x.tenantId = n.tenantId
  step : x.step = n.step
  date : x.date = n.date
  reached : 0 < n.reached → x.reached = true
  last : ∃ before, told = before ++ [x] ∧ ∀ y ∈ before, y.toldAt ≤ x.toldAt
  current : ∀ since, sinceOf n.tenantId n.step = some since → x.since = some since ∨ x.toldAt < since

/-- The last date of the suspension that reached the tenant is the one that is stored, or is to
be. -/
structure Steady (w : World) : Prop where
  kept : ∀ x ∈ w.told, ∀ since, x.since = some since → w.sinceOf x.tenantId x.step = some since →
    x.reached = true →
      (∃ n, w.notices x.tenantId x.step = some n ∧ 0 < n.reached ∧ since ≤ n.toldAt ∧
        x.date ≤ n.announcedFor) ∨
      ∃ n ∈ w.knows.sent, 0 < n.reached ∧ x.tenantId = n.tenantId ∧ x.step = n.step
  dates : w.KeepsDates

/-- Nothing was read after what the sweep knows, or the tenant is of a later suspension. -/
structure Reads (w : World) : Prop where
  started : ∀ startedAt ∈ w.knows.startedAt, startedAt ≤ w.clock
  current : ∀ i ∈ w.knows.waiting, ∀ since, w.sinceOf i.tenantId w.knows.step = some since →
    (i.since = some since ∧ (w.notices i.tenantId w.knows.step).map StoredNotice.read = i.notice) ∨
      ((∀ startedAt ∈ w.knows.startedAt, startedAt ≤ since) ∧
        ∀ x ∈ w.told, x.tenantId = i.tenantId → x.step = w.knows.step → x.since ≠ some since)
  sent : ∀ n ∈ w.knows.sent, (∃ x, Last w.told w.sinceOf n x) ∧
    ∀ i ∈ w.knows.waiting, i.tenantId ≠ n.tenantId

/-- Time went by, and what was stamped meanwhile is later than all before. -/
structure Passes (w w' : World) : Prop where
  clock : w.clock ≤ w'.clock
  since : ∀ id step, w'.sinceOf id step = none ∨
    (w'.sinceOf id step = some w'.clock ∧ w.clock < w'.clock ∧ w'.notices id step = w.notices id step) ∨
    (w'.sinceOf id step = w.sinceOf id step ∧ w'.notices id step = w.notices id step)
  notices : ∀ id step, ∀ n ∈ w'.notices id step, n ∈ w.notices id step
  nodup : (w.tenants.map Tenant.id).Nodup → (w'.tenants.map Tenant.id).Nodup
  told : w'.told = w.told
  recorded : w'.recorded = w.recorded
  acts : w'.acts = w.acts
  knows : w'.knows = w.knows

section Passes

variable {w w' : World}

theorem Sound.passes (h : w.Sound) (hp : w.Passes w') : w'.Sound where
  nodup := hp.nodup h.nodup
  since_le id step since hsince := by
    rcases hp.since id step with hnone | ⟨hnow, -, -⟩ | ⟨hsame, -⟩
    · rw [hnone] at hsince
      cases hsince
    · rw [hnow] at hsince
      cases hsince
      exact le_rfl
    · rw [hsame] at hsince
      exact (h.since_le id step since hsince).trans hp.clock
  told_le x hx := by
    rw [hp.told] at hx
    exact ⟨(h.told_le x hx).1.trans hp.clock, (h.told_le x hx).2⟩
  notice_le id step n hn := (h.notice_le id step n (hp.notices id step n hn)).trans hp.clock
  acts_le a ha := by
    rw [hp.acts] at ha
    exact (h.acts_le a ha).trans hp.clock
  noted id step since n hsince hn hle := by
    rw [hp.recorded]
    rcases hp.since id step with hnone | ⟨hnow, hlt, hnotice⟩ | ⟨hsame, hnotice⟩
    · rw [hnone] at hsince
      cases hsince
    · -- A notice from before the stamp is not of this suspension.
      rw [hnow] at hsince
      cases hsince
      rw [hnotice] at hn
      have := h.notice_le id step n hn
      omega
    · rw [hsame] at hsince
      rw [hnotice] at hn
      exact h.noted id step since n hsince hn hle
  warned a ha := by
    rw [hp.acts] at ha
    rw [hp.recorded]
    exact h.warned a ha

theorem KeepsDates.congr (h : w.KeepsDates) (htold : w'.told = w.told) (hacts : w'.acts = w.acts) :
    w'.KeepsDates := by
  constructor
  · rw [htold]
    exact h.announced
  · rw [htold, hacts]
    exact h.acted

theorem Steady.passes (h : w.Steady) (hsound : w.Sound) (hp : w.Passes w') : w'.Steady where
  kept x hx since hsince hof hreached := by
    rw [hp.told] at hx
    rcases hp.since x.tenantId x.step with hnone | ⟨hnow, hlt, -⟩ | ⟨hsame, hnotice⟩
    · rw [hnone] at hof
      cases hof
    · rw [hnow] at hof
      cases hof
      obtain ⟨hclock, hafter⟩ := hsound.told_le x hx
      have := hafter _ hsince
      omega
    · rw [hsame] at hof
      rw [hnotice, hp.knows]
      exact h.kept x hx since hsince hof hreached
  dates := h.dates.congr hp.told hp.acts

theorem Reads.passes (h : w.Reads) (hsound : w.Sound) (hp : w.Passes w') : w'.Reads where
  started startedAt hstarted := by
    rw [hp.knows] at hstarted
    exact (h.started startedAt hstarted).trans hp.clock
  current i hi since hof := by
    rw [hp.knows] at hi hof ⊢
    rw [hp.told]
    rcases hp.since i.tenantId w.knows.step with hnone | ⟨hnow, hlt, -⟩ | ⟨hsame, hnotice⟩
    · rw [hnone] at hof
      cases hof
    · rw [hnow] at hof
      cases hof
      refine .inr ⟨fun startedAt hstarted => (h.started startedAt hstarted).trans hp.clock, ?_⟩
      intro x hx _ _ hsince
      obtain ⟨hclock, hafter⟩ := hsound.told_le x hx
      have := hafter _ hsince
      omega
    · rw [hsame] at hof
      rw [hnotice]
      exact h.current i hi since hof
  sent n hn := by
    rw [hp.knows] at hn ⊢
    obtain ⟨⟨x, hx⟩, hwaiting⟩ := h.sent n hn
    obtain ⟨before, htold, hbefore⟩ := hx.last
    refine ⟨⟨x, hx.tenantId, hx.step, hx.date, hx.reached, ⟨before, hp.told.trans htold, hbefore⟩, ?_⟩,
      hwaiting⟩
    intro since hof
    rcases hp.since n.tenantId n.step with hnone | ⟨hnow, hlt, -⟩ | ⟨hsame, -⟩
    · rw [hnone] at hof
      cases hof
    · rw [hnow] at hof
      cases hof
      have hmem : x ∈ w.told := htold ▸ List.mem_append_right _ List.mem_cons_self
      exact .inr ((hsound.told_le x hmem).1.trans_lt hlt)
    · rw [hsame] at hof
      exact hx.current since hof

/-- The dates are kept where the run was careful. -/
structure Good (careful : Prop) (w : World) : Prop where
  sound : w.Sound
  reads : w.Reads
  steady : careful → w.Steady

variable {careful : Prop}

theorem Good.passes (h : w.Good careful) (hp : w.Passes w') : w'.Good careful where
  sound := h.sound.passes hp
  reads := h.reads.passes h.sound hp
  steady hc := (h.steady hc).passes h.sound hp

end Passes

/-! ## What happens beside the sweeps -/

section Changes

variable {w : World} {tenantId : String} {f : Tenant → Tenant}

theorem find_update (hid : ∀ t, (f t).id = t.id) (id : String) :
    (w.update tenantId f).find id = (w.find id).map fun t => if t.id = tenantId then f t else t := by
  unfold find update
  rw [List.find?_map]
  congr 2
  funext t
  simp only [Function.comp_apply]
  split_ifs
  · rw [hid]
  · rfl

theorem nodup_update (hid : ∀ t, (f t).id = t.id) (h : (w.tenants.map Tenant.id).Nodup) :
    ((w.update tenantId f).tenants.map Tenant.id).Nodup := by
  have hids : (w.update tenantId f).tenants.map Tenant.id = w.tenants.map Tenant.id := by
    unfold update
    rw [List.map_map]
    apply List.map_congr_left
    intro t _
    simp only [Function.comp_apply]
    split_ifs
    · exact hid t
    · rfl
  rw [hids]
  exact h

theorem passes_wait (w : World) (elapsed : ℕ) : w.Passes (w.wait elapsed) where
  clock := by
    unfold wait
    dsimp only
    omega
  since _ _ := .inr (.inr ⟨rfl, rfl⟩)
  notices _ _ _ hn := hn
  nodup := id
  told := rfl
  recorded := rfl
  acts := rfl
  knows := rfl

theorem passes_update (hid : ∀ t, (f t).id = t.id)
    (hsince : ∀ t step, (f t).since step = t.since step) :
    w.Passes (w.update tenantId f) where
  clock := le_rfl
  since id step := by
    refine .inr (.inr ⟨?_, rfl⟩)
    unfold sinceOf
    rw [find_update hid, Option.bind_map]
    congr 1
    funext t
    simp only [Function.comp_apply]
    split_ifs
    · exact hsince t step
    · rfl
  notices _ _ _ hn := hn
  nodup := nodup_update hid
  told := rfl
  recorded := rfl
  acts := rfl
  knows := rfl

theorem stamp_since (t : Tenant) (now : ℤ) (stamp : Stamp) (step : Step) :
    (t.stamp now stamp).since step = none ∨ (t.stamp now stamp).since step = some now ∨
      (t.stamp now stamp).since step = t.since step := by
  cases stamp <;> cases step <;> simp [Tenant.stamp, Tenant.since]

theorem stamp_id (t : Tenant) (now : ℤ) (stamp : Stamp) : (t.stamp now stamp).id = t.id := by
  cases stamp <;> rfl

theorem passes_stamp (w : World) (elapsed : ℕ) (tenantId : String) (stamp : Stamp) :
    w.Passes ((w.wait elapsed).update tenantId (·.stamp (w.wait elapsed).clock stamp)) where
  clock := (passes_wait w elapsed).clock
  since id step := by
    have hlt : w.clock < (w.wait elapsed).clock := by
      unfold wait
      dsimp only
      omega
    have hfind : (w.wait elapsed).find id = w.find id := rfl
    unfold sinceOf
    rw [find_update (stamp_id · _ _), hfind]
    cases hw : w.find id with
    | none => exact .inl rfl
    | some t =>
      simp only [Option.map_some, Option.bind_some]
      split_ifs
      · rcases stamp_since t (w.wait elapsed).clock stamp step with hnone | hnow | hsame
        · exact .inl hnone
        · exact .inr (.inl ⟨hnow, hlt, rfl⟩)
        · exact .inr (.inr ⟨hsame, rfl⟩)
      · exact .inr (.inr ⟨rfl, rfl⟩)
  notices _ _ _ hn := hn
  nodup := nodup_update (stamp_id · _ _)
  told := rfl
  recorded := rfl
  acts := rfl
  knows := rfl

theorem find_erase (id : String) :
    (w.erase tenantId).find id = if id = tenantId then none else w.find id := by
  unfold find erase
  dsimp only
  rw [List.find?_filter]
  split_ifs with heq
  · rw [List.find?_eq_none]
    intro t _
    simp [heq]
  · congr 1
    funext t
    rw [Bool.eq_iff_iff]
    simp only [decide_eq_true_eq]
    constructor
    · exact fun h => h.2
    · rintro rfl
      exact ⟨heq, rfl⟩

theorem passes_erase (w : World) (tenantId : String) : w.Passes (w.erase tenantId) where
  clock := le_rfl
  since id step := by
    unfold sinceOf
    rw [find_erase]
    by_cases heq : id = tenantId
    · exact .inl (by rw [if_pos heq]; rfl)
    · rw [if_neg heq]
      exact .inr (.inr ⟨rfl, if_neg heq⟩)
  notices id step n hn := by
    unfold erase at hn
    dsimp only at hn
    split_ifs at hn
    · cases hn
    · exact hn
  nodup h := (List.filter_sublist.map _).nodup h
  told := rfl
  recorded := rfl
  acts := rfl
  knows := rfl

theorem passes_create (w : World) (tenantId name status : String) (isSystem : Bool) :
    w.Passes (w.change (.create tenantId name status isSystem)) := by
  unfold change
  dsimp only
  split_ifs with hfind
  · exact ⟨le_rfl, fun _ _ => .inr (.inr ⟨rfl, rfl⟩), fun _ _ _ hn => hn, id, rfl, rfl, rfl, rfl⟩
  · refine ⟨le_rfl, ?_, fun _ _ _ hn => hn, ?_, rfl, rfl, rfl, rfl⟩
    · intro id step
      unfold sinceOf find
      dsimp only
      rw [List.find?_append]
      cases hw : w.tenants.find? (·.id = id) with
      | some t => exact .inr (.inr ⟨rfl, rfl⟩)
      | none =>
        left
        rw [Option.none_or, List.find?_singleton]
        split_ifs
        · cases step <;> rfl
        · rfl
    · intro h
      rw [List.map_append, List.nodup_append]
      refine ⟨h, List.nodup_singleton _, ?_⟩
      intro id hid id' hid' heq
      rw [List.map_singleton, List.mem_singleton] at hid'
      obtain ⟨t, ht, rfl⟩ := List.mem_map.mp hid
      have hsome : ((w.tenants.find? (·.id = tenantId))).isSome = true := by
        rw [List.find?_isSome]
        exact ⟨t, ht, by rw [heq, hid']; simp⟩
      exact hfind hsome

theorem Good.change {careful : Prop} (h : w.Good careful) (elapsed : ℕ) (c : Change) :
    ((w.wait elapsed).change c).Good careful := by
  have hwait := h.passes (passes_wait w elapsed)
  cases c with
  | pass => exact hwait
  | saveSettings settings =>
    exact hwait.passes
      ⟨le_rfl, fun _ _ => .inr (.inr ⟨rfl, rfl⟩), fun _ _ _ hn => hn, id, rfl, rfl, rfl, rfl⟩
  | create tenantId name status isSystem => exact hwait.passes (passes_create _ _ _ _ _)
  | stamp tenantId stamp => exact h.passes (passes_stamp w elapsed tenantId stamp)
  | keepOut tenantId exempt =>
    exact hwait.passes (passes_update (fun _ => rfl) fun _ step => by cases step <;> rfl)
  | setState tenantId state =>
    exact hwait.passes (passes_update (fun _ => rfl) fun _ step => by cases step <;> rfl)
  | keepArchive tenantId kept =>
    exact hwait.passes (passes_update (fun _ => rfl) fun _ step => by cases step <;> rfl)
  | delete tenantId => exact hwait.passes (passes_erase _ _)

end Changes

/-! ## What a sweep does -/

section Sweeps

variable {w : World} {careful : Prop} {step : Step} {tenantId : String}
  {before date since startedAt : ℤ} {t : Tenant}
  {settings : TenantAutomationSettings} {b : Knows} {o : Op}

theorem Reads.plans {plan : TenantAutomationPlan} (h : w.Reads)
    (hplans : w.knows.Plans step tenantId plan startedAt settings)
    (hof : w.sinceOf tenantId step = some since) :
    startedAt ≤ w.clock ∧ w.knows.settings = some settings ∧ settings.isOn step = true ∧
      ((startedAt ≤ since ∧ ∀ x ∈ w.told, x.tenantId = tenantId → x.step = step →
        x.since ≠ some since) ∨
        ∃ i, i.since = some since ∧ (w.notices tenantId step).map StoredNotice.read = i.notice ∧
          tenantAutomationPlan i (settings.daysOf step) settings.noticeDays startedAt = plan) := by
  obtain ⟨hstarted, hsettings, hon, rfl, i, hi, rfl, hplan⟩ := hplans
  refine ⟨h.started startedAt hstarted, hsettings, hon, ?_⟩
  rcases h.current i hi since hof with ⟨hsince, hnotice⟩ | ⟨hlater, hfresh⟩
  · exact .inr ⟨i, hsince, hnotice, hplan⟩
  · exact .inl ⟨hlater startedAt hstarted, hfresh⟩

theorem Counts_read_iff {n : StoredNotice} {limitAt : ℤ} :
    n.read.Counts since limitAt ↔ 0 < n.reached ∧ since ≤ n.toldAt ∧
    limitAt - 1000 ≤ n.announcedFor := by
  simp [Notice.Counts, StoredNotice.read]

/-- A tenant that is due by the plan, and has been suspended since before the limit. -/
theorem Reads.due (h : w.Reads) (hmay : w.knows.MayAct step tenantId before)
    (hof : w.sinceOf tenantId step = some since) (hbefore : since < before) :
    ∃ settings, w.knows.settings = some settings ∧ settings.isOn step = true ∧
      tenantAutomationDueAt since (settings.daysOf step) ≤ w.clock ∧
      ((∃ n, w.notices tenantId step = some n ∧ 0 < n.reached ∧ since ≤ n.toldAt ∧
        n.announcedFor ≤ w.clock) ∨
        settings.noticeDays = 0 ∧ ∀ n, w.notices tenantId step = some n → 0 < n.reached →
          since ≤ n.toldAt → n.announcedFor ≤ w.clock) := by
  obtain ⟨-, startedAt, settings, hplans, hle⟩ := hmay
  obtain ⟨hstarted, hsettings, hon, hplan⟩ := h.plans hplans hof
  have hdays : 0 ≤ (settings.daysOf step : ℤ) * dayMs :=
    Int.mul_nonneg (Int.natCast_nonneg _) (Int.le_of_lt dayMs_pos)
  have hlimit : tenantAutomationDueAt since (settings.daysOf step) ≤ w.clock := by
    unfold tenantAutomationDueAt
    omega
  refine ⟨settings, hsettings, hon, hlimit, ?_⟩
  rcases hplan with ⟨hlater, -⟩ | ⟨i, hsince, hnotice, hdue⟩
  · omega
  · obtain ⟨since', hsince', hcase⟩ := plan_eq_due hdue
    rw [hsince, Option.some.injEq] at hsince'
    subst hsince'
    rw [← hnotice] at hcase
    rcases hcase with ⟨n, hn, hcounts, hdate⟩ | ⟨hnone, hdays, hpast⟩
    · obtain ⟨stored, hstored, rfl⟩ := Option.map_eq_some_iff.mp hn
      rw [Counts_read_iff] at hcounts
      exact .inl ⟨stored, hstored, hcounts.1, hcounts.2.1, hdate.trans hstarted⟩
    · refine .inr ⟨hdays, ?_⟩
      intro n hn hreached hafter
      have hnot := hnone n.read (by rw [hn]; rfl)
      rw [Counts_read_iff] at hnot
      by_contra hlate
      exact hnot ⟨hreached, hafter, by omega⟩

theorem Steady.stored (h : w.Steady) (hsent : w.knows.sent = none) {x : Announcement} (hx : x ∈ w.told)
    (hsince : x.since = some since) (hof : w.sinceOf x.tenantId x.step = some since)
    (hreached : x.reached = true) : ∃ n, w.notices x.tenantId x.step = some n ∧ 0 < n.reached ∧
      since ≤ n.toldAt ∧ x.date ≤ n.announcedFor := by
  apply (h.kept x hx since hsince hof hreached).resolve_right
  rintro ⟨n, hn, -⟩
  rw [hsent] at hn
  cases hn

theorem Good.begun (h : w.Good careful) (hmay : w.knows.MayAct step tenantId before)
    (hid : t.id = tenantId) (hof : w.sinceOf tenantId step = t.since step)
    (hsince : t.since step = some since) (hbefore : since < before) : (w.begun step t).Good careful := by
  rw [hsince] at hof
  obtain ⟨settings, hsettings, hon, hlimit, hcase⟩ := h.reads.due hmay hof hbefore
  refine ⟨⟨h.sound.nodup, h.sound.since_le, h.sound.told_le, h.sound.notice_le, ?_, h.sound.noted, ?_⟩,
    ⟨h.reads.started, h.reads.current, h.reads.sent⟩, fun hc =>
    ⟨(h.steady hc).kept, (h.steady hc).dates.announced, ?_⟩⟩
  · intro a ha
    rcases List.mem_append.mp ha with ha | ha
    · exact h.sound.acts_le a ha
    · rw [List.mem_singleton] at ha
      subst ha
      exact le_rfl
  · intro a ha
    rcases List.mem_append.mp ha with ha | ha
    · exact h.sound.warned a ha
    · rw [List.mem_singleton] at ha
      subst ha
      refine ⟨settings, since, hsettings, hsince, hon, hlimit, ?_⟩
      rcases hcase with ⟨n, hn, hreached, hafter, hdate⟩ | ⟨hdays, -⟩
      · refine .inr ⟨_, h.sound.noted tenantId step since n hof hn hafter, hid.symm, rfl, rfl,
          decide_eq_true hreached, h.sound.notice_le tenantId step n hn, hdate⟩
      · exact .inl hdays
  · intro a ha x hx htenant hstep hsinceOf hreached hle
    rcases List.mem_append.mp ha with ha | ha
    · exact (h.steady hc).dates.acted a ha x hx htenant hstep hsinceOf hreached hle
    · rw [List.mem_singleton] at ha
      subst ha
      dsimp only at htenant hstep hsinceOf ⊢
      rw [hsince] at hsinceOf
      have hofx : w.sinceOf x.tenantId x.step = some since := by rw [htenant, hstep, hid, hof]
      obtain ⟨n, hn, hpos, hafter, hdate⟩ := (h.steady hc).stored hmay.1 hx hsinceOf hofx hreached
      rw [htenant, hstep, hid] at hn
      apply hdate.trans
      rcases hcase with ⟨n', hn', -, -, hcome⟩ | ⟨-, hcome⟩
      · rw [hn, Option.some.injEq] at hn'
        subst hn'
        exact hcome
      · exact hcome n hn hpos hafter

/-- What is told now is not before what the tenant was told in this suspension. -/
theorem Good.later (h : w.Good True) (hsent : w.knows.sent = none)
    (hplans : w.knows.Plans step tenantId (.tell date) startedAt settings)
    (hof : w.sinceOf tenantId step = some since) {x : Announcement} (hx : x ∈ w.told)
    (htenant : x.tenantId = tenantId) (hstep : x.step = step) (hsince : x.since = some since)
    (hreached : x.reached = true) : x.date ≤ date := by
  obtain ⟨-, -, -, hplan⟩ := h.reads.plans hplans hof
  rcases hplan with ⟨-, hfresh⟩ | ⟨i, hisince, hnotice, htell⟩
  · exact absurd hsince (hfresh x hx htenant hstep)
  · obtain ⟨since', hsince', hnone, hlimit⟩ := plan_eq_tell htell
    rw [hisince, Option.some.injEq] at hsince'
    subst hsince'
    subst htenant hstep
    obtain ⟨n, hn, hpos, hafter, hdate⟩ := (h.steady trivial).stored hsent hx hsince hof hreached
    have hnot := hnone n.read (by rw [← hnotice, hn]; rfl)
    rw [Counts_read_iff] at hnot
    by_contra hlate
    exact hnot ⟨hpos, hafter, by omega⟩

section Notified

variable {reached : ℕ} {sent : Option Sent}

def notified (w : World) (step : Step) (tenantId : String) (date : ℤ) (reached : ℕ)
    (sent : Option Sent) :
    World :=
  { w.announce step tenantId date reached with knows := { w.knows.drop tenantId with sent := sent } }

theorem Sound.notified (h : w.Sound) : (w.notified step tenantId date reached sent).Sound where
  nodup := h.nodup
  since_le := h.since_le
  told_le x hx := by
    rcases List.mem_append.mp hx with hx | hx
    · exact h.told_le x hx
    · rw [List.mem_singleton] at hx
      subst hx
      exact ⟨le_rfl, h.since_le tenantId step⟩
  notice_le := h.notice_le
  acts_le := h.acts_le
  noted := h.noted
  warned := h.warned

theorem Reads.notified (h : w.Reads) (hsound : w.Sound)
    (hsent : ∀ n ∈ sent, n = ⟨step, tenantId, date, reached⟩) :
    (w.notified step tenantId date reached sent).Reads where
  started := h.started
  current i hi since hof := by
    obtain ⟨hi, hother⟩ := List.mem_filter.mp hi
    rw [decide_eq_true_eq] at hother
    rcases h.current i hi since hof with hread | ⟨hlater, hfresh⟩
    · exact .inl hread
    · refine .inr ⟨hlater, ?_⟩
      intro x hx htenant
      rcases List.mem_append.mp hx with hx | hx
      · exact hfresh x hx htenant
      · rw [List.mem_singleton] at hx
        subst hx
        exact absurd htenant.symm hother
  sent n hn := by
    obtain rfl := hsent n hn
    refine ⟨⟨_, rfl, rfl, rfl, decide_eq_true, ⟨w.told, rfl, fun y hy => (hsound.told_le y hy).1⟩,
      fun since hof => .inl hof⟩, ?_⟩
    intro i hi
    exact of_decide_eq_true (List.mem_filter.mp hi).2

/-- The date is told to the tenant, not before what it was told in this suspension. -/
theorem Good.steady_notified (h : w.Good True) {startedAt : ℤ} {settings : TenantAutomationSettings}
    (hnone : w.knows.sent = none) (hplans : w.knows.Plans step tenantId (.tell date) startedAt settings)
    (hacts : ∀ a ∈ w.acts, a.time < w.clock)
    (hsent : 0 < reached → sent = some ⟨step, tenantId, date, reached⟩) :
    (w.notified step tenantId date reached sent).Steady where
  kept x hx since hsince hof hreached := by
    rcases List.mem_append.mp hx with hx | hx
    · exact .inl ((h.steady trivial).stored hnone hx hsince hof hreached)
    · rw [List.mem_singleton] at hx
      subst hx
      have hmany : 0 < reached := of_decide_eq_true hreached
      exact .inr ⟨_, hsent hmany, hmany, rfl, rfl⟩
  dates := by
    constructor
    · refine List.pairwise_append.mpr
        ⟨(h.steady trivial).dates.announced, List.pairwise_singleton _ _, ?_⟩
      rintro x hx y hy ⟨htenant, hstep, hsince, hsome, hreached, -⟩
      rw [List.mem_singleton] at hy
      subst hy
      obtain ⟨since, hxsince⟩ := Option.isSome_iff_exists.mp hsome
      rw [hxsince] at hsince
      exact h.later hnone hplans hsince.symm hx htenant hstep hxsince hreached
    · intro a ha x hx htenant hstep hsince hreached hle
      rcases List.mem_append.mp hx with hx | hx
      · exact (h.steady trivial).dates.acted a ha x hx htenant hstep hsince hreached hle
      · -- What is told now comes after all that was done.
        rw [List.mem_singleton] at hx
        subst hx
        have := hacts a ha
        dsimp only at hle
        omega

end Notified

section Written

variable {n : Sent}

def written (w : World) (n : Sent) (recorded : Bool) : World :=
  { (if recorded then w.noted n.step n.tenantId ⟨w.clock, n.date, n.reached⟩ else w) with
    knows := { w.knows with sent := none } }

theorem Sound.written (h : w.Sound) (recorded : Bool) : (w.written n recorded).Sound := by
  cases recorded with
  | false => exact ⟨h.nodup, h.since_le, h.told_le, h.notice_le, h.acts_le, h.noted, h.warned⟩
  | true =>
    refine ⟨h.nodup, h.since_le, h.told_le, ?_, h.acts_le, ?_, ?_⟩
    · intro id s x hx
      change (if id = n.tenantId ∧ s = n.step then _ else _) = _ at hx
      split_ifs at hx with hnew
      · cases hx
        exact le_rfl
      · exact h.notice_le id s x hx
    · intro id s since x hsince hx hle
      change (if id = n.tenantId ∧ s = n.step then _ else _) = _ at hx
      apply List.mem_append.mpr
      split_ifs at hx with hnew
      · obtain ⟨rfl, rfl⟩ := hnew
        cases hx
        have hof : w.sinceOf n.tenantId n.step = some since := hsince
        exact .inr (List.mem_singleton.mpr (by rw [hof]))
      · exact .inl (h.noted id s since x hsince hx hle)
    · exact fun a ha => (h.warned a ha).mono fun x hx => List.mem_append_left _ hx

theorem Reads.written (h : w.Reads) (hn : w.knows.sent = some n) (recorded : Bool) :
    (w.written n recorded).Reads := by
  obtain ⟨-, hwaiting⟩ := h.sent n hn
  cases recorded with
  | false => exact ⟨h.started, h.current, fun _ hnone => by cases hnone⟩
  | true =>
    refine ⟨h.started, fun i hi since hof => ?_, fun _ hnone => by cases hnone⟩
    rcases h.current i hi since hof with ⟨hsince, hnotice⟩ | hlater
    · refine .inl ⟨hsince, ?_⟩
      rw [← hnotice]
      exact congrArg _ (if_neg fun hnew => hwaiting i hi hnew.1)
    · exact .inr hlater

/-- What reached the tenant in the suspension that it is in is not later than the message that is
written down. -/
theorem Good.date_le (h : w.Good True) (hn : w.knows.sent = some n) (hmany : 0 < n.reached)
    {x : Announcement} (hx : x ∈ w.told) (htenant : x.tenantId = n.tenantId) (hstep : x.step = n.step)
    (hsince : x.since = some since) (hof : w.sinceOf n.tenantId n.step = some since)
    (hreached : x.reached = true) : x.date ≤ n.date := by
  obtain ⟨⟨y, hy⟩, -⟩ := h.reads.sent n hn
  obtain ⟨before, htold, hbefore⟩ := hy.last
  rw [htold] at hx
  rw [← hy.date]
  rcases List.mem_append.mp hx with hx | hx
  · rcases hy.current since hof with hsame | hlater
    · have hpairs := (h.steady trivial).dates.announced
      rw [htold, List.pairwise_append] at hpairs
      exact hpairs.2.2 x hx y List.mem_cons_self
        ⟨htenant.trans hy.tenantId.symm, hstep.trans hy.step.symm,
        hsince.trans hsame.symm, by rw [hsince]; rfl, hreached, hy.reached hmany⟩
    · have hafter := (h.sound.told_le x (htold ▸ List.mem_append_left _ hx)).2 since hsince
      have := hbefore x hx
      omega
  · rw [List.mem_singleton.mp hx]

theorem Good.steady_written (h : w.Good True) (hn : w.knows.sent = some n) (recorded : Bool)
    (hwritten : 0 < n.reached → recorded = true ∨ w.sinceOf n.tenantId n.step = none)
    (hover : n.reached = 0 → recorded = true → ∀ since ∈ w.sinceOf n.tenantId n.step,
      ∀ x ∈ w.notices n.tenantId n.step, since ≤ x.toldAt → x.reached = 0) :
    (w.written n recorded).Steady := by
  have hdates : (w.written n recorded).KeepsDates := by
    cases recorded <;> exact (h.steady trivial).dates.congr rfl rfl
  refine ⟨fun x hx since hsince hof hreached => .inl ?_, hdates⟩
  have htold : x ∈ w.told := by cases recorded <;> exact hx
  have hofx : w.sinceOf x.tenantId x.step = some since := by cases recorded <;> exact hof
  have hkept := (h.steady trivial).kept x htold since hsince hofx hreached
  by_cases hnew : x.tenantId = n.tenantId ∧ x.step = n.step
  · obtain ⟨htenant, hstep⟩ := hnew
    have hofn : w.sinceOf n.tenantId n.step = some since := by rw [← htenant, ← hstep, hofx]
    have hle := h.sound.since_le _ _ _ hofn
    by_cases hmany : 0 < n.reached
    · obtain rfl : recorded = true := (hwritten hmany).resolve_right
        (by rw [hofn]; exact Option.some_ne_none _)
      exact ⟨_, if_pos ⟨htenant, hstep⟩, hmany, hle,
        h.date_le hn hmany htold htenant hstep hsince hofn hreached⟩
    · obtain ⟨y, hy, hpos, hafter, hdate⟩ := hkept.resolve_right (by
        rintro ⟨m, hm, hmpos, -⟩
        rw [hn] at hm
        cases hm
        exact hmany hmpos)
      rw [htenant, hstep] at hy
      cases recorded with
      | false => exact ⟨y, by rw [htenant, hstep]; exact hy, hpos, hafter, hdate⟩
      | true =>
        have := hover (by omega) rfl since hofn y hy hafter
        omega
  · obtain ⟨y, hy, hrest⟩ := hkept.resolve_right (by
      rintro ⟨m, hm, -, hsame⟩
      rw [hn] at hm
      cases hm
      exact hnew hsame)
    cases recorded with
    | false => exact ⟨y, hy, hrest⟩
    | true => exact ⟨y, (if_neg hnew).trans hy, hrest⟩

end Written

/-! ## What an answer does -/

theorem Sound.knowing (h : w.Sound) (b : Knows) : Sound { w with knows := b } :=
  ⟨h.nodup, h.since_le, h.told_le, h.notice_le, h.acts_le, h.noted, h.warned⟩

/-- The sweep learns nothing of more tenants. -/
theorem Good.learns (h : w.Good careful) (hstarted : b.startedAt = w.knows.startedAt)
    (hstep : b.step = w.knows.step) (hsent : b.sent = w.knows.sent)
    (hsub : ∀ i ∈ b.waiting, i ∈ w.knows.waiting) : Good careful { w with knows := b } where
  sound := h.sound.knowing _
  reads := by
    refine ⟨fun startedAt hb => ?_, fun i hi => ?_, fun n hn => ?_⟩
    · dsimp only at hb
      rw [hstarted] at hb
      exact h.reads.started startedAt hb
    · dsimp only at hi ⊢
      rw [hstarted, hstep]
      exact h.reads.current i (hsub i hi)
    · dsimp only at hn
      rw [hsent] at hn
      exact ⟨(h.reads.sent n hn).1, fun i hi => (h.reads.sent n hn).2 i (hsub i hi)⟩
  steady hc := by
    refine ⟨fun x hx since hsince hof hreached => ?_, (h.steady hc).dates.congr rfl rfl⟩
    dsimp only
    rw [hsent]
    exact (h.steady hc).kept x hx since hsince hof hreached

theorem Good.drops (h : w.Good careful) (tenantId : String) :
    Good careful { w with knows := w.knows.drop tenantId } :=
  h.learns rfl rfl rfl fun _ hi => (List.mem_filter.mp hi).1

/-- The start is noted, before any list was read. -/
theorem Good.starts (h : w.Good careful) :
    Good careful { w with knows := { w.knows with startedAt := some w.clock, waiting := [] } } where
  sound := h.sound.knowing _
  reads := by
    refine ⟨fun startedAt hb => ?_, fun i hi => ?_, fun n hn => ⟨(h.reads.sent n hn).1, fun i hi => ?_⟩⟩
    · cases hb
      exact le_rfl
    · cases hi
    · cases hi
  steady hc := ⟨(h.steady hc).kept, (h.steady hc).dates.congr rfl rfl⟩

theorem find_of_mem (hnodup : (w.tenants.map Tenant.id).Nodup) (ht : t ∈ w.tenants) :
    w.find t.id = some t := by
  unfold find
  rw [List.find?_eq_some_iff_append]
  obtain ⟨l, l', hl⟩ := List.append_of_mem ht
  refine ⟨decide_eq_true rfl, l, l', hl, ?_⟩
  intro t' ht'
  rw [hl, List.map_append, List.map_cons, List.nodup_append] at hnodup
  have hne := hnodup.2.2 t'.id (List.mem_map_of_mem ht') t.id List.mem_cons_self
  simpa using hne

theorem mem_inLine {i : InLineTenant} (hi : i ∈ w.inLine step) :
    ∃ t ∈ w.tenants, i = w.listed step t := by
  unfold inLine at hi
  obtain ⟨t, ht, rfl⟩ := List.mem_map.mp hi
  rw [List.mem_insertionSort] at ht
  exact ⟨t, (List.mem_filter.mp ht).1, rfl⟩

theorem Good.lists (h : w.Good careful) (hsent : w.knows.sent = none) :
    Good careful { w with knows := { w.knows with step := step, waiting := w.inLine step } } where
  sound := h.sound.knowing _
  reads := by
    refine ⟨h.reads.started, fun i hi since hof => ?_, fun n hn => ?_⟩
    · obtain ⟨t, ht, rfl⟩ := mem_inLine hi
      left
      refine ⟨?_, rfl⟩
      have hfind := find_of_mem h.sound.nodup ht
      change (w.find t.id).bind (·.since step) = some since at hof
      rw [hfind, Option.bind_some] at hof
      exact hof
    · dsimp only at hn
      rw [hsent] at hn
      cases hn
  steady hc := ⟨(h.steady hc).kept, (h.steady hc).dates.congr rfl rfl⟩

theorem id_of_find (h : w.find tenantId = some t) : t.id = tenantId := by
  simpa using List.find?_some h

theorem before_of_any {o : Option ℤ} (h : o.any (· < before) = true) :
    ∃ since, o = some since ∧ since < before := by
  cases o with
  | none => cases h
  | some since => exact ⟨since, rfl, by simpa using h⟩

/-- An archive that is not refused is of a tenant suspended since before the date. -/
theorem archiveRefusal_eq_none (h : archiveRefusal t before = none) :
    ∃ since, t.since .archive = some since ∧ since < before := by
  unfold archiveRefusal at h
  split_ifs at h with _ _ _ hsince
  exact before_of_any hsince

theorem deleteRefusal_eq_none (h : deleteRefusal t before = none) :
    ∃ since, t.since .delete = some since ∧ since < before := by
  unfold deleteRefusal at h
  split_ifs at h with _ hsince
  exact before_of_any hsince.2

theorem Good.archiveTenant (h : w.Good careful) (luck : Luck)
    (hmay : w.knows.MayAct .archive tenantId before) :
    (w.archiveTenant luck tenantId before).2.Good careful ∧
      (w.archiveTenant luck tenantId before).2.knows = w.knows := by
  unfold World.archiveTenant
  cases hfind : w.find tenantId with
  | none => exact ⟨h, rfl⟩
  | some t =>
    dsimp only
    cases hrefusal : archiveRefusal t before with
    | some e => exact ⟨h, rfl⟩
    | none =>
      cases luck.midway with
      | some e => exact ⟨h, rfl⟩
      | none =>
        obtain ⟨since, hsince, hlt⟩ := archiveRefusal_eq_none hrefusal
        have hof : w.sinceOf tenantId .archive =
          t.since .archive := by rw [sinceOf, hfind, Option.bind_some]
        have hbegun := h.begun hmay (id_of_find hfind) hof hsince hlt
        exact ⟨hbegun.passes (passes_update (fun _ => rfl) fun _ step => by cases step <;> rfl), rfl⟩

theorem Good.deleteTenant (h : w.Good careful) (luck : Luck)
    (hmay : w.knows.MayAct .delete tenantId before) :
    (w.deleteTenant luck tenantId before).2.Good careful ∧
      (w.deleteTenant luck tenantId before).2.knows = w.knows := by
  unfold World.deleteTenant
  cases hfind : w.find tenantId with
  | none => exact ⟨h, rfl⟩
  | some t =>
    dsimp only
    cases hrefusal : deleteRefusal t before with
    | some e => exact ⟨h, rfl⟩
    | none =>
      obtain ⟨since, hsince, hlt⟩ := deleteRefusal_eq_none hrefusal
      have hof : w.sinceOf tenantId .delete =
        t.since .delete := by rw [sinceOf, hfind, Option.bind_some]
      have hbegun := h.begun hmay (id_of_find hfind) hof hsince hlt
      cases luck.midway with
      | some e => exact ⟨hbegun, rfl⟩
      | none => exact ⟨hbegun.passes (passes_erase _ _), rfl⟩

/-- What the sweep knows of a message: that it is to be written down, or nothing when it threw. -/
def sentBy (luck : Luck) (step : Step) (tenantId : String) (date : ℤ) : Option Sent :=
  if luck.midway = none then some ⟨step, tenantId, date, luck.reached⟩ else none

theorem Good.notifyTenant (h : w.Good careful) (luck : Luck) (hnone : w.knows.sent = none)
    (hplans : w.knows.Plans step tenantId (.tell date) startedAt settings)
    (hacts : ∀ a ∈ w.acts, a.time < w.clock)
    (hcareful : careful → 0 < luck.reached → luck.midway = none) :
    (w.notified step tenantId date luck.reached (sentBy luck step tenantId date)).Good careful := by
  refine ⟨h.sound.notified, h.reads.notified h.sound ?_, fun hc => ?_⟩
  · intro n hn
    unfold sentBy at hn
    split_ifs at hn
    · cases hn
      rfl
    · cases hn
  · have hgood : w.Good True := ⟨h.sound, h.reads, fun _ => h.steady hc⟩
    exact hgood.steady_notified hnone hplans hacts fun hreached => if_pos (hcareful hc hreached)

theorem Good.written (h : w.Good careful) (luck : Luck) {n : Sent} (hn : w.knows.sent = some n)
    (hcareful : careful → (0 < n.reached → luck.recorded = true) ∧
      (n.reached = 0 → luck.recorded = true → ∀ since ∈ w.sinceOf n.tenantId n.step,
        ∀ x ∈ w.notices n.tenantId n.step, since ≤ x.toldAt → x.reached = 0)) :
    (w.written n (luck.recorded && (w.find n.tenantId).isSome)).Good careful := by
  refine ⟨h.sound.written _, h.reads.written hn _, fun hc => ?_⟩
  have hgood : w.Good True := ⟨h.sound, h.reads, fun _ => h.steady hc⟩
  apply hgood.steady_written hn _
  · intro hreached
    rw [(hcareful hc).1 hreached, Bool.true_and]
    cases hfind : w.find n.tenantId with
    | none => exact .inr (by rw [sinceOf, hfind, Option.bind_none])
    | some t => exact .inl rfl
  · intro hreached hwritten
    exact (hcareful hc).2 hreached (Bool.and_eq_true _ _ ▸ hwritten).1

theorem Good.unwritten (h : w.Good careful) {n : Sent} (hn : w.knows.sent = some n)
    (hcareful : careful → n.reached = 0) :
    Good careful { w with knows := { w.knows with sent := none } } := by
  refine ⟨h.sound.written (n := n) false, h.reads.written hn false, fun hc => ?_⟩
  have hgood : w.Good True := ⟨h.sound, h.reads, fun _ => h.steady hc⟩
  refine hgood.steady_written hn false (fun hreached => ?_) fun _ hwritten => by cases hwritten
  have := hcareful hc
  omega

theorem next_error {b' : Knows} {e : Thrown} (h : b.next o (.error e) = some b') :
    b' = b ∨ (∃ tenantId, b' = b.drop tenantId) ∨
      (∃ step tenantId date reached, o = .writeNotice step tenantId date reached) ∧
        b' = { b with sent := none } := by
  cases o
  case writeNotice =>
    cases h
    exact .inr (.inr ⟨⟨_, _, _, _, rfl⟩, rfl⟩)
  all_goals
    cases h
    first | exact .inl rfl | exact .inr (.inl ⟨_, rfl⟩)

theorem respond_still (ho : o.Still) (luck : Luck) : (w.respond luck o).2 = w := by
  cases o <;> first | exact absurd ho id | (unfold respond; cases luck.throws <;> rfl)

theorem Good.answer (h : w.Good careful) (luck : Luck) (hacts : ∀ a ∈ w.acts, a.time < w.clock)
    (hallowed : w.knows.allowed o) (hcareful : careful → w.LosesNoDate luck o)
    (hnext : w.knows.next o (w.respond luck o).1 = some b) :
    Good careful { (w.respond luck o).2 with knows := b } := by
  by_cases hstill : o.Still
  · rw [(hstill.next _ _).2] at hnext
    cases hnext
    rw [respond_still hstill]
    exact h
  by_cases hnow : o = .now
  · subst hnow
    have hclock : w.respond luck .now = (.ok w.clock, w) := by cases luck.throws <;> rfl
    rw [hclock] at hnext ⊢
    simp only [Knows.next] at hnext
    split at hnext
    · cases hnext
      exact h.starts
    · cases hnext
      exact h
  cases hthrows : luck.throws with
  | some e =>
    have herror : w.respond luck o = (.error e, w) := by
      unfold respond
      rw [hthrows]
      cases o <;> first | exact absurd rfl hnow | rfl
    rw [herror] at hnext ⊢
    rcases next_error hnext with rfl | ⟨tenantId, rfl⟩ | ⟨⟨step, tenantId, date, reached, rfl⟩, rfl⟩
    · exact h
    · exact h.drops tenantId
    · refine h.unwritten hallowed fun hc => ?_
      by_contra hmany
      have hthrown := ((hcareful hc).1 (Nat.pos_of_ne_zero hmany)).1
      rw [hthrows] at hthrown
      cases hthrown
  | none =>
    cases o with
    | now => exact absurd rfl hnow
    | settings =>
      have hanswer : w.respond luck .settings = (.ok w.settings, w) := by rw [respond, hthrows]
      rw [hanswer] at hnext ⊢
      cases hnext
      exact h.learns rfl rfl rfl fun _ hi => hi
    | inLine step =>
      have hanswer : w.respond luck (.inLine step) =
        (.ok (w.inLine step), w) := by rw [respond, hthrows]
      rw [hanswer] at hnext ⊢
      simp only [Knows.next] at hnext
      split at hnext
      · cases hnext
        exact h.lists hallowed
      · cases hnext
    | archiveTenant tenantId retentionDays before =>
      have hanswer : w.respond luck (.archiveTenant tenantId retentionDays before) =
          w.archiveTenant luck tenantId before := by rw [respond, hthrows]
      rw [hanswer] at hnext ⊢
      cases hnext
      obtain ⟨hgood, hknows⟩ := h.archiveTenant luck hallowed
      rw [← hknows]
      exact hgood.drops tenantId
    | deleteTenant tenantId before =>
      have hanswer : w.respond luck (.deleteTenant tenantId before) =
          w.deleteTenant luck tenantId before := by rw [respond, hthrows]
      rw [hanswer] at hnext ⊢
      cases hnext
      obtain ⟨hgood, hknows⟩ := h.deleteTenant luck hallowed
      rw [← hknows]
      exact hgood.drops tenantId
    | notifyTenant step tenantId date =>
      have hanswer : w.respond luck (.notifyTenant step tenantId date) =
          w.notifyTenant luck step tenantId date := by rw [respond, hthrows]
      rw [hanswer] at hnext ⊢
      obtain ⟨hnone, startedAt, settings, hplans⟩ := hallowed
      have hgood := h.notifyTenant luck hnone hplans hacts fun hc => hcareful hc hthrows
      unfold sentBy at hgood
      unfold World.notifyTenant at hnext ⊢
      cases hmidway : luck.midway with
      | none =>
        rw [hmidway] at hnext hgood
        cases hnext
        exact hgood
      | some e =>
        rw [hmidway] at hnext hgood
        cases hnext
        rw [if_neg (Option.some_ne_none e), ← hnone] at hgood
        exact hgood
    | writeNotice step tenantId date reached =>
      have hanswer : w.respond luck (.writeNotice step tenantId date reached) =
          w.writeNotice luck step tenantId date reached := by rw [respond, hthrows]
      rw [hanswer] at hnext ⊢
      have hgood := h.written luck hallowed fun hc =>
        ⟨fun hmany => ((hcareful hc).1 hmany).2, fun hzero => (hcareful hc).2 hzero hthrows⟩
      have hworld : { (w.writeNotice luck step tenantId date reached).2 with
          knows := { w.knows with sent := none } } = w.written ⟨step, tenantId, date, reached⟩
            (luck.recorded && (w.find tenantId).isSome) := by
        unfold World.writeNotice World.written
        split_ifs <;> rfl
      cases hnext
      rw [hworld]
      exact hgood
    | _ => exact absurd trivial hstill

/-- Nothing was told and nothing was done yet, and no date is to come. -/
structure Start (w : World) : Prop where
  nodup : (w.tenants.map Tenant.id).Nodup
  since_le : ∀ id step, ∀ since ∈ w.sinceOf id step, since ≤ w.clock
  notices : ∀ id step, w.notices id step = none
  told : w.told = []
  recorded : w.recorded = []
  acts : w.acts = []
  knows : w.knows = .start

theorem Start.good (h : w.Start) (careful : Prop) : w.Good careful where
  sound := by
    refine ⟨h.nodup, h.since_le, ?_, ?_, ?_, ?_, ?_⟩
    · simp [h.told]
    · simp [h.notices]
    · simp [h.acts]
    · simp [h.notices]
    · simp [h.acts]
  reads := by
    constructor
    · simp [h.knows, Knows.start]
    · simp [h.knows, Knows.start]
    · simp [h.knows, Knows.start]
  steady _ := by
    refine ⟨by simp [h.told], ?_, ?_⟩
    · simp [h.told]
    · simp [h.acts]

theorem Good.begins (h : w.Good careful) (hsent : careful → ∀ n ∈ w.knows.sent, n.reached = 0) :
    Good careful { w with knows := .start } where
  sound := h.sound.knowing _
  reads := by
    refine ⟨fun startedAt hstarted => ?_, fun i hi => ?_, fun n hn => ?_⟩
    · cases hstarted
    · cases hi
    · cases hn
  steady hc := by
    refine ⟨fun x hx since hsince hof hreached => ?_, (h.steady hc).dates.congr rfl rfl⟩
    refine .inl (((h.steady hc).kept x hx since hsince hof hreached).resolve_right ?_)
    rintro ⟨n, hn, hmany, -⟩
    have := hsent hc n hn
    omega

end Sweeps

end World

/-! ## Whole runs -/

structure State.Holds (careful : Prop) (s : State) : Prop where
  good : s.world.Good careful
  follows : ∀ p, s.sweep = some p → Follows sweepDiscipline (fun b _ => b.sent = none) p s.world.knows
  idle : s.sweep = none → careful → ∀ n ∈ s.world.knows.sent, n.reached = 0

theorem holds_step {careful : Prop} {s s' : State} {e : Event} (h : s.Holds careful)
    (hs : step s e = some s') (hcareful : careful → Careful s e s') : s'.Holds careful := by
  cases e with
  | change elapsed c =>
    cases hs
    have hknows : ((s.world.wait elapsed).change c).knows = s.world.knows := by
      cases c
      case create tenantId name status isSystem =>
        exact (World.passes_create (s.world.wait elapsed) tenantId name status isSystem).knows
      all_goals rfl
    refine ⟨h.good.change elapsed c, fun p hp => ?_, fun hidle => ?_⟩
    · dsimp only
      rw [hknows]
      exact h.follows p hp
    · dsimp only
      rw [hknows]
      exact h.idle hidle
  | stop =>
    cases hs
    exact ⟨h.good, fun _ hp => (by cases hp), fun _ hc => hcareful hc⟩
  | sweep scheduled =>
    unfold step at hs
    dsimp only at hs
    split at hs
    · cases hs
    · next hidle =>
      cases hs
      refine ⟨h.good.begins fun hc n hn => ?_, fun p hp => ?_, fun hnone => by cases hnone⟩
      · cases hsweep : s.sweep with
        | none => exact h.idle hsweep hc n hn
        | some p =>
          cases p with
          | pure r =>
            have hsent : s.world.knows.sent = none := h.follows _ hsweep
            rw [hsent] at hn
            cases hn
          | call o next => exact absurd hsweep (hidle o next)
      · cases hp
        exact sweep_follows scheduled
  | answer elapsed luck =>
    unfold step at hs
    dsimp only at hs
    split at hs
    · next o next hsweep =>
      obtain ⟨b, hb, rfl⟩ := Option.map_eq_some_iff.mp hs
      have hfollows := h.follows _ hsweep
      have hwait := h.good.passes (World.passes_wait s.world elapsed)
      have hacts : ∀ a ∈ (s.world.wait elapsed).acts, a.time < (s.world.wait elapsed).clock := by
        intro a ha
        have := h.good.sound.acts_le a ha
        unfold World.wait
        dsimp only
        omega
      have hlose : careful → (s.world.wait elapsed).LosesNoDate luck o := by
        intro hc
        have hstep := hcareful hc
        unfold Careful at hstep
        rw [hsweep] at hstep
        cases o <;> exact hstep
      refine ⟨hwait.answer luck hacts hfollows.1 hlose hb, fun p hp => ?_, fun hnone => by cases hnone⟩
      cases hp
      exact hfollows.2 _ b hb
    · cases hs

theorem World.Start.holds {w : World} (h : w.Start) (careful : Prop) : State.Holds careful ⟨w, none⟩ :=
  ⟨h.good careful, fun _ hp => (by cases hp), fun _ _ n hn => by simp [h.knows, Knows.start] at hn⟩

/-- Where no answer loses a date, a date that was announced does not move earlier, and nothing is
done before it. -/
theorem automation_keeps_dates {w : World} (hstart : w.Start) (es : List Event) {s : State}
    (hcareful : Along step Careful ⟨w, none⟩ es) (hs : exec step ⟨w, none⟩ es = some s) :
    (∀ a ∈ s.world.acts, a.Warned s.world.recorded) ∧ s.world.KeepsDates := by
  have hholds : s.Holds True :=
    exec_invariant_along step (fun _ _ _ h hstep hcareful => holds_step h hstep fun _ => hcareful)
      (hstart.holds True) hcareful hs
  exact ⟨hholds.good.sound.warned, (hholds.good.steady trivial).dates⟩

/-! ## A date that is lost -/

def newPlatform : World := ⟨0, ⟨true, 30, false, 90, 20⟩, [], fun _ _ => none, [], [], [], .start⟩

theorem newPlatform_start : newPlatform.Start where
  nodup := List.nodup_nil
  since_le _ _ _ h := by cases h
  notices _ _ := rfl
  told := rfl
  recorded := rfl
  acts := rfl
  knows := rfl

def goesWell (reached : ℕ) : Event := .answer 0 ⟨none, none, none, 90, .done, reached, true⟩

def days (n : ℕ) : ℕ := n * (24 * 60 * 60 * 1000)

def suspended : List Event :=
  [.change 0 (.create "t1" "Shop" "active" false), .change 0 (.stamp "t1" .suspended)]

def tellingSweep (reached : ℕ) : List Event := .sweep true :: List.replicate 13 (goesWell reached)

/-- The tenant is told on the tenth day and archived after the thirtieth. -/
def warnedRun : List Event :=
  suspended ++ .change (days 10) .pass :: tellingSweep 1 ++
    .change (days 21) .pass :: .sweep true :: List.replicate 8 (goesWell 1)

def reachesSomebody (s : State) : Bool :=
  match s.sweep with
  | some (.call (.writeNotice _ _ _ reached) _) => 0 < reached
  | _ => true

theorem careful_goesWell (s s' : State) {reached : ℕ} (h : reachesSomebody s = true) :
    Careful s (goesWell reached) s' := by
  unfold reachesSomebody at h
  unfold Careful goesWell
  split
  · next hevent hsweep =>
    cases hevent
    rw [hsweep] at h
    unfold World.LosesNoDate
    split
    · exact fun _ _ => rfl
    · have hmany := of_decide_eq_true h
      exact ⟨fun _ => ⟨rfl, rfl⟩, fun hnone => absurd hnone (Nat.ne_of_gt hmany)⟩
    · trivial
  · next hevent => cases hevent
  · trivial

theorem shop_archived_when_told :
    ∃ s, exec step ⟨newPlatform, none⟩ warnedRun = some s ∧ s.world.acts.length = 1 ∧
      s.world.told.length = 1 ∧ (∀ a ∈ s.world.acts, a.Warned s.world.recorded) ∧
      s.world.KeepsDates := by
  have hlengths : (exec step ⟨newPlatform, none⟩ warnedRun).map
      (fun s => (s.world.acts.length, s.world.told.length)) = some (1, 1) := by rfl
  obtain ⟨s, hs, hlengths⟩ := Option.map_eq_some_iff.mp hlengths
  rw [Prod.mk.injEq] at hlengths
  have hreaches : Along step (fun s _ _ => reachesSomebody s = true) ⟨newPlatform, none⟩ warnedRun := by
    decide +kernel
  have hcareful : Along step Careful ⟨newPlatform, none⟩ warnedRun := by
    refine along_mono step (fun s e s' h => h.1 h.2) (along_and step (P := fun s e s' =>
      reachesSomebody s = true → Careful s e s') (along_of_forall step ?_ _) hreaches)
    intro e he s s'
    simp only [warnedRun, suspended, tellingSweep, List.cons_append, List.nil_append, List.mem_cons,
      List.mem_append, List.mem_replicate] at he
    rcases he with rfl | rfl | rfl | rfl | ⟨-, rfl⟩ | rfl | rfl | ⟨-, rfl⟩
    · exact fun _ => trivial
    · exact fun _ => trivial
    · exact fun _ => trivial
    · exact fun _ => trivial
    · exact careful_goesWell s s'
    · exact fun _ => trivial
    · exact fun _ => trivial
    · exact careful_goesWell s s'
  exact ⟨s, hs, hlengths.1, hlengths.2, automation_keeps_dates newPlatform_start warnedRun hcareful hs⟩

/-- The limit is raised, a message reaches nobody, and the limit is lowered. -/
def forgettingRun : List Event :=
  suspended ++ .change (days 10) .pass :: tellingSweep 1 ++
    .change (days 10) (.saveSettings ⟨true, 40, false, 90, 20⟩) :: tellingSweep 0 ++
    .change (days 1) (.saveSettings ⟨true, 5, false, 90, 1⟩) :: tellingSweep 1

/-- The tenant was told the thirtieth day, and is told the twenty-second. -/
theorem announced_date_moves_earlier :
    ¬ ∀ (w : World) (es : List Event) (s : State), w.Start → exec step ⟨w, none⟩ es = some s →
      (∀ a ∈ s.world.acts, a.Warned s.world.recorded) ∧ s.world.KeepsDates := by
  intro h
  have hrun : (exec step ⟨newPlatform, none⟩ forgettingRun).map (fun s => s.world.told) =
      some [⟨"t1", .archive, some 2, days 10 + 11, days 30 + 4, true⟩,
        ⟨"t1", .archive, some 2, days 20 + 25, days 40 + 18, false⟩,
        ⟨"t1", .archive, some 2, days 21 + 39, days 22 + 32, true⟩] := by rfl
  obtain ⟨s, hs, htold⟩ := Option.map_eq_some_iff.mp hrun
  have hdates := (h newPlatform forgettingRun s newPlatform_start hs).2.announced
  rw [htold, List.pairwise_cons] at hdates
  have hlast := hdates.1 _ (List.mem_cons_of_mem _ List.mem_cons_self) ⟨rfl, rfl, rfl, rfl, rfl, rfl⟩
  revert hlast
  decide

end Insula.TenantAutomation
