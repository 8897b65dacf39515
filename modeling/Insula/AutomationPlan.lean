import Mathlib.Data.Int.Order.Basic
import Mathlib.Data.Option.Basic

/-!
# The plan of the tenant automation

A tenant that was suspended long enough is archived, and one that was archived long enough is
deleted. With a notice period it is told a date first. `tenantAutomationPlan` decides what the sweep
does with one tenant at one time.
-/

namespace Insula.TenantAutomation

def dayMs : ℤ := 24 * 60 * 60 * 1000

theorem dayMs_pos : 0 < dayMs := by decide

inductive Step
  | archive
  | delete
deriving DecidableEq

structure TenantAutomationSettings where
  autoArchiveEnabled : Bool
  autoArchiveAfterDays : ℕ
  autoDeleteEnabled : Bool
  autoDeleteAfterDays : ℕ
  noticeDays : ℕ
deriving DecidableEq

namespace TenantAutomationSettings

variable (settings : TenantAutomationSettings)

def daysOf : Step → ℕ
  | .archive => settings.autoArchiveAfterDays
  | .delete => settings.autoDeleteAfterDays

def isOn : Step → Bool
  | .archive => settings.autoArchiveEnabled
  | .delete => settings.autoDeleteEnabled

end TenantAutomationSettings

structure Notice where
  toldAt : ℤ
  date : ℤ
  reached : Bool
deriving DecidableEq

/-- The notice is of the suspension since then, reached somebody, and is not before the limit; a
second is not counted. -/
def Notice.Counts (n : Notice) (since limitAt : ℤ) : Prop :=
  n.reached = true ∧ since ≤ n.toldAt ∧ limitAt - 1000 ≤ n.date

instance (n : Notice) (since limitAt : ℤ) : Decidable (n.Counts since limitAt) := by
  unfold Notice.Counts
  infer_instance

structure InLineTenant where
  tenantId : String
  name : String
  since : Option ℤ
  notice : Option Notice
deriving DecidableEq

inductive TenantAutomationPlan
  | never
  | due
  | tell (actAt : ℤ)
  | later (actAt : ℤ) (told : Bool) (tellAt : Option ℤ)
deriving DecidableEq

def tenantAutomationDueAt (since : ℤ) (afterDays : ℕ) : ℤ := since + afterDays * dayMs

def tenantAutomationPlan (candidate : InLineTenant) (afterDays noticeDays : ℕ) (now : ℤ) :
    TenantAutomationPlan :=
  match candidate.since with
  | none => .never
  | some since =>
    let limitAt := tenantAutomationDueAt since afterDays
    match candidate.notice.filter (·.Counts since limitAt) with
    | some notice => if notice.date ≤ now then .due else .later notice.date true none
    | none =>
      if noticeDays = 0 then
        if limitAt < now then .due else .later limitAt false none
      else
        let tellAt := limitAt - noticeDays * dayMs
        if tellAt ≤ now then .tell (now + noticeDays * dayMs) else .later limitAt false (some tellAt)

/-- How long the archive of a tenant is kept; `none` for no end date. -/
def tenantAutomationArchiveRetentionDays (settings : TenantAutomationSettings)
    (archiveRetentionDays : ℕ) : Option ℕ :=
  if settings.autoDeleteEnabled then
    some (max archiveRetentionDays (settings.autoDeleteAfterDays + settings.noticeDays))
  else none

section Plan

variable {candidate : InLineTenant} {afterDays noticeDays : ℕ} {now actAt : ℤ}

/-- A tenant that is due was told a date which has come, or nobody is told and the limit has
passed. -/
theorem plan_eq_due (h : tenantAutomationPlan candidate afterDays noticeDays now = .due) :
    ∃ since, candidate.since = some since ∧
      ((∃ n, candidate.notice = some n ∧ n.Counts since (tenantAutomationDueAt since afterDays) ∧
          n.date ≤ now) ∨
        ((∀ n, candidate.notice = some n → ¬ n.Counts since (tenantAutomationDueAt since afterDays)) ∧
          noticeDays = 0 ∧ tenantAutomationDueAt since afterDays < now)) := by
  unfold tenantAutomationPlan at h
  split at h
  · cases h
  · next since hsince =>
    refine ⟨since, hsince, ?_⟩
    dsimp only at h
    split at h
    · next n hn =>
      rw [Option.filter_eq_some_iff, decide_eq_true_eq] at hn
      split at h
      · next hdate => exact .inl ⟨n, hn.1, hn.2, hdate⟩
      · cases h
    · next hnone =>
      split at h
      · next hdays =>
        split at h
        · next hlimit =>
          refine .inr ⟨?_, hdays, hlimit⟩
          intro n hn
          simpa [hn] using hnone
        · cases h
      · split at h <;> cases h

theorem plan_eq_tell (h : tenantAutomationPlan candidate afterDays noticeDays now = .tell actAt) :
    ∃ since, candidate.since = some since ∧
      (∀ n, candidate.notice = some n → ¬ n.Counts since (tenantAutomationDueAt since afterDays)) ∧
      tenantAutomationDueAt since afterDays ≤ actAt := by
  unfold tenantAutomationPlan at h
  split at h
  · cases h
  · next since hsince =>
    refine ⟨since, hsince, ?_⟩
    dsimp only at h
    split at h
    · split at h <;> cases h
    · next hnone =>
      split at h
      · split at h <;> cases h
      · split at h
        · next hdays htell =>
          cases h
          refine ⟨?_, by omega⟩
          intro n hn
          simpa [hn] using hnone
        · cases h

end Plan

end Insula.TenantAutomation
