import Insula.Transition
import Insula.SchedulerLease

/-!
# Interleaved lease statements of many holders

Each statement of `shared/scheduler-lease.ts` is atomic and runs at a database time that does not
go back. A row a holder has claimed stays its own until its expiry passes or it is given up by that
holder itself, whatever the others issue in between.
-/

namespace Insula.LeaseStatements

open Transition SchedulerLease

inductive Statement
  | claim (job holder : String) (ttlMs : ℚ) (extendOnly : Bool)
  | release (job holder : String)
  | releaseAll (holder : String) (keep : List String)

structure Issued where
  now : ℤ
  statement : Statement

structure State where
  table : LeaseTable
  clock : ℤ

def run (table : LeaseTable) (now : ℤ) : Statement → LeaseTable
  | .claim job holder ttlMs extendOnly =>
    (claimSchedulerLease table job ttlMs holder extendOnly now).1
  | .release job holder => releaseSchedulerLease table job holder
  | .releaseAll holder keep => releaseAllSchedulerLeases table holder keep

def step (s : State) (e : Issued) : Option State :=
  if e.now < s.clock then none else some ⟨run s.table e.now e.statement, e.now⟩

/-- The statement is a claim of `job` by `holder`, and it succeeds. -/
def ClaimedBy (holder job : String) (s : State) (e : Issued) : Prop :=
  ∃ ttlMs extendOnly, e.statement = .claim job holder ttlMs extendOnly ∧
    (claimSchedulerLease s.table job ttlMs holder extendOnly e.now).2 = true

/-- The statement gives up leases in `holder`'s name, that of `job` among them. -/
def ReleaseOf (holder job : String) : Statement → Prop
  | .claim .. => False
  | .release job' holder' => job' = job ∧ holder' = holder
  | .releaseAll holder' keep => holder' = holder ∧ job ∉ keep

def ReleasedBy (holder job : String) (s : State) (e : Issued) : Prop :=
  ReleaseOf holder job e.statement ∧ HeldBy holder (s.table job)

variable {s s' : State} {e : Issued} {A job : String}

theorem step_eq_some (h : step s e = some s') :
    s.clock ≤ e.now ∧ s' = ⟨run s.table e.now e.statement, e.now⟩ := by
  unfold step at h
  split_ifs at h with hlt
  exact ⟨not_lt.mp hlt, (Option.some.inj h).symm⟩

theorem run_release_other {B : String} (hne : B ≠ A) {table : LeaseTable} {now : ℤ}
    {st : Statement} (hst : ReleaseOf B job st) (h : HeldBy A (table job)) :
    run table now st job = table job := by
  cases st with
  | claim => exact hst.elim
  | release job' holder' =>
    obtain ⟨rfl, rfl⟩ := hst
    rw [run, releaseSchedulerLease, Function.update_self]
    exact releaseRow_other hne h
  | releaseAll holder' keep =>
    obtain ⟨rfl, hk⟩ := hst
    rw [run, releaseAllSchedulerLeases, if_neg hk]
    exact releaseRow_other hne h

/-- A statement that neither claims `job` nor releases it leaves its row alone. -/
theorem run_unrelated (table : LeaseTable) (now : ℤ) {st : Statement}
    (hclaim : ∀ holder ttlMs extendOnly, st ≠ .claim job holder ttlMs extendOnly)
    (hrelease : ∀ holder, ¬ ReleaseOf holder job st) : run table now st job = table job := by
  cases st with
  | claim job' holder ttlMs extendOnly =>
    have hjob : job ≠ job' := by
      rintro rfl
      exact hclaim holder ttlMs extendOnly rfl
    exact claimSchedulerLease_fst_of_ne hjob ..
  | release job' holder =>
    have hjob : job ≠ job' := by
      rintro rfl
      exact hrelease holder ⟨rfl, rfl⟩
    rw [run, releaseSchedulerLease, Function.update_of_ne hjob]
  | releaseAll holder keep =>
    have hk : job ∈ keep := by
      by_contra hk
      exact hrelease holder ⟨rfl, hk⟩
    rw [run, releaseAllSchedulerLeases, if_pos hk]

/-- What is true of `A`'s row from its latest successful claim on: it is as the claim left it, or
its expiry has passed. -/
def HeldOrPassed (A job : String) (u : Timestamp) (s : State) : Prop :=
  HeldUntil A u (s.table job) ∨ u.before s.clock = true

theorem heldOrPassed_step {u : Timestamp} (hI : HeldOrPassed A job u s) (h : step s e = some s')
    (hq : ¬ ClaimedBy A job s e ∧ ¬ ReleasedBy A job s e) : HeldOrPassed A job u s' := by
  obtain ⟨hclock, rfl⟩ := step_eq_some h
  rcases hI with hheld | hpassed
  swap
  · exact Or.inr (Timestamp.before_mono hclock hpassed)
  by_cases hrel : ∃ B, ReleaseOf B job e.statement
  · obtain ⟨B, hB⟩ := hrel
    have hne : B ≠ A := by
      rintro rfl
      exact hq.2 ⟨hB, hheld.heldBy⟩
    left
    exact (run_release_other hne hB hheld.heldBy).trans hheld
  by_cases hcl : ∃ B ttlMs extendOnly, e.statement = .claim job B ttlMs extendOnly
  · obtain ⟨B, ttlMs, extendOnly, he⟩ := hcl
    have hrow : s.table job = some (leaseValue A u) := hheld
    have hne : B ≠ A := by
      rintro rfl
      refine hq.1 ⟨ttlMs, extendOnly, he, ?_⟩
      rw [claimSchedulerLease_snd]
      exact claimRow_own hheld.heldBy ..
    cases hb : u.before e.now with
    | true => exact Or.inr hb
    | false =>
      left
      have hfail : (claimRow B ttlMs extendOnly e.now (s.table job)).2 = false := by
        rw [hrow, claimRow_other hne, hb]
      change (run s.table e.now e.statement) job = _
      rw [he, run, claimSchedulerLease_fst_self]
      exact (claimRow_failure hfail).trans hheld
  · left
    have hrow := run_unrelated s.table e.now
      (fun B ttlMs extendOnly he => hcl ⟨B, ttlMs, extendOnly, he⟩)
      (fun B hB => hrel ⟨B, hB⟩)
    exact hrow.trans hheld

/-- The expiry a successful claim leaves: its own, or with `extendOnly` the longer one it found. -/
theorem claim_leaves_expiry {ttlMs : ℚ} {extendOnly : Bool} (h : step s e = some s')
    (he : e.statement = .claim job A ttlMs extendOnly)
    (hok : (claimSchedulerLease s.table job ttlMs A extendOnly e.now).2 = true) :
    ∃ u, HeldUntil A u (s'.table job) ∧ (u = .at (expiry ttlMs e.now) ∨
        (extendOnly = true ∧ HeldUntil A u (s.table job) ∧ u.after (expiry ttlMs e.now) = true)) := by
  obtain ⟨-, rfl⟩ := step_eq_some h
  change ∃ u, HeldUntil A u (run s.table e.now e.statement job) ∧ _
  rw [he, run, claimSchedulerLease_fst_self]
  exact claimRow_expiry hok

/-- Safety of one lease row under every interleaving, from any table a run may have reached. -/
theorem lease_row_safety (A job : String) (s : State) :
    (∀ e s₁, step s e = some s₁ → ∀ ttlMs extendOnly,
      e.statement = .claim job A ttlMs extendOnly → ClaimedBy A job s e →
      ∃ u, HeldUntil A u (s₁.table job) ∧ (extendOnly = false → u = .at (expiry ttlMs e.now)) ∧
        ∀ mid s₂, exec step s₁ mid = some s₂ →
          Along step (fun s e _ => ¬ ClaimedBy A job s e ∧ ¬ ReleasedBy A job s e) s₁ mid →
          ∀ B, B ≠ A → ∀ e' s₃, step s₂ e' = some s₃ → u.after e'.now = true →
            ¬ ClaimedBy B job s₂ e') ∧
    (∀ u, HeldUntil A u (s.table job) → ∀ now ttlMs s₁,
      step s ⟨now, .claim job A ttlMs true⟩ = some s₁ →
      ∃ u', HeldUntil A u' (s₁.table job) ∧ u.le u') ∧
    (∀ B, B ≠ A → HeldBy A (s.table job) → ∀ e s₁, step s e = some s₁ →
      ReleaseOf B job e.statement → s₁.table job = s.table job) := by
  refine ⟨?_, ?_, ?_⟩
  · intro e s₁ h ttlMs extendOnly he hclaimed
    obtain ⟨ttlMs', extendOnly', he', hok⟩ := hclaimed
    rw [he] at he'
    cases he'
    obtain ⟨u, hheld, hu⟩ := claim_leaves_expiry h he hok
    refine ⟨u, hheld, ?_, ?_⟩
    · intro hord
      rcases hu with hu | ⟨hext, -⟩
      · exact hu
      · rw [hord] at hext
        cases hext
    · intro mid s₂ hmid hquiet B hne e' s₃ h' hafter
      have hI : HeldOrPassed A job u s₂ :=
        exec_invariant_along step (fun _ _ _ => heldOrPassed_step) (Or.inl hheld) hquiet hmid
      have hnb : u.before e'.now = false := Timestamp.before_eq_false_of_after hafter
      obtain ⟨hclock, -⟩ := step_eq_some h'
      rintro ⟨ttlMs₂, extendOnly₂, -, hok₂⟩
      rcases hI with hrow | hpassed
      · change s₂.table job = some (leaseValue A u) at hrow
        rw [claimSchedulerLease_snd, hrow, claimRow_other hne, hnb] at hok₂
        cases hok₂
      · rw [Timestamp.before_mono hclock hpassed] at hnb
        cases hnb
  · intro u hu now ttlMs s₁ h
    obtain ⟨-, rfl⟩ := step_eq_some h
    change s.table job = some (leaseValue A u) at hu
    simp only [run, claimSchedulerLease_fst_self, hu]
    exact claimRow_extendOnly
  · intro B hne hheld e s₁ h hrel
    obtain ⟨-, rfl⟩ := step_eq_some h
    exact run_release_other hne hrel hheld

/-- One pod claims a free lease for a minute; another is refused a second later. -/
theorem lease_row_safety_two_pods :
    ∃ s₁, step ⟨fun _ => none, 0⟩ ⟨0, .claim "restic-retention" "pod-a" 60000 false⟩ = some s₁ ∧
      ¬ ClaimedBy "pod-b" "restic-retention" s₁
        ⟨1000000, .claim "restic-retention" "pod-b" 60000 false⟩ := by
  refine ⟨_, rfl, ?_⟩
  obtain ⟨u, -, hu, hsafe⟩ := (lease_row_safety "pod-a" "restic-retention" ⟨fun _ => none, 0⟩).1
    ⟨0, .claim "restic-retention" "pod-a" 60000 false⟩ _ rfl 60000 false rfl
    ⟨60000, false, rfl, by rfl⟩
  apply hsafe [] _ rfl trivial "pod-b" (by decide) _ _ rfl
  rw [hu rfl]
  decide +kernel

end Insula.LeaseStatements
