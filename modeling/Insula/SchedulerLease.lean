import Insula.Javascript
import Insula.SqlLogic

/-!
# The lease rows and the statements that write them

`shared/scheduler-lease.ts` keeps one row per job in `platform_settings`. A row's text is kept
here as PostgreSQL reads it back: not valid `jsonb`, or a `holder` and an `until` field that are
each absent or present, the latter valid or not as a `timestamptz`. The key prefix is dropped: a
`LeaseTable` holds the lease rows only, by job name, since no statement here reaches another row.
Times are microseconds of the database's `now()`.
-/

namespace Insula.SchedulerLease

open Javascript

/-- A `timestamptz`; `infinity` and `-infinity` are valid inputs of the type. -/
inductive Timestamp
  | negInfinity
  | at (t : ℤ)
  | infinity
  deriving DecidableEq, Repr

namespace Timestamp

def before : Timestamp → ℤ → Bool
  | negInfinity, _ => true
  | .at t, now => decide (t < now)
  | infinity, _ => false

def after : Timestamp → ℤ → Bool
  | negInfinity, _ => false
  | .at t, now => decide (now < t)
  | infinity, _ => true

/-- The order of the type: `-infinity`, the finite instants, `infinity`. -/
def le : Timestamp → Timestamp → Prop
  | negInfinity, _ => True
  | .at _, negInfinity => False
  | .at t, .at u => t ≤ u
  | .at _, infinity => True
  | infinity, u => u = infinity

theorem le_refl (u : Timestamp) : u.le u := by
  cases u <;> simp [le]

variable {u : Timestamp}

theorem le_at_of_not_after {now : ℤ} (h : u.after now = false) : u.le (.at now) := by
  cases u <;> simp_all [after, le]

theorem before_mono {s t : ℤ} (hst : s ≤ t) (h : u.before s = true) : u.before t = true := by
  cases u with
  | negInfinity => rfl
  | «at» x =>
    simp only [before, decide_eq_true_eq] at h ⊢
    omega
  | infinity => exact h

theorem before_eq_false_of_after {now : ℤ} (h : u.after now = true) : u.before now = false := by
  cases u with
  | negInfinity => exact h.symm
  | «at» x =>
    simp only [after, before, decide_eq_true_eq, decide_eq_false_iff_not] at h ⊢
    omega
  | infinity => rfl

end Timestamp

/-- The text of an `until` field, as `pg_input_is_valid(…, 'timestamptz')` judges it. -/
inductive UntilText
  | invalid (text : String)
  | valid (u : Timestamp)
  deriving DecidableEq, Repr

/-- The text of a `setting_value`, as `pg_input_is_valid(…, 'jsonb')` judges it. -/
inductive SettingValue
  | notJson (text : String)
  | json (holder : Option String) (until_ : Option UntilText)
  deriving DecidableEq, Repr

abbrev LeaseTable := String → Option SettingValue

def ttl (ttlMs : ℚ) : ℤ := max 1000 (mathRound ttlMs)

def expiry (ttlMs : ℚ) (now : ℤ) : ℤ := now + ttl ttlMs * 1000

def leaseValue (holder : String) (u : Timestamp) : SettingValue :=
  .json (some holder) (some (.valid u))

open Sql

def holderIs (holder : String) : SettingValue → Tri
  | .notJson _ => none
  | .json h _ => Sql.compare (· = ·) h (some holder)

/-- `CASE WHEN pg_input_is_valid(until, 'timestamptz') THEN until < now() END`: NULL when `until` is
absent or no timestamp. -/
def untilPassed (now : ℤ) : Option UntilText → Tri
  | some (.valid t) => some (t.before now)
  | _ => none

def claimable (holder : String) (now : ℤ) : SettingValue → Tri
  | .notJson _ => some true
  | .json h u =>
    Sql.or (holderIs holder (.json h u)) (some (coalesce (untilPassed now u) true))

/-- The CASE of the conflict update's SET: with `extendOnly`, a longer expiry of the same holder is
kept as it is. -/
def conflictValue (holder : String) (ttlMs : ℚ) (extendOnly : Bool) (now : ℤ) :
    SettingValue → SettingValue
  | .json (some h) (some (.valid u)) =>
    if extendOnly = true ∧ h = holder ∧ u.after (expiry ttlMs now) = true then
      .json (some h) (some (.valid u))
    else leaseValue holder (.at (expiry ttlMs now))
  | _ => leaseValue holder (.at (expiry ttlMs now))

def claimRow (holder : String) (ttlMs : ℚ) (extendOnly : Bool) (now : ℤ) :
    Option SettingValue → Option SettingValue × Bool
  | none => (some (leaseValue holder (.at (expiry ttlMs now))), true)
  | some v =>
    if Matches (claimable holder now v) then
      (some (conflictValue holder ttlMs extendOnly now v), true)
    else (some v, false)

def claimSchedulerLease (table : LeaseTable) (job : String) (ttlMs : ℚ) (holder : String)
    (extendOnly : Bool) (now : ℤ) : LeaseTable × Bool :=
  let r := claimRow holder ttlMs extendOnly now (table job)
  (Function.update table job r.1, r.2)

@[simp] theorem claimSchedulerLease_fst_self (table : LeaseTable) (job : String) (ttlMs : ℚ)
    (holder : String) (extendOnly : Bool) (now : ℤ) :
    (claimSchedulerLease table job ttlMs holder extendOnly now).1 job =
      (claimRow holder ttlMs extendOnly now (table job)).1 :=
  Function.update_self ..

theorem claimSchedulerLease_fst_of_ne {job job' : String} (h : job ≠ job') (table : LeaseTable)
    (ttlMs : ℚ) (holder : String) (extendOnly : Bool) (now : ℤ) :
    (claimSchedulerLease table job' ttlMs holder extendOnly now).1 job = table job :=
  Function.update_of_ne h ..

@[simp] theorem claimSchedulerLease_snd (table : LeaseTable) (job : String) (ttlMs : ℚ)
    (holder : String) (extendOnly : Bool) (now : ℤ) :
    (claimSchedulerLease table job ttlMs holder extendOnly now).2 =
      (claimRow holder ttlMs extendOnly now (table job)).2 := rfl

def releaseRow (holder : String) : Option SettingValue → Option SettingValue
  | none => none
  | some v => if Matches (holderIs holder v) then none else some v

def releaseSchedulerLease (table : LeaseTable) (job holder : String) : LeaseTable :=
  Function.update table job (releaseRow holder (table job))

def releaseAllSchedulerLeases (table : LeaseTable) (holder : String) (keep : List String) :
    LeaseTable :=
  fun job => if job ∈ keep then table job else releaseRow holder (table job)

/-- The row is written in this holder's name and its expiry is `u`. -/
def HeldUntil (holder : String) (u : Timestamp) (row : Option SettingValue) : Prop :=
  row = some (leaseValue holder u)

/-- The row is written in this holder's name, whatever its expiry reads as. -/
def HeldBy (holder : String) (row : Option SettingValue) : Prop :=
  ∃ u, row = some (.json (some holder) u)

variable {holder A B : String} {u : Timestamp} {row : Option SettingValue} {now : ℤ} {ttlMs : ℚ}
  {extendOnly : Bool}

theorem HeldUntil.heldBy (h : HeldUntil holder u row) : HeldBy holder row := ⟨_, h⟩

theorem matches_holderIs {v : SettingValue} :
    Matches (holderIs holder v) ↔ ∃ u, v = .json (some holder) u := by
  cases v with
  | notJson text => simp [holderIs]
  | json h u =>
    rw [holderIs, matches_compare]
    constructor
    · rintro ⟨a, b, rfl, hb, rfl⟩
      cases hb
      exact ⟨u, rfl⟩
    · rintro ⟨u', hu'⟩
      cases hu'
      exact ⟨holder, holder, rfl, rfl, rfl⟩

/-- Whose row a claim may write: its own, or one that is expired. -/
theorem matches_claimable_leaseValue :
    Matches (claimable B now (leaseValue A u)) ↔ A = B ∨ u.before now = true := by
  rw [leaseValue, claimable, matches_or, matches_holderIs]
  simp only [untilPassed, coalesce, Option.getD_some, matches_some, SettingValue.json.injEq,
    Option.some.injEq]
  constructor
  · rintro (⟨_, h, _⟩ | h)
    · exact Or.inl h
    · exact Or.inr h
  · rintro (rfl | h)
    · exact Or.inl ⟨_, rfl, rfl⟩
    · exact Or.inr h

theorem claimable_own (holder : String) (now : ℤ) (u : Option UntilText) :
    Matches (claimable holder now (.json (some holder) u)) := by
  rw [claimable, matches_or, matches_holderIs]
  exact Or.inl ⟨u, rfl⟩

theorem conflictValue_cases (holder : String) (ttlMs : ℚ) (extendOnly : Bool) (now : ℤ)
    (v : SettingValue) :
    conflictValue holder ttlMs extendOnly now v = leaseValue holder (.at (expiry ttlMs now)) ∨
      ∃ u, v = leaseValue holder u ∧ extendOnly = true ∧
        conflictValue holder ttlMs extendOnly now v = leaseValue holder u ∧
          u.after (expiry ttlMs now) = true := by
  unfold conflictValue
  split
  · split_ifs with h
    · obtain ⟨hext, rfl, hafter⟩ := h
      exact Or.inr ⟨_, rfl, hext, rfl, hafter⟩
    · exact Or.inl rfl
  · exact Or.inl rfl

theorem claimRow_some (holder : String) (ttlMs : ℚ) (extendOnly : Bool) (now : ℤ)
    (v : SettingValue) : claimRow holder ttlMs extendOnly now (some v) =
      if Matches (claimable holder now v) then
        (some (conflictValue holder ttlMs extendOnly now v), true) else (some v, false) := rfl

/-- A claim that succeeds leaves the row in the claimer's name with a readable expiry: the one it
asked for, or with `extendOnly` a longer one that was its own already. -/
theorem claimRow_expiry (h : (claimRow holder ttlMs extendOnly now row).2 = true) :
    ∃ u, HeldUntil holder u (claimRow holder ttlMs extendOnly now row).1 ∧
      (u = .at (expiry ttlMs now) ∨
        (extendOnly = true ∧ HeldUntil holder u row ∧ u.after (expiry ttlMs now) = true)) := by
  cases row with
  | none => exact ⟨_, rfl, Or.inl rfl⟩
  | some v =>
    rw [claimRow_some] at h ⊢
    split_ifs at h ⊢ with hm
    obtain hu | ⟨u, rfl, hext, hu⟩ := conflictValue_cases holder ttlMs extendOnly now v
    · exact ⟨_, congrArg some hu, Or.inl rfl⟩
    · exact ⟨u, congrArg some hu.1, Or.inr ⟨hext, rfl, hu.2⟩⟩

/-- A holder's claim of its own row always succeeds. -/
theorem claimRow_own (h : HeldBy A row) (ttlMs : ℚ) (extendOnly : Bool) (now : ℤ) :
    (claimRow A ttlMs extendOnly now row).2 = true := by
  obtain ⟨u, rfl⟩ := h
  rw [claimRow_some, if_pos (claimable_own A now u)]

theorem claimRow_failure (h : (claimRow holder ttlMs extendOnly now row).2 = false) :
    (claimRow holder ttlMs extendOnly now row).1 = row := by
  cases row with
  | none => cases h
  | some v =>
    rw [claimRow_some] at h ⊢
    split_ifs at h ⊢ with hm
    rfl

/-- The conditional upsert as a compare-and-set: over another holder's row it succeeds exactly when
that row's expiry has passed. -/
theorem claimRow_other (hne : B ≠ A) :
    (claimRow B ttlMs extendOnly now (some (leaseValue A u))).2 = u.before now := by
  have hm : Matches (claimable B now (leaseValue A u)) ↔ u.before now = true := by
    rw [matches_claimable_leaseValue]
    simp [hne.symm]
  rw [claimRow_some]
  by_cases hu : u.before now = true
  · rw [if_pos (hm.mpr hu), hu]
  · rw [if_neg (fun h => hu (hm.mp h))]
    simpa using hu

/-- An `extendOnly` claim over the claimer's own row never moves its expiry back. -/
theorem claimRow_extendOnly :
    ∃ u', HeldUntil A u' (claimRow A ttlMs true now (some (leaseValue A u))).1 ∧ u.le u' := by
  have hown : Matches (claimable A now (leaseValue A u)) := claimable_own A now _
  rw [claimRow_some, if_pos hown]
  by_cases hafter : u.after (expiry ttlMs now) = true
  · exact ⟨u, by simp [HeldUntil, leaseValue, conflictValue, hafter], u.le_refl⟩
  · have hle : u.le (.at (expiry ttlMs now)) :=
      Timestamp.le_at_of_not_after (by simpa using hafter)
    exact ⟨_, by simp [HeldUntil, leaseValue, conflictValue, hafter], hle⟩

theorem releaseRow_other (hne : B ≠ A) (h : HeldBy A row) : releaseRow B row = row := by
  obtain ⟨u, rfl⟩ := h
  have hn : ¬ Matches (holderIs B (.json (some A) u)) := by
    rw [matches_holderIs]
    rintro ⟨u', hu'⟩
    cases hu'
    exact hne rfl
  simp [releaseRow, hn]

end Insula.SchedulerLease
