import Insula.CronScheduler

/-!
# Cron jobs do not double-run

A claim keeps the other pollers off a run until it is recorded, as long as the run is shorter than
the stale-claim window. It does so only for pollers, and only for the run: a manual run takes no
claim and frees the row when it is recorded, and a poller that read the row before a run was
recorded may claim it afterwards.
-/

namespace Insula.CronJobs

open Transition Lookup

def Call.inProgress (call : Call) : Bool :=
  match call.phase with
  | .executing _ | .executed _ _ | .recording _ _ => true
  | _ => false

def Call.engaged (call : Call) : Bool :=
  call.inProgress || (call.claimedAt.isSome && decide (call.phase = .ready))

def claimWindow (job : CronJobRow) : ℤ := runTimeoutMs job + claimGraceMs

/-- Every run is shorter than the stale-claim window, which the pollers measure from `updatedAt`: a
claimed run is recorded before the window is over, and a claim or a correction takes effect within
the window of the instant it was built at. A run that dies is not recorded at all. -/
def Prompt (s : State) : Event → State → Prop
  | .wait t, _ => ∀ call ∈ s.calls, call.engaged = true → call.claimedAt.isSome = true →
      t < s.job.updatedAt + claimWindow s.job
  | .act _ (.claim builtAt), _ | .act _ (.check _ builtAt), _ =>
      s.now < builtAt + claimWindow s.job
  | .act i .die, _ => ∀ call ∈ s.calls[i]?, call.engaged = false
  | _, _ => True

instance decidablePrompt (s : State) : ∀ (e : Event) (s' : State), Decidable (Prompt s e s')
  | .wait t, _ => inferInstanceAs (Decidable (∀ call ∈ s.calls, call.engaged = true →
      call.claimedAt.isSome = true → t < s.job.updatedAt + claimWindow s.job))
  | .act _ (.claim builtAt), _ | .act _ (.check _ builtAt), _ =>
      inferInstanceAs (Decidable (s.now < builtAt + claimWindow s.job))
  | .act i .die, _ => inferInstanceAs (Decidable (∀ call ∈ s.calls[i]?, call.engaged = false))
  | .poll _, _ | .runCronJobNow, _ | .act _ .select, _ | .act _ .start, _ |
    .act _ (.finish _), _ | .act _ .stamp, _ | .act _ (.record _), _ => isTrue trivial

def Call.wouldClaim (call : Call) (row : CronJobRow) (builtAt : ℤ) : Bool :=
  match call.phase, call.job with
  | .selected t, some job => (claimJob row (claimStaleBefore job t) builtAt).2
  | _, _ => false

def Call.recordsAt (call : Call) : Option ℤ :=
  match call.phase with
  | .recording _ recordedAt => some recordedAt
  | _ => none

/-- What the calls do not check: a manual run begins while no other run is in progress or about to
begin; a poller's claim goes through while no manual run is in progress and the row still has the
last run that the poller read; and its run is recorded at another instant than that last run. -/
def Considerate (s : State) : Event → State → Prop
  | .act i .start, _ => ∀ call ∈ s.calls[i]?, call.engaged = false → ∀ other ∈ s.calls,
      other.engaged = false
  | .act i (.claim builtAt), _ => ∀ call ∈ s.calls[i]?, call.wouldClaim s.job builtAt = true →
      (∀ other ∈ s.calls, other.claimedAt = none → other.inProgress = false) ∧
        ∀ job ∈ call.job, job.lastRunAt = s.job.lastRunAt
  | .act i (.record _), _ => ∀ call ∈ s.calls[i]?, call.claimedAt.isSome = true →
      ∀ job ∈ call.job, job.lastRunAt ≠ call.recordsAt
  | _, _ => True

instance decidableConsiderate (s : State) :
    ∀ (e : Event) (s' : State), Decidable (Considerate s e s')
  | .act i .start, _ => inferInstanceAs (Decidable (∀ call ∈ s.calls[i]?, call.engaged = false →
      ∀ other ∈ s.calls, other.engaged = false))
  | .act i (.claim builtAt), _ => inferInstanceAs (Decidable (∀ call ∈ s.calls[i]?,
      call.wouldClaim s.job builtAt = true →
        (∀ other ∈ s.calls, other.claimedAt = none → other.inProgress = false) ∧
          ∀ job ∈ call.job, job.lastRunAt = s.job.lastRunAt))
  | .act i (.record _), _ => inferInstanceAs (Decidable (∀ call ∈ s.calls[i]?,
      call.claimedAt.isSome = true → ∀ job ∈ call.job, job.lastRunAt ≠ call.recordsAt))
  | .wait _, _ | .poll _, _ | .runCronJobNow, _ | .act _ .select, _ | .act _ (.finish _), _ |
    .act _ .stamp, _ | .act _ (.check _ _), _ | .act _ .die, _ => isTrue trivial

/-- A run recorded after the one that a copy of the row had. -/
def Later (lastRunAt since : Option ℤ) : Prop :=
  ∃ r, lastRunAt = some r ∧ ∀ l, since = some l → l < r

/-- A claimed run that is under way holds the row as the claim left it, but for `updatedAt`. -/
structure HoldsRow (now : ℤ) (row job : CronJobRow) : Prop where
  running : row.lastRunStatus = some .running
  within : now < row.updatedAt + claimWindow row
  since : row.lastRunAt = job.lastRunAt

structure CallKept (now : ℤ) (row : CronJobRow) (call : Call) : Prop where
  copy : ∀ job, call.job = some job → job.type = row.type ∧ job.timeoutSeconds = row.timeoutSeconds
  polled : ∀ t tz, call.phase = .polled t tz → t ≤ now ∧ call.claimedAt = none
  selected : ∀ t, call.phase = .selected t → t ≤ now ∧ call.claimedAt = none
  recording : ∀ result r, call.phase = .recording result r →
    r ≤ now ∧ ∀ l, row.lastRunAt = some l → l ≤ r
  claimed : call.claimedAt.isSome = true → ∃ job, call.job = some job ∧
    (call.engaged = true → HoldsRow now row job) ∧
      (call.engaged = false → Later row.lastRunAt job.lastRunAt)

structure Exclusive (s : State) : Prop where
  past : ∀ l, s.job.lastRunAt = some l → l ≤ s.now
  calls : ∀ (i : ℕ) (call : Call), s.calls[i]? = some call → CallKept s.now s.job call
  one : ∀ (i j : ℕ) (call other : Call), s.calls[i]? = some call → s.calls[j]? = some other →
    call.engaged = true → other.engaged = true → i = j
  occurrence : ∀ (i j : ℕ) (call other : Call), s.calls[i]? = some call → s.calls[j]? = some other →
    call.claimedAt.isSome = true → other.claimedAt.isSome = true →
      call.job.map (·.lastRunAt) = other.job.map (·.lastRunAt) → i = j

variable {getNextRunTime : String → ℤ → String → ℤ} {s s' : State} {now now' t builtAt : ℤ} {i j : ℕ}
  {row row' job : CronJobRow} {call call' other : Call} {result : CronRunResult}

theorem claimWindow_congr (htype : job.type = row.type)
    (htimeout : job.timeoutSeconds = row.timeoutSeconds) : claimWindow job = claimWindow row := by
  unfold claimWindow runTimeoutMs
  rw [htype, htimeout]

theorem claimJob_of_holdsRow (h : HoldsRow now row job) {copy : CronJobRow}
    (hwindow : claimWindow copy = claimWindow row) (ht : t ≤ now) (builtAt : ℤ) :
    (claimJob row (claimStaleBefore copy t) builtAt).2 = false := by
  have hstale : ¬ row.updatedAt < claimStaleBefore copy t := by
    have hwithin := h.within
    unfold claimStaleBefore
    unfold claimWindow at hwindow hwithin
    omega
  have hnot : ¬ Sql.Matches (claimable row (claimStaleBefore copy t)) := by
    unfold claimable
    rw [Sql.matches_or, Sql.matches_or, Sql.matches_compare, Sql.matches_compare, h.running]
    simpa [Sql.isNull] using hstale
  unfold claimJob
  rw [if_neg hnot]

/-- A change of the row that leaves what the claims go by. -/
structure SameRun (now : ℤ) (row row' : CronJobRow) : Prop where
  type : row'.type = row.type
  timeoutSeconds : row'.timeoutSeconds = row.timeoutSeconds
  lastRunAt : row'.lastRunAt = row.lastRunAt
  lastRunStatus : row'.lastRunStatus = row.lastRunStatus
  updatedAt : row'.updatedAt = row.updatedAt ∨ now < row'.updatedAt + claimWindow row

theorem SameRun.refl (now : ℤ) (row : CronJobRow) : SameRun now row row :=
  ⟨rfl, rfl, rfl, rfl, Or.inl rfl⟩

theorem sameRun_markInterrupted (recordedAt : ℤ) (hbuilt : now < builtAt + claimWindow row) :
    SameRun now row (markInterrupted row recordedAt builtAt) := by
  unfold markInterrupted
  split_ifs
  · exact ⟨rfl, rfl, rfl, rfl, Or.inr hbuilt⟩
  · exact SameRun.refl now row

theorem HoldsRow.sameRun (h : HoldsRow now row job) (hrow : SameRun now row row') :
    HoldsRow now row' job := by
  refine ⟨hrow.lastRunStatus.trans h.running, ?_, hrow.lastRunAt.trans h.since⟩
  rw [claimWindow_congr hrow.type hrow.timeoutSeconds]
  rcases hrow.updatedAt with hup | hup
  · rw [hup]
    exact h.within
  · exact hup

theorem CallKept.sameRun (h : CallKept now row call) (hrow : SameRun now row row') :
    CallKept now row' call := by
  refine ⟨?_, h.polled, h.selected, ?_, ?_⟩
  · intro job hjob
    rw [hrow.type, hrow.timeoutSeconds]
    exact h.copy job hjob
  · intro result r hphase
    rw [hrow.lastRunAt]
    exact h.recording result r hphase
  · intro hc
    obtain ⟨job, hjob, hengaged, hlater⟩ := h.claimed hc
    refine ⟨job, hjob, fun he => (hengaged he).sameRun hrow, ?_⟩
    rw [hrow.lastRunAt]
    exact hlater

theorem CallKept.wait (h : CallKept now row call) (hnow : now ≤ now')
    (hprompt : call.engaged = true → call.claimedAt.isSome = true →
      now' < row.updatedAt + claimWindow row) :
    CallKept now' row call := by
  refine ⟨h.copy, ?_, ?_, ?_, ?_⟩
  · intro t tz hphase
    obtain ⟨ht, hclaimed⟩ := h.polled t tz hphase
    exact ⟨by omega, hclaimed⟩
  · intro t hphase
    obtain ⟨ht, hclaimed⟩ := h.selected t hphase
    exact ⟨by omega, hclaimed⟩
  · intro result r hphase
    obtain ⟨hr, hlast⟩ := h.recording result r hphase
    exact ⟨by omega, hlast⟩
  · intro hc
    obtain ⟨job, hjob, hengaged, hlater⟩ := h.claimed hc
    refine ⟨job, hjob, ?_, hlater⟩
    intro he
    exact ⟨(hengaged he).running, hprompt he hc, (hengaged he).since⟩

theorem exclusive_wait (h : Exclusive s) (ht : s.now ≤ t)
    (hprompt : Prompt s (.wait t) s') : Exclusive { s with now := t } := by
  refine ⟨?_, ?_, h.one, h.occurrence⟩
  · intro l hl
    have hpast := h.past l hl
    change l ≤ t
    omega
  · intro i call hi
    exact (h.calls i call hi).wait ht (hprompt call (List.mem_of_getElem? hi))

theorem exclusive_concat (h : Exclusive s) (hcall : CallKept s.now s.job call)
    (hclaimed : call.claimedAt = none) (hidle : call.inProgress = false) :
    Exclusive { s with calls := s.calls ++ [call] } := by
  have hengaged : call.engaged = false := by simp [Call.engaged, hclaimed, hidle]
  refine ⟨h.past, ?_, ?_, ?_⟩
  · intro i other hi
    rcases getElem?_concat_eq_some.mp hi with hi | ⟨-, rfl⟩
    · exact h.calls i other hi
    · exact hcall
  · intro i j a b hi hj ha hb
    rcases getElem?_concat_eq_some.mp hi with hi | ⟨-, rfl⟩
    · rcases getElem?_concat_eq_some.mp hj with hj | ⟨-, rfl⟩
      · exact h.one i j a b hi hj ha hb
      · rw [hengaged] at hb
        cases hb
    · rw [hengaged] at ha
      cases ha
  · intro i j a b hi hj ha hb
    rcases getElem?_concat_eq_some.mp hi with hi | ⟨-, rfl⟩
    · rcases getElem?_concat_eq_some.mp hj with hj | ⟨-, rfl⟩
      · exact h.occurrence i j a b hi hj ha hb
      · rw [hclaimed] at hb
        cases hb
    · rw [hclaimed] at ha
      cases ha

theorem exclusive_set (h : Exclusive s) (hpast : ∀ l, row'.lastRunAt = some l → l ≤ s.now)
    (hown : CallKept s.now row' call')
    (hothers : ∀ (j : ℕ) (other : Call), j ≠ i → s.calls[j]? = some other →
      CallKept s.now row' other)
    (hone : call'.engaged = true → ∀ (j : ℕ) (other : Call), j ≠ i → s.calls[j]? = some other →
      other.engaged = false)
    (hocc : call'.claimedAt.isSome = true → ∀ (j : ℕ) (other : Call), j ≠ i →
      s.calls[j]? = some other → other.claimedAt.isSome = true →
        call'.job.map (·.lastRunAt) ≠ other.job.map (·.lastRunAt)) :
    Exclusive { s with job := row', calls := s.calls.set i call' } := by
  refine ⟨hpast, ?_, ?_, ?_⟩
  · intro j other hj
    rcases getElem?_set_eq_some.mp hj with ⟨-, -, rfl⟩ | ⟨hij, hj⟩
    · exact hown
    · exact hothers j other (Ne.symm hij) hj
  · intro j k a b hj hk ha hb
    rcases getElem?_set_eq_some.mp hj with ⟨hij, -, rfl⟩ | ⟨hij, hj'⟩
    · rcases getElem?_set_eq_some.mp hk with ⟨hik, -, rfl⟩ | ⟨hik, hk'⟩
      · omega
      · have hnot := hone ha k b (Ne.symm hik) hk'
        rw [hb] at hnot
        cases hnot
    · rcases getElem?_set_eq_some.mp hk with ⟨hik, -, rfl⟩ | ⟨hik, hk'⟩
      · have hnot := hone hb j a (Ne.symm hij) hj'
        rw [ha] at hnot
        cases hnot
      · exact h.one j k a b hj' hk' ha hb
  · intro j k a b hj hk ha hb hsame
    rcases getElem?_set_eq_some.mp hj with ⟨hij, -, rfl⟩ | ⟨hij, hj'⟩
    · rcases getElem?_set_eq_some.mp hk with ⟨hik, -, rfl⟩ | ⟨hik, hk'⟩
      · omega
      · exact absurd hsame (hocc ha k b (Ne.symm hik) hk' hb)
    · rcases getElem?_set_eq_some.mp hk with ⟨hik, -, rfl⟩ | ⟨hik, hk'⟩
      · exact absurd hsame.symm (hocc hb j a (Ne.symm hij) hj' ha)
      · exact h.occurrence j k a b hj' hk' ha hb hsame

/-- A call that goes on without a claim or a record: whether it is engaged stays as it is, and a
stamp it takes is of this instant. -/
theorem exclusive_quiet (h : Exclusive s) (hi : s.calls[i]? = some call)
    (hrow : SameRun s.now s.job row') (hclaimed : call'.claimedAt = call.claimedAt)
    (hjob : call'.job = call.job) (hengaged : call'.engaged = call.engaged)
    (hpolled : ∀ t tz, call'.phase ≠ .polled t tz) (hselected : ∀ t, call'.phase ≠ .selected t)
    (hrecording : ∀ result r, call'.phase = .recording result r → r = s.now) :
    Exclusive { s with job := row', calls := s.calls.set i call' } := by
  have hkept := (h.calls i call hi).sameRun hrow
  have hpast : ∀ l, row'.lastRunAt = some l → l ≤ s.now := by
    intro l hl
    exact h.past l (hrow.lastRunAt ▸ hl)
  apply exclusive_set h hpast
  · refine ⟨?_, ?_, ?_, ?_, ?_⟩
    · rw [hjob]
      exact hkept.copy
    · intro t tz hphase
      exact absurd hphase (hpolled t tz)
    · intro t hphase
      exact absurd hphase (hselected t)
    · intro result r hphase
      obtain rfl := hrecording result r hphase
      exact ⟨le_refl _, hpast⟩
    · rw [hclaimed, hjob, hengaged]
      exact hkept.claimed
  · intro j other _ hj
    exact (h.calls j other hj).sameRun hrow
  · intro he j other hji hj
    rw [hengaged] at he
    by_contra hnot
    exact hji (h.one j i other call hj hi (by simpa using hnot) he)
  · rw [hclaimed, hjob]
    intro hc j other hji hj hc' hsame
    exact hji (h.occurrence j i other call hj hi hc' hc hsame.symm)

theorem exclusive_select (h : Exclusive s) (hi : s.calls[i]? = some call) {tz : Option String}
    (hphase : call.phase = .polled t tz) :
    Exclusive
      { s with calls := s.calls.set i { call with job := some s.job, phase := .selected t } } := by
  obtain ⟨ht, hclaimed⟩ := (h.calls i call hi).polled t tz hphase
  refine exclusive_set h h.past ?_ (fun j other _ hj => h.calls j other hj) ?_ ?_
  · refine ⟨?_, by simp, ?_, by simp, ?_⟩
    · rintro job ⟨⟩
      exact ⟨rfl, rfl⟩
    · rintro t' ⟨⟩
      exact ⟨ht, hclaimed⟩
    · intro hc
      simp [hclaimed] at hc
  · intro he
    simp [Call.engaged, Call.inProgress, hclaimed] at he
  · intro hc
    simp [hclaimed] at hc

theorem not_engaged_of_claim (h : Exclusive s) (hi : s.calls[i]? = some call)
    (hphase : call.phase = .selected t) (hjob : call.job = some job)
    (hwon : (claimJob s.job (claimStaleBefore job t) builtAt).2 = true)
    (hmanual : ∀ other ∈ s.calls, other.claimedAt = none → other.inProgress = false)
    (hj : s.calls[j]? = some other) : other.engaged = false := by
  have hkept := h.calls i call hi
  obtain ⟨ht, -⟩ := hkept.selected t hphase
  obtain ⟨htype, htimeout⟩ := hkept.copy job hjob
  cases hc : other.claimedAt with
  | none => simp [Call.engaged, hc, hmanual other (List.mem_of_getElem? hj) hc]
  | some c =>
    by_contra hnot
    obtain ⟨job', -, hengaged, -⟩ := (h.calls j other hj).claimed (by simp [hc])
    have hlost := claimJob_of_holdsRow (hengaged (by simpa using hnot))
      (claimWindow_congr htype htimeout) ht builtAt
    rw [hlost] at hwon
    cases hwon

theorem exclusive_claim (h : Exclusive s) (hi : s.calls[i]? = some call)
    (hphase : call.phase = .selected t) (hjob : call.job = some job)
    (hwon : (claimJob s.job (claimStaleBefore job t) builtAt).2 = true)
    (hprompt : s.now < builtAt + claimWindow s.job)
    (hmanual : ∀ other ∈ s.calls, other.claimedAt = none → other.inProgress = false)
    (hfresh : job.lastRunAt = s.job.lastRunAt) :
    Exclusive { s with
      job := { s.job with lastRunStatus := some .running, updatedAt := builtAt }
      calls := s.calls.set i { call with claimedAt := some builtAt, phase := .ready } } := by
  have hidle : ∀ (j : ℕ) (other : Call), s.calls[j]? = some other → other.engaged = false :=
    fun j other hj => not_engaged_of_claim h hi hphase hjob hwon hmanual hj
  refine exclusive_set h h.past ?_ ?_ (fun _ j other _ hj => hidle j other hj) ?_
  · refine ⟨(h.calls i call hi).copy, by simp, by simp, by simp, ?_⟩
    intro _
    exact ⟨job, hjob, fun _ => ⟨rfl, hprompt, hfresh.symm⟩, by simp [Call.engaged]⟩
  · intro j other _ hj
    have hkept := h.calls j other hj
    refine ⟨hkept.copy, hkept.polled, hkept.selected, hkept.recording, ?_⟩
    intro hc
    obtain ⟨job', hjob', -, hlater⟩ := hkept.claimed hc
    refine ⟨job', hjob', ?_, hlater⟩
    intro he
    rw [hidle j other hj] at he
    cases he
  · -- a recorded run of the same occurrence would have left a later last run in the row
    intro _ j other hji hj hc hsame
    obtain ⟨job', hjob', -, hlater⟩ := (h.calls j other hj).claimed hc
    obtain ⟨r, hr, hlt⟩ := hlater (hidle j other hj)
    simp only [hjob, hjob', Option.map_some, Option.some.injEq] at hsame
    have hself := hlt r (by rw [← hsame, hfresh, hr])
    omega

theorem exclusive_record (h : Exclusive s) (hi : s.calls[i]? = some call) {recordedAt : ℤ}
    (hphase : call.phase = .recording result recordedAt)
    (hinstant : call.claimedAt.isSome = true → ∀ job ∈ call.job, job.lastRunAt ≠ some recordedAt) :
    Exclusive { s with
      job := recordRun s.job result recordedAt builtAt
      calls := s.calls.set i { call with phase := .recorded result recordedAt } } := by
  have hkept := h.calls i call hi
  obtain ⟨hstamp, hlast⟩ := hkept.recording result recordedAt hphase
  have hengaged : call.engaged = true := by simp [Call.engaged, Call.inProgress, hphase]
  have hidle : ∀ (j : ℕ) (other : Call), j ≠ i → s.calls[j]? = some other →
      other.engaged = false := by
    intro j other hji hj
    by_contra hnot
    exact hji (h.one j i other call hj hi (by simpa using hnot) hengaged)
  apply exclusive_set h
  · rintro l ⟨⟩
    exact hstamp
  · refine ⟨hkept.copy, by simp, by simp, by simp, ?_⟩
    intro hc
    obtain ⟨job, hjob, hholds, -⟩ := hkept.claimed hc
    refine ⟨job, hjob, by simp [Call.engaged, Call.inProgress], ?_⟩
    intro _
    refine ⟨recordedAt, rfl, ?_⟩
    intro l hl
    have hle := hlast l ((hholds hengaged).since.trans hl)
    have hne : l ≠ recordedAt := by
      rintro rfl
      exact hinstant hc job hjob hl
    omega
  · intro j other hji hj
    have hother := h.calls j other hj
    refine ⟨hother.copy, hother.polled, hother.selected, ?_, ?_⟩
    · intro result' r hrec
      have hnot := hidle j other hji hj
      simp [Call.engaged, Call.inProgress, hrec] at hnot
    · intro hc
      obtain ⟨job, hjob, -, hlater⟩ := hother.claimed hc
      refine ⟨job, hjob, ?_, ?_⟩
      · intro he
        rw [hidle j other hji hj] at he
        cases he
      · intro hnot
        obtain ⟨r, hr, hlt⟩ := hlater hnot
        refine ⟨recordedAt, rfl, ?_⟩
        intro l hl
        have hlr := hlt l hl
        have hrr := hlast r hr
        omega
  · intro he
    simp [Call.engaged, Call.inProgress] at he
  · intro hc j other hji hj hc' hsame
    exact hji (h.occurrence j i other call hj hi hc' hc hsame.symm)

theorem exclusive_start (h : Exclusive s) (hi : s.calls[i]? = some call)
    (hphase : call.phase = .ready)
    (halone : call.engaged = false → ∀ other ∈ s.calls, other.engaged = false) :
    Exclusive { s with calls := s.calls.set i { call with phase := .executing false } } := by
  have hkept := h.calls i call hi
  refine exclusive_set h h.past ?_ (fun j other _ hj => h.calls j other hj) ?_ ?_
  · refine ⟨hkept.copy, by simp, by simp, by simp, ?_⟩
    intro hc
    obtain ⟨job, hjob, hholds, -⟩ := hkept.claimed hc
    change call.claimedAt.isSome = true at hc
    refine ⟨job, hjob, fun _ => hholds ?_, by simp [Call.engaged, Call.inProgress]⟩
    simp [Call.engaged, hc, hphase]
  · intro _ j other hji hj
    cases he : call.engaged with
    | false => exact halone he other (List.mem_of_getElem? hj)
    | true =>
      by_contra hnot
      exact hji (h.one j i other call hj hi (by simpa using hnot) he)
  · intro hc j other hji hj hc' hsame
    exact hji (h.occurrence j i other call hj hi hc' hc hsame.symm)

theorem exclusive_act {action : Action} (h : Exclusive s) (hi : s.calls[i]? = some call)
    (hact : act getNextRunTime s.now s.job call action = some (row', call'))
    (hprompt : Prompt s (.act i action) s') (hcons : Considerate s (.act i action) s') :
    Exclusive { s with job := row', calls := s.calls.set i call' } := by
  have hkept := h.calls i call hi
  unfold act at hact
  split at hact
  case h_1 t tz hphase =>
    obtain ⟨-, hclaimed⟩ := hkept.polled t tz hphase
    split_ifs at hact
    · cases hact
      exact exclusive_select h hi hphase
    · cases hact
      exact exclusive_quiet h hi (SameRun.refl _ _) rfl rfl
        (by simp [Call.engaged, Call.inProgress, hphase]) (by simp) (by simp) (by simp)
  case h_2 t builtAt hphase =>
    split_ifs at hact
    obtain ⟨job, hjob, hclaim⟩ := Option.map_eq_some_iff.mp hact
    cases hwon : (claimJob s.job (claimStaleBefore job t) builtAt).2 with
    | true =>
      have hmatches : Sql.Matches (claimable s.job (claimStaleBefore job t)) := by
        by_contra hnot
        simp [claimJob, hnot] at hwon
      simp only [hwon, if_true, Prod.mk.injEq] at hclaim
      obtain ⟨rfl, rfl⟩ := hclaim
      rw [claimJob, if_pos hmatches]
      have hwould : call.wouldClaim s.job builtAt = true := by
        simp [Call.wouldClaim, hphase, hjob, hwon]
      obtain ⟨hmanual, hfresh⟩ := hcons call hi hwould
      exact exclusive_claim h hi hphase hjob hwon hprompt hmanual (hfresh job hjob)
    | false =>
      have hsame : (claimJob s.job (claimStaleBefore job t) builtAt).1 = s.job := by
        unfold claimJob at hwon ⊢
        split_ifs at hwon ⊢
        rfl
      simp only [hwon, hsame, Bool.false_eq_true, if_false, Prod.mk.injEq] at hclaim
      obtain ⟨rfl, rfl⟩ := hclaim
      exact exclusive_quiet h hi (SameRun.refl _ _) rfl rfl
        (by simp [Call.engaged, Call.inProgress, hphase]) (by simp) (by simp) (by simp)
  case h_3 hphase =>
    cases hact
    exact exclusive_start h hi hphase (hcons call hi)
  case h_4 again result hphase =>
    cases hact
    exact exclusive_quiet h hi (SameRun.refl _ _) rfl rfl
      (by simp [Call.engaged, Call.inProgress, hphase]) (by simp) (by simp) (by simp)
  case h_5 again result hphase =>
    split_ifs at hact
    cases hact
    exact exclusive_quiet h hi (SameRun.refl _ _) rfl rfl
      (by simp [Call.engaged, Call.inProgress, hphase]) (by simp) (by simp) (by simp)
  case h_6 again result hphase =>
    split_ifs at hact
    cases hact
    refine exclusive_quiet h hi (SameRun.refl _ _) rfl rfl
      (by simp [Call.engaged, Call.inProgress, hphase]) (by simp) (by simp) ?_
    rintro result' r ⟨⟩
    rfl
  case h_7 result recordedAt builtAt hphase =>
    split_ifs at hact
    cases hact
    apply exclusive_record h hi hphase
    intro hc job hjob
    have hinstant := hcons call hi hc job hjob
    simpa [Call.recordsAt, hphase] using hinstant
  case h_8 result recordedAt why builtAt hphase =>
    split_ifs at hact
    · cases hact
      exact exclusive_quiet h hi (sameRun_markInterrupted recordedAt hprompt) rfl rfl
        (by simp [Call.engaged, Call.inProgress, hphase]) (by simp) (by simp) (by simp)
    · cases hact
      exact exclusive_quiet h hi (SameRun.refl _ _) rfl rfl
        (by simp [Call.engaged, Call.inProgress, hphase]) (by simp) (by simp) (by simp)
  case h_11 hfinished hdied =>
    cases hact
    have hidle : call.engaged = false := hprompt call hi
    exact exclusive_quiet h hi (SameRun.refl _ _) rfl rfl
      (hidle ▸ by simp [Call.engaged, Call.inProgress]) (by simp) (by simp) (by simp)
  all_goals cases hact

theorem exclusive_step {e : Event} (h : Exclusive s)
    (hs : step getNextRunTime s e = some s') (hprompt : Prompt s e s')
    (hcons : Considerate s e s') : Exclusive s' := by
  cases e with
  | wait t =>
    simp only [step] at hs
    split_ifs at hs with ht
    cases hs
    exact exclusive_wait h ht hprompt
  | poll tz =>
    cases hs
    refine exclusive_concat h ⟨by simp, ?_, by simp, by simp, by simp⟩ rfl rfl
    rintro t tz' ⟨⟩
    exact ⟨le_refl _, rfl⟩
  | runCronJobNow =>
    cases hs
    refine exclusive_concat h ⟨?_, by simp, by simp, by simp, by simp⟩ rfl rfl
    rintro job ⟨⟩
    exact ⟨rfl, rfl⟩
  | act i action =>
    obtain ⟨call, hi, hmap⟩ := Option.bind_eq_some_iff.mp hs
    obtain ⟨⟨row', call'⟩, hact, rfl⟩ := Option.map_eq_some_iff.mp hmap
    exact exclusive_act h hi hact hprompt hcons

/-- Two executions of the job are in progress together. -/
def Overlap (s : State) : Prop :=
  ∃ (i j : ℕ) (call other : Call), i ≠ j ∧ s.calls[i]? = some call ∧ s.calls[j]? = some other ∧
    call.inProgress = true ∧ other.inProgress = true

/-- Two pollers have taken the job for the occurrence computed from one last run. -/
def TakenTwice (s : State) : Prop :=
  ∃ (i j : ℕ) (call other : Call), i ≠ j ∧ s.calls[i]? = some call ∧ s.calls[j]? = some other ∧
    call.claimedAt.isSome = true ∧ other.claimedAt.isSome = true ∧
      call.job.map (·.lastRunAt) = other.job.map (·.lastRunAt)

def initial (job : CronJobRow) (now : ℤ) : State := ⟨now, job, []⟩

/-- In every interleaving of polls and manual runs in which every run is shorter than the
stale-claim window and every step is considerate, no two executions are in progress together and no
occurrence is taken by two pollers. -/
theorem cron_runs_exclusive (getNextRunTime : String → ℤ → String → ℤ) (job : CronJobRow) (now : ℤ)
    (es : List Event) (s : State) (hjob : ∀ l, job.lastRunAt = some l → l ≤ now)
    (hs : exec (step getNextRunTime) (initial job now) es = some s)
    (hprompt : Along (step getNextRunTime) Prompt (initial job now) es)
    (hcons : Along (step getNextRunTime) Considerate (initial job now) es) :
    ¬ Overlap s ∧ ¬ TakenTwice s := by
  have hinit : Exclusive (initial job now) := ⟨hjob, by simp [initial], by simp [initial],
    by simp [initial]⟩
  have hboth := along_and (step getNextRunTime) hprompt hcons
  have hexcl : Exclusive s := exec_invariant_along (step getNextRunTime)
    (fun _ _ _ h hs hP => exclusive_step h hs hP.1 hP.2) hinit hboth hs
  constructor
  · rintro ⟨i, j, call, other, hij, hi, hj, hcall, hother⟩
    refine hij (hexcl.one i j call other hi hj ?_ ?_)
    · simp [Call.engaged, hcall]
    · simp [Call.engaged, hother]
  · rintro ⟨i, j, call, other, hij, hi, hj, hcall, hother, hsame⟩
    exact hij (hexcl.occurrence i j call other hi hj hcall hother hsame)

def everyMinute (_ : String) (since : ℤ) (_ : String) : ℤ := (since / 60000 + 1) * 60000

def pingJob : CronJobRow where
  type := .webcron
  schedule := "* * * * *"
  timeoutSeconds := none
  timezone := none
  enabled := true
  lastRunAt := none
  lastRunStatus := none
  consecutiveFailures := 0
  createdAt := 0
  updatedAt := 0

def pinged : CronRunResult := ⟨.success, none, false, false⟩

/-- The `i`-th call's run comes back at `t` and is recorded. -/
def ending (i : ℕ) (t : ℤ) : List Event :=
  [.wait t, .act i (.finish pinged), .act i .stamp, .act i (.record t)]

def quickRun : List Event :=
  [.wait 60000, .poll none, .poll none, .act 0 .select, .act 1 .select, .act 0 (.claim 60000),
    .act 0 .start] ++ ending 0 60300 ++ [.act 1 (.claim 60300), .act 1 .start]

def manualRun : List Event :=
  [.wait 60000, .poll none, .act 0 .select, .act 0 (.claim 60000), .act 0 .start, .runCronJobNow,
    .act 1 .start] ++ ending 1 60300 ++
    [.wait 120000, .poll none, .act 2 .select, .act 2 (.claim 120000), .act 2 .start]

theorem cron_job_double_runs : (∃ s, exec (step everyMinute) (initial pingJob 0) quickRun = some s ∧
      Along (step everyMinute) Prompt (initial pingJob 0) quickRun ∧ TakenTwice s) ∧
    (∃ s, exec (step everyMinute) (initial pingJob 0) manualRun = some s ∧
      Along (step everyMinute) Prompt (initial pingJob 0) manualRun ∧ Overlap s) := by
  constructor
  · refine ⟨_, rfl, by decide, 0, 1, _, _, by decide, rfl, rfl, rfl, rfl, rfl⟩
  · refine ⟨_, rfl, by decide, 0, 2, _, _, by decide, rfl, rfl, rfl, rfl⟩

/-- A scheduled run, and a manual one when it has been recorded. -/
def orderlyRuns : List Event :=
  [.wait 60000, .poll none, .act 0 .select, .wait 60200, .act 0 (.claim 60000), .act 0 .start] ++
    ending 0 60300 ++ [.act 0 (.check none 60300), .runCronJobNow, .act 1 .start]

theorem cron_runs_exclusive_in_turn :
    ∃ s, exec (step everyMinute) (initial pingJob 0) orderlyRuns = some s ∧ ¬ Overlap s ∧
      ¬ TakenTwice s :=
  ⟨_, rfl, cron_runs_exclusive everyMinute pingJob 0 orderlyRuns _ (by simp [pingJob]) rfl
    (by decide) (by decide)⟩

end Insula.CronJobs
