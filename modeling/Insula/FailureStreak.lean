import Mathlib.Algebra.Order.Group.Int
import Mathlib.Data.List.DropRight
import Mathlib.Data.List.Nodup

/-!
# The failure streak of a cron job

Every run that ends is recorded with an update that is relative to the streak so far. A failed
command of a deployment is checked later: when the platform stopped it, the failure is taken back,
unless another run was recorded in the meantime.
-/

namespace Insula.FailureStreak

abbrev Text := List Char

inductive CronRunStatus
  | success | failed
deriving DecidableEq, Repr

structure RanIn where
  ns : Text
  pod : Text
  node : Option Text
deriving DecidableEq

structure CronRunResult where
  status : CronRunStatus
  responseCode : Option ℤ
  output : Option Text
  durationMs : ℕ
  ranIn : Option RanIn
  platformFault : Option Text
  notStarted : Bool
deriving DecidableEq

inductive JobType
  | webcron | deployment
deriving DecidableEq, Repr

structure CronJob where
  lastRunAt : Option ℤ
  lastRunStatus : Option CronRunStatus
  lastRunDurationMs : Option ℕ
  lastRunResponseCode : Option ℤ
  lastRunOutput : Option Text
  consecutiveFailures : ℤ

def CronJob.new : CronJob := ⟨none, none, none, none, none, 0⟩

structure Run where
  type : JobType
  tenantId : Option Text
  notify : Bool
  retry : Bool
  canCheck : Bool
  first : CronRunResult
  second : CronRunResult
  recordedAt : ℤ
  why : Option Text
deriving DecidableEq

/-! ## One run -/

def CronRunResult.fault (result : CronRunResult) : Bool := result.platformFault.any (· ≠ [])

def Run.result (run : Run) : CronRunResult :=
  if run.first.fault && run.first.notStarted && run.retry then run.second else run.first

def streakAfter (status : CronRunStatus) (platformFault : Bool) (consecutiveFailures : ℤ) : ℤ :=
  if status = .success then 0
  else if platformFault then consecutiveFailures
  else consecutiveFailures + 1

def record (run : Run) (job : CronJob) : CronJob where
  lastRunAt := some run.recordedAt
  lastRunStatus := some run.result.status
  lastRunDurationMs := some run.result.durationMs
  lastRunResponseCode := run.result.responseCode
  lastRunOutput := run.result.output
  consecutiveFailures := streakAfter run.result.status run.result.fault job.consecutiveFailures

inductive FollowUp
  | nothing | operator | check | tell
deriving DecidableEq, Repr

def followUp (run : Run) : FollowUp :=
  if run.result.fault then if run.notify then .operator else .nothing
  else if run.notify ∧ run.result.status = .failed ∧ run.tenantId.isSome then
    if run.type = .deployment ∧ run.result.ranIn.isSome ∧ run.canCheck then .check else .tell
  else .nothing

def interruptedOutput (why : Text) (output : Option Text) : Text :=
  "Interrupted by the platform: ".toList ++ why ++ ". The command itself did not fail.\n".toList ++
    output.getD []

/-- The update of `notifyUnlessInterrupted`, on this run's record only. -/
def notifyUnlessInterrupted (clip : Text → Option Text) (run : Run) (job : CronJob) : CronJob :=
  match run.why with
  | none => job
  | some why =>
    if job.lastRunAt = some run.recordedAt then
      { job with
        lastRunOutput := clip (interruptedOutput why run.result.output)
        consecutiveFailures := max (job.consecutiveFailures - 1) 0 }
    else job

/-! ## All runs of a job -/

inductive Event
  /-- A run has ended and is recorded. -/
  | record (run : Run)
  /-- The deferred check of a run takes effect. -/
  | check (run : Run)
deriving DecidableEq

structure State where
  job : CronJob
  /-- The runs that are yet to be checked. -/
  pending : List Run

def State.initial : State := ⟨.new, []⟩

def step (clip : Text → Option Text) (s : State) : Event → Option State
  | .record run =>
    some ⟨record run s.job, if followUp run = .check then s.pending ++ [run] else s.pending⟩
  | .check run =>
    if run ∈ s.pending then some ⟨notifyUnlessInterrupted clip run s.job, s.pending.erase run⟩
    else none

def run (clip : Text → Option Text) (events : List Event) : Option State :=
  events.foldlM (step clip) .initial

/-! ## What the runs were -/

def Run.interrupted (run : Run) : Bool := followUp run = .check && run.why.isSome

def Run.own (run : Run) : Bool :=
  run.result.status = .failed && !run.result.fault && !run.interrupted

def Event.recorded : Event → Option Run
  | .record run => some run
  | .check _ => none

def Event.succeeds (e : Event) : Bool := e.recorded.any fun run => run.result.status = .success

def sinceSuccess (events : List Event) : List Event := events.rtakeWhile fun e => !e.succeeds

def ownFailures (events : List Event) : ℕ :=
  ((sinceSuccess events).filterMap Event.recorded).countP Run.own

/-- Every interrupted run since then had its check take effect before another run was recorded. -/
def Prompt (events : List Event) : Prop :=
  ∀ before run after, sinceSuccess events = before ++ .record run :: after → run.interrupted = true →
    ∃ mid rest, after = mid ++ .check run :: rest ∧ ∀ e ∈ mid, e.recorded = none

def Distinct (events : List Event) : Prop :=
  ((events.filterMap Event.recorded).map Run.recordedAt).Nodup

/-! ## Failures that were not taken back -/

/-- The interrupted runs since the last success that are still counted, and the last run. -/
structure Tally where
  late : List Run
  last : Option Run

def Tally.next (tally : Tally) : Event → Tally
  | .record run =>
    if run.result.status = .success then ⟨[], some run⟩
    else ⟨if run.interrupted then tally.late ++ [run] else tally.late, some run⟩
  | .check run => if tally.last = some run then { tally with late := tally.late.erase run } else tally

def tally (events : List Event) : Tally := events.foldl Tally.next ⟨[], none⟩

section Counting

variable {events : List Event} {x : Run} {e : Event}

theorem tally_concat (events : List Event) (e : Event) :
    tally (events ++ [e]) = (tally events).next e := by
  simp [tally, List.foldl_append]

theorem last_tally (events : List Event) :
    (tally events).last = (events.filterMap Event.recorded).getLast? := by
  induction events using List.reverseRecOn with
  | nil => rfl
  | append_singleton events e ih =>
    rw [tally_concat, List.filterMap_append]
    cases e with
    | record x =>
      simp only [Tally.next, List.filterMap_cons, Event.recorded, List.filterMap_nil,
        List.getLast?_concat]
      split <;> rfl
    | check x =>
      simp only [Tally.next, List.filterMap_cons, Event.recorded, List.filterMap_nil, List.append_nil]
      rw [← ih]
      split <;> rfl

theorem succeeds_record : (Event.record x).succeeds = decide (x.result.status = .success) := rfl

theorem sinceSuccess_concat (events : List Event) (e : Event) :
    sinceSuccess (events ++ [e]) = if e.succeeds then [] else sinceSuccess events ++ [e] := by
  unfold sinceSuccess
  cases he : e.succeeds with
  | true => simp [he]
  | false => simp [he]

theorem ownFailures_record (events : List Event) (x : Run) : ownFailures (events ++ [.record x]) =
      if x.result.status = .success then 0 else ownFailures events + if x.own then 1 else 0 := by
  unfold ownFailures
  rw [sinceSuccess_concat, succeeds_record]
  by_cases hx : x.result.status = .success
  · simp [hx]
  · simp [hx, Event.recorded, List.countP_singleton]

theorem ownFailures_check (events : List Event) (x : Run) :
    ownFailures (events ++ [.check x]) = ownFailures events := by
  unfold ownFailures
  rw [sinceSuccess_concat]
  simp [Event.succeeds, Event.recorded]

theorem late_sublist (events : List Event) :
    (tally events).late.Sublist (events.filterMap Event.recorded) := by
  induction events using List.reverseRecOn with
  | nil => exact List.Sublist.refl _
  | append_singleton events e ih =>
    rw [tally_concat, List.filterMap_append]
    cases e with
    | record x =>
      simp only [Tally.next, List.filterMap_cons, Event.recorded, List.filterMap_nil]
      split
      · exact List.nil_sublist _
      · dsimp only
        split
        · exact ih.append (List.Sublist.refl [x])
        · exact ih.trans (List.sublist_append_left _ _)
    | check x =>
      simp only [Tally.next, List.filterMap_cons, Event.recorded, List.filterMap_nil, List.append_nil]
      split
      · exact List.erase_sublist.trans ih
      · exact ih

theorem interrupted_of_late (h : x ∈ (tally events).late) : x.interrupted = true := by
  induction events using List.reverseRecOn with
  | nil => cases h
  | append_singleton events e ih =>
    rw [tally_concat] at h
    cases e with
    | record y =>
      simp only [Tally.next] at h
      split at h
      · cases h
      · dsimp only at h
        split at h
        next hy =>
          rcases List.mem_append.mp h with h | h
          · exact ih h
          · exact List.mem_singleton.mp h ▸ hy
        · exact ih h
    | check y =>
      simp only [Tally.next] at h
      split at h
      · exact ih (List.mem_of_mem_erase h)
      · exact ih h

theorem check_in_concat {after : List Event} (hne : e ≠ .check x)
    (h : ∃ mid rest, after ++ [e] = mid ++ .check x :: rest ∧ ∀ e ∈ mid, e.recorded = none) :
    ∃ mid rest, after = mid ++ .check x :: rest ∧ ∀ e ∈ mid, e.recorded = none := by
  obtain ⟨mid, rest, heq, hmid⟩ := h
  induction rest using List.reverseRecOn with
  | nil =>
    have hlast := (List.append_inj' heq rfl).2
    exact absurd (List.singleton_inj.mp hlast) hne
  | append_singleton rest last _ =>
    have hassoc : mid ++ .check x :: (rest ++ [last]) = (mid ++ .check x :: rest) ++ [last] := by simp
    rw [hassoc] at heq
    exact ⟨mid, rest, (List.append_inj' heq rfl).1, hmid⟩

theorem last_of_no_record {before after : List Event}
    (hsince : sinceSuccess events = before ++ .record x :: after)
    (hafter : ∀ e ∈ after, e.recorded = none) :
    (tally events).last = some x := by
  obtain ⟨start, hstart⟩ := List.rtakeWhile_suffix (fun e : Event => !e.succeeds) events
  have hnone : after.filterMap Event.recorded = [] := List.filterMap_eq_nil_iff.mpr hafter
  have hevents : events = start ++ (before ++ .record x :: after) := by
    rw [← hsince]
    exact hstart.symm
  rw [last_tally, hevents, List.filterMap_append, List.filterMap_append, List.filterMap_cons]
  simp [Event.recorded, hnone]

/-- A failure that was not taken back is of an interrupted run whose check came too late. -/
theorem exists_of_late (hnodup : (events.filterMap Event.recorded).Nodup)
    (h : x ∈ (tally events).late) :
    ∃ before after, sinceSuccess events = before ++ .record x :: after ∧
      ¬ ∃ mid rest, after = mid ++ .check x :: rest ∧ ∀ e ∈ mid, e.recorded = none := by
  induction events using List.reverseRecOn with
  | nil => cases h
  | append_singleton events e ih =>
    rw [List.filterMap_append] at hnodup
    have hold := hnodup.sublist (List.sublist_append_left _ _)
    rw [tally_concat] at h
    rw [sinceSuccess_concat]
    cases e with
    | record y =>
      rw [succeeds_record]
      simp only [Tally.next] at h
      split at h
      · cases h
      next hy =>
        rw [if_neg (by simpa using hy)]
        have hearlier : x ∈ (tally events).late → ∃ before after,
            sinceSuccess events ++ [.record y] = before ++ .record x :: after ∧
              ¬ ∃ mid rest, after = mid ++ .check x :: rest ∧ ∀ e ∈ mid, e.recorded = none := by
          intro hx
          obtain ⟨before, after, heq, hlate⟩ := ih hold hx
          refine ⟨before, after ++ [.record y], by simp [heq], ?_⟩
          exact fun hprompt => hlate (check_in_concat (by simp) hprompt)
        dsimp only at h
        split at h
        · rcases List.mem_append.mp h with hx | hx
          · exact hearlier hx
          · rw [List.mem_singleton.mp hx]
            refine ⟨sinceSuccess events, [], rfl, ?_⟩
            rintro ⟨mid, rest, heq, -⟩
            simp at heq
        · exact hearlier h
    | check y =>
      rw [if_neg (by simp [Event.succeeds, Event.recorded])]
      simp only [Tally.next] at h
      have hx : x ∈ (tally events).late := by
        split at h
        · exact List.mem_of_mem_erase h
        · exact h
      obtain ⟨before, after, heq, hlate⟩ := ih hold hx
      refine ⟨before, after ++ [.check y], by simp [heq], ?_⟩
      by_cases hxy : x = y
      · subst hxy
        rintro ⟨mid, rest, hsplit, hmid⟩
        induction rest using List.reverseRecOn with
        | nil =>
          -- the check comes right after the run, so that the run is the last one and is taken back
          have hafter := (List.append_inj' hsplit rfl).1
          subst hafter
          rw [if_pos (last_of_no_record heq hmid)] at h
          exact (hold.sublist (late_sublist events)).not_mem_erase h
        | append_singleton rest last _ =>
          have hassoc : mid ++ .check x :: (rest ++ [last]) = (mid ++ .check x :: rest) ++
            [last] := by simp
          rw [hassoc] at hsplit
          exact hlate ⟨mid, rest, (List.append_inj' hsplit rfl).1, hmid⟩
      · have hne : Event.check y ≠ Event.check x := by
          intro hcheck
          exact hxy (Event.check.inj hcheck).symm
        exact fun hprompt => hlate (check_in_concat hne hprompt)

theorem late_eq_nil (hnodup : (events.filterMap Event.recorded).Nodup) (hprompt : Prompt events) :
    (tally events).late = [] := by
  rw [List.eq_nil_iff_forall_not_mem]
  intro x hx
  obtain ⟨before, after, hsince, hlate⟩ := exists_of_late hnodup hx
  exact hlate (hprompt before x after hsince (interrupted_of_late hx))

end Counting

/-! ## The streak of every run -/

section Streak

variable {clip : Text → Option Text} {events : List Event} {s s' : State} {x y : Run} {e : Event}

/-- The streak counts the tenant's own failures and those that were not taken back. -/
structure Counts (events : List Event) (s : State) : Prop where
  last : s.job.lastRunAt = (tally events).last.map Run.recordedAt
  recorded : ∀ run ∈ s.pending, run ∈ events.filterMap Event.recorded
  nodup : s.pending.Nodup
  late : ∀ run ∈ s.pending, (tally events).last = some run → run.why.isSome = true →
    run ∈ (tally events).late
  streak : s.job.consecutiveFailures = ownFailures events + (tally events).late.length

theorem failed_of_check (h : followUp x = .check) :
    x.result.status ≠ .success ∧ x.result.fault = false := by
  unfold followUp at h
  split at h
  · split at h <;> cases h
  next hfault =>
    split at h
    next hcond =>
      refine ⟨?_, by simpa using hfault⟩
      rw [hcond.2.1]
      simp
    next => cases h

theorem Counts.record (h : Counts events s) (hdistinct : Distinct (events ++ [.record x]))
    (hstep : step clip s (.record x) = some s') : Counts (events ++ [.record x]) s' := by
  cases hstep
  have hnodup := List.Nodup.of_map _ hdistinct
  rw [List.filterMap_append] at hnodup
  have hnew : x ∉ events.filterMap Event.recorded := by
    intro hmem
    exact List.disjoint_of_nodup_append hnodup hmem (by simp [Event.recorded])
  have hlast : (tally (events ++ [.record x])).last = some x := by
    rw [tally_concat, Tally.next]
    split <;> rfl
  have hmem : ∀ run ∈ (if followUp x = .check then s.pending ++ [x] else s.pending),
      run ∈ s.pending ∨ run = x ∧ followUp x = .check := by
    intro run hrun
    split at hrun
    next hcheck =>
      rcases List.mem_append.mp hrun with hrun | hrun
      · exact .inl hrun
      · exact .inr ⟨List.mem_singleton.mp hrun, hcheck⟩
    next => exact .inl hrun
  constructor
  · rw [hlast]
    rfl
  · intro run hrun
    rw [List.filterMap_append, List.mem_append]
    rcases hmem run hrun with hrun | ⟨rfl, -⟩
    · exact .inl (h.recorded run hrun)
    · exact .inr (by simp [Event.recorded])
  · dsimp only
    split
    · rw [List.nodup_append]
      refine ⟨h.nodup, List.nodup_singleton x, ?_⟩
      intro run hrun other hother heq
      rw [heq, List.mem_singleton.mp hother] at hrun
      exact hnew (h.recorded x hrun)
    · exact h.nodup
  · intro run hrun hrunlast hwhy
    rw [hlast] at hrunlast
    cases hrunlast
    rcases hmem x hrun with hrun | ⟨-, hcheck⟩
    · exact absurd (h.recorded x hrun) hnew
    · have hinterrupted : x.interrupted = true := by simp [Run.interrupted, hcheck, hwhy]
      rw [tally_concat, Tally.next, if_neg (failed_of_check hcheck).1, if_pos hinterrupted]
      exact List.mem_append_right _ List.mem_cons_self
  · change streakAfter x.result.status x.result.fault s.job.consecutiveFailures = _
    rw [ownFailures_record, tally_concat, Tally.next, streakAfter, h.streak]
    by_cases hsuccess : x.result.status = .success
    · rw [if_pos hsuccess, if_pos hsuccess, if_pos hsuccess]
      rfl
    · rw [if_neg hsuccess, if_neg hsuccess, if_neg hsuccess]
      have hfailed : x.result.status = .failed := by
        cases hstatus : x.result.status with
        | success => exact absurd hstatus hsuccess
        | failed => rfl
      cases hfault : x.result.fault with
      | true =>
        have hnot : x.interrupted = false := by
          unfold Run.interrupted
          rw [Bool.and_eq_false_iff]
          left
          rw [decide_eq_false_iff_not]
          intro hcheck
          rw [(failed_of_check hcheck).2] at hfault
          cases hfault
        simp [Run.own, hfault, hnot]
      | false =>
        cases hinterrupted : x.interrupted with
        | true => simp [Run.own, hfault, hinterrupted, add_assoc]
        | false =>
          simp [Run.own, hfault, hinterrupted, hfailed]
          omega

theorem Counts.check (h : Counts events s) (hdistinct : Distinct events)
    (hstep : step clip s (.check x) = some s') : Counts (events ++ [.check x]) s' := by
  unfold step at hstep
  obtain ⟨hpending, hs⟩ := Option.ite_none_right_eq_some.mp hstep
  cases hs
  have hlast : (tally (events ++ [.check x])).last = (tally events).last := by
    rw [tally_concat, Tally.next]
    split <;> rfl
  have hjob : (notifyUnlessInterrupted clip x s.job).lastRunAt = s.job.lastRunAt := by
    unfold notifyUnlessInterrupted
    split
    · rfl
    · split <;> rfl
  have hsame : s.job.lastRunAt = some x.recordedAt ↔ (tally events).last = some x := by
    rw [h.last, Option.map_eq_some_iff]
    constructor
    · rintro ⟨y, hy, htime⟩
      rw [hy]
      have hmem : y ∈ events.filterMap Event.recorded := by
        rw [last_tally] at hy
        exact List.mem_of_getLast? hy
      rw [List.inj_on_of_nodup_map hdistinct hmem (h.recorded x hpending) htime]
    · exact fun hx => ⟨x, hx, rfl⟩
  constructor
  · rw [hlast, ← h.last]
    exact hjob
  · intro run hrun
    rw [List.filterMap_append]
    exact List.mem_append_left _ (h.recorded run (List.mem_of_mem_erase hrun))
  · exact h.nodup.erase x
  · intro run hrun hrunlast hwhy
    rw [hlast] at hrunlast
    have hne : run ≠ x := by
      rintro rfl
      exact h.nodup.not_mem_erase hrun
    have hother : (tally events).last ≠ some x := by
      rw [hrunlast]
      exact fun heq => hne (Option.some.inj heq)
    rw [tally_concat, Tally.next, if_neg hother]
    exact h.late run (List.mem_of_mem_erase hrun) hrunlast hwhy
  · rw [ownFailures_check, tally_concat, Tally.next]
    change (notifyUnlessInterrupted clip x s.job).consecutiveFailures = _
    unfold notifyUnlessInterrupted
    cases hwhy : x.why with
    | none =>
      have hnot : x ∉ (tally events).late := by
        intro hx
        have hinterrupted := interrupted_of_late hx
        simp [Run.interrupted, hwhy] at hinterrupted
      rw [List.erase_of_not_mem hnot, ite_self]
      exact h.streak
    | some why =>
      dsimp only
      by_cases hx : (tally events).last = some x
      · have hmem := h.late x hpending hx (by simp [hwhy])
        have hpos := List.length_pos_of_mem hmem
        rw [if_pos (hsame.mpr hx), if_pos hx, List.length_erase_of_mem hmem]
        dsimp only
        rw [h.streak]
        omega
      · rw [if_neg (fun heq => hx (hsame.mp heq)), if_neg hx]
        exact h.streak

theorem Distinct.of_concat (h : Distinct (events ++ [e])) : Distinct events := by
  unfold Distinct at h ⊢
  rw [List.filterMap_append, List.map_append] at h
  exact h.sublist (List.sublist_append_left _ _)

theorem run_concat (events : List Event) (e : Event) :
    run clip (events ++ [e]) = (run clip events).bind fun s => step clip s e := by
  unfold run
  rw [List.foldlM_append]
  simp [Option.bind_eq_bind]

theorem run_counts (h : run clip events = some s) (hdistinct : Distinct events) : Counts events s := by
  induction events using List.reverseRecOn generalizing s with
  | nil =>
    cases h
    exact ⟨rfl, by simp [State.initial], by simp [State.initial], by simp [State.initial], rfl⟩
  | append_singleton events e ih =>
    rw [run_concat, Option.bind_eq_some_iff] at h
    obtain ⟨before, hbefore, hstep⟩ := h
    have hcounts := ih hbefore hdistinct.of_concat
    cases e with
    | record x => exact hcounts.record hdistinct hstep
    | check x => exact hcounts.check hdistinct.of_concat hstep

/-- In every order of runs and checks the streak counts at least the tenant's own failures since the
last success, and only those when every check of an interrupted run was in time. -/
theorem streak_counts_own_failures (clip : Text → Option Text) (events : List Event) (s : State)
    (h : run clip events = some s) (hdistinct : Distinct events) :
    0 ≤ s.job.consecutiveFailures ∧ (ownFailures events : ℤ) ≤ s.job.consecutiveFailures ∧
      (Prompt events → s.job.consecutiveFailures = ownFailures events) := by
  have hcounts := run_counts h hdistinct
  have hnodup := List.Nodup.of_map _ hdistinct
  rw [hcounts.streak]
  refine ⟨by omega, by omega, ?_⟩
  intro hprompt
  rw [late_eq_nil hnodup hprompt]
  simp

end Streak

/-! ### A failure and an interruption -/

def failedRun (recordedAt : ℤ) (why : Option Text) : Run where
  type := .deployment
  tenantId := some ['t']
  notify := true
  retry := true
  canCheck := true
  first := ⟨.failed, some 1, none, 5, some ⟨['n'], ['p'], none⟩, none, false⟩
  second := ⟨.failed, some 1, none, 5, some ⟨['n'], ['p'], none⟩, none, false⟩
  recordedAt := recordedAt
  why := why

def mixedEvents : List Event :=
  [.record (failedRun 1 none), .record (failedRun 2 (some ['x'])), .check (failedRun 2 (some ['x'])),
    .check (failedRun 1 none)]

def mixedState : State := (run some mixedEvents).getD .initial

theorem streak_of_mixed_runs : 0 ≤ mixedState.job.consecutiveFailures ∧
      (ownFailures mixedEvents : ℤ) ≤ mixedState.job.consecutiveFailures ∧
      (Prompt mixedEvents → mixedState.job.consecutiveFailures = ownFailures mixedEvents) :=
  streak_counts_own_failures some mixedEvents mixedState rfl (by unfold Distinct; decide)

example : ownFailures mixedEvents = 1 := by decide

end Insula.FailureStreak
