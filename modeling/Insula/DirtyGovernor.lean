import Insula.Quantities

/-!
# The dirty-data governor

`file-manager/dirty-governor.mjs`: a writer that is faster than its volume is stopped by a signal
until the pages that wait for the disk have drained, or for `maxPauseMs` at most. The processes of
the container come and go beside it; a signal to one that is gone fails.
-/

namespace Insula.DirtyGovernor

open Javascript (trim)
open Quantities (Text Number Arithmetic number isDigit)

structure Options where
  flushAt : ℚ
  pauseAt : ℚ
  resumeAt : ℚ
  maxPauseMs : ℤ

def defaults : Options := ⟨25 / 100, 40 / 100, 15 / 100, 30000⟩

/-! ## Counters -/

section Counters

variable (arith : Arithmetic)

/-- `Number(value) || 0`, of a text that may be missing. -/
def numberOrZero : Option Text → Number
  | none => .fin 0
  | some value => if number arith value = .nan then .fin 0 else number arith value

def pendingLine (acc : Number × Number) (line : Text) : Number × Number :=
  match line.splitOn ' ' with
  | [] => acc
  | key :: rest =>
    if key = "file_dirty".toList then (numberOrZero arith rest.head?, acc.2)
    else if key = "file_writeback".toList then (acc.1, numberOrZero arith rest.head?)
    else acc

def parsePending (statText : Text) : Number × Number :=
  (statText.splitOn '\n').foldl (pendingLine arith) (.fin 0, .fin 0)

def parseLimit (maxText : Text) : Option Number :=
  let v := trim maxText
  if v = [] ∨ ¬ v.all isDigit then none
  else if (number arith v).gt (.fin 0) then some (number arith v) else none

end Counters

/-! ## The decision -/

structure State where
  paused : Bool := false
  pausedAt : Option ℤ := none
  flushing : Bool := false
  pausedPids : List ℕ := []

structure Decision where
  flush : Bool
  pause : Bool
  resume : Bool
  deriving DecidableEq

section Decide

variable (arith : Arithmetic) (opts : Options)

def tooLong (state : State) (now : ℤ) : Bool := state.pausedAt.any fun t => opts.maxPauseMs ≤ now - t

def decide (pending limit : Number) (now : ℤ) (state : State) : Decision :=
  let flush := !state.flushing && pending.gt (limit.times arith opts.flushAt)
  if state.paused then
    let drained := (limit.times arith opts.resumeAt).gt pending
    ⟨flush, false, drained || tooLong opts state now⟩
  else ⟨flush, pending.gt (limit.times arith opts.pauseAt), false⟩

end Decide

/-! ## Processes and signals -/

inductive Process
  | gone
  | running
  | stopped
  deriving DecidableEq

inductive Signal
  | stop
  | cont

structure System where
  state : State := {}
  procs : ℕ → Process

/-- `send`: whether there is a process, and the processes afterwards. -/
def send (procs : ℕ → Process) (pid : ℕ) (sig : Signal) : Option (ℕ → Process) :=
  if procs pid = .gone then none
  else some (Function.update procs pid (match sig with | .stop => .stopped | .cont => .running))

def pauseWriter (s : System) (pid : ℕ) : System :=
  if pid ∈ s.state.pausedPids then s
  else
    match send s.procs pid .stop with
    | none => s
    | some procs => ⟨{ s.state with pausedPids := s.state.pausedPids ++ [pid] }, procs⟩

def pauseWriters (writers : List ℕ) (now : ℤ) (s : System) : System :=
  let s := writers.foldl pauseWriter s
  if !s.state.paused && !s.state.pausedPids.isEmpty then
    { s with state := { s.state with paused := true, pausedAt := some now } }
  else s

def continueWriter (procs : ℕ → Process) (pid : ℕ) : ℕ → Process :=
  (send procs pid .cont).getD procs

def resumeWriters (s : System) : System :=
  ⟨{ s.state with pausedPids := [], paused := false, pausedAt := none },
    s.state.pausedPids.foldl continueWriter s.procs⟩

/-! ## Ticks -/

structure Reading where
  max : Option Text
  stat : Option Text
  writers : List ℕ
  now : ℤ
  pauseNow : ℤ

inductive Outcome
  | unreadable
  | unlimited
  | done (pending limit : Number) (decision : Decision)
  deriving DecidableEq

section Tick

variable (arith : Arithmetic) (opts : Options)

/-- The counters of a tick, unless it is skipped: what waits for the disk, and the limit. -/
def counters (reading : Reading) : Except Outcome (Number × Number) :=
  match reading.max, reading.stat with
  | some max, some stat =>
    match parseLimit arith max with
    | none => .error .unlimited
    | some limit =>
      let p := parsePending arith stat
      .ok (p.1.add arith p.2, limit)
  | _, _ => .error .unreadable

def holdNewcomers (reading : Reading) (pending limit : Number) (s : System) : System :=
  if s.state.paused && pending.gt (limit.times arith opts.pauseAt) then
    pauseWriters reading.writers reading.pauseNow s
  else s

def act (reading : Reading) (d : Decision) (s : System) : System :=
  let s := if d.flush then { s with state := { s.state with flushing := true } } else s
  let s := if d.pause then pauseWriters reading.writers reading.pauseNow s else s
  if d.resume then resumeWriters s else s

def tick (reading : Reading) (s : System) : Outcome × System :=
  match counters arith reading with
  | .error skipped => (skipped, s)
  | .ok (pending, limit) =>
    let s := holdNewcomers arith opts reading pending limit s
    let d := decide arith opts pending limit reading.now s.state
    (.done pending limit d, act reading d s)

def stop (s : System) : System := if s.state.paused then resumeWriters s else s

inductive Event
  | tick (reading : Reading)
  | flushed
  | started (pid : ℕ)
  | exited (pid : ℕ)
  | stop

def step (s : System) : Event → System
  | .tick reading => (tick arith opts reading s).2
  | .flushed => { s with state := { s.state with flushing := false } }
  | .started pid =>
    if s.procs pid = .gone then { s with procs := Function.update s.procs pid .running } else s
  | .exited pid => { s with procs := Function.update s.procs pid .gone }
  | .stop => stop s

def run (alive : ℕ → Bool) (events : List Event) : System :=
  events.foldl (step arith opts) { procs := fun pid => if alive pid then .running else .gone }

theorem run_snoc (alive : ℕ → Bool) (events : List Event) (event : Event) :
    run arith opts alive (events ++ [event]) = step arith opts (run arith opts alive events) event := by
  rw [run, List.foldl_append, List.foldl_cons, List.foldl_nil, run]

end Tick

/-! ## The invariant -/

/-- Every process that is stopped is one that the governor will continue. -/
def Known (s : System) : Prop := ∀ pid, s.procs pid = .stopped → pid ∈ s.state.pausedPids

structure Safe (s : System) : Prop where
  known : Known s
  paused_iff : s.state.paused = true ↔ s.state.pausedPids ≠ []

structure Continued (s : System) : Prop where
  pausedPids_eq : s.state.pausedPids = []
  not_paused : s.state.paused = false
  running : ∀ pid, s.procs pid ≠ .stopped

variable {s : System}

theorem Continued.safe (h : Continued s) : Safe s :=
  ⟨fun pid hpid => (h.running pid hpid).elim, by rw [h.pausedPids_eq, h.not_paused]; simp⟩

/-! ## Pausing -/

theorem Known.pauseWriter (h : Known s) (pid : ℕ) : Known (pauseWriter s pid) := by
  unfold DirtyGovernor.pauseWriter send
  split
  · exact h
  · by_cases hgone : s.procs pid = .gone
    · rw [if_pos hgone]
      exact h
    · rw [if_neg hgone]
      intro other hother
      by_cases heq : other = pid
      · exact List.mem_append_right _ (by rw [heq]; exact List.mem_cons_self)
      · exact List.mem_append_left _ (h other (by simpa [Function.update_of_ne heq] using hother))

theorem pauseWriter_state (s : System) (pid : ℕ) : ∃ more, (pauseWriter s pid).state =
      { s.state with pausedPids := s.state.pausedPids ++ more } := by
  unfold pauseWriter send
  split
  · exact ⟨[], by rw [List.append_nil]⟩
  · by_cases hgone : s.procs pid = .gone
    · rw [if_pos hgone]
      exact ⟨[], by rw [List.append_nil]⟩
    · rw [if_neg hgone]
      exact ⟨[pid], rfl⟩

theorem foldl_pauseWriter (writers : List ℕ) (s : System) :
    (Known s → Known (writers.foldl pauseWriter s)) ∧ ∃ more, (writers.foldl pauseWriter s).state =
        { s.state with pausedPids := s.state.pausedPids ++ more } := by
  induction writers generalizing s with
  | nil => exact ⟨id, [], by rw [List.append_nil]; rfl⟩
  | cons pid writers ih =>
    obtain ⟨hknown, more, hstate⟩ := ih (pauseWriter s pid)
    obtain ⟨first, hfirst⟩ := pauseWriter_state s pid
    refine ⟨fun h => hknown (h.pauseWriter pid), first ++ more, ?_⟩
    rw [List.foldl_cons, hstate, hfirst, List.append_assoc]

theorem Safe.pauseWriters (h : Safe s) (writers : List ℕ) (now : ℤ) :
    Safe (pauseWriters writers now s) := by
  obtain ⟨hknown, more, hstate⟩ := foldl_pauseWriter writers s
  have hpids : (writers.foldl pauseWriter s).state.pausedPids = s.state.pausedPids ++ more := by
    rw [hstate]
  have hpaused : (writers.foldl pauseWriter s).state.paused = s.state.paused := by rw [hstate]
  have hiff := h.paused_iff
  unfold DirtyGovernor.pauseWriters
  generalize writers.foldl pauseWriter s = t at *
  by_cases hguard : (!t.state.paused && !t.state.pausedPids.isEmpty) = true
  · simp only [Bool.and_eq_true, Bool.not_eq_true', List.isEmpty_eq_false_iff] at hguard
    rw [if_pos (by simpa using hguard)]
    exact ⟨hknown h.known, by simp [hguard.2]⟩
  · rw [if_neg hguard]
    refine ⟨hknown h.known, ?_⟩
    simp only [Bool.and_eq_true, Bool.not_eq_true', List.isEmpty_eq_false_iff] at hguard
    cases hp : t.state.paused with
    | false => simpa [hp] using hguard
    | true =>
      have hne := hiff.mp (by rw [← hpaused, hp])
      simp [hpids, hne]

theorem pauseWriters_paused (h : s.state.paused = true) (writers : List ℕ) (now : ℤ) :
    (pauseWriters writers now s).state.paused = true ∧
      (pauseWriters writers now s).state.pausedAt = s.state.pausedAt := by
  obtain ⟨-, more, hstate⟩ := foldl_pauseWriter writers s
  have hpaused : (writers.foldl pauseWriter s).state.paused = true := by rw [hstate, h]
  unfold pauseWriters
  rw [if_neg (by simp [hpaused])]
  exact ⟨hpaused, by rw [hstate]⟩

/-! ## Continuing -/

theorem continueWriter_stopped {procs : ℕ → Process} {pid other : ℕ}
    (h : continueWriter procs pid other = .stopped) : other ≠ pid ∧ procs other = .stopped := by
  unfold continueWriter send at h
  by_cases hgone : procs pid = .gone
  · rw [if_pos hgone] at h
    refine ⟨fun heq => ?_, h⟩
    rw [heq] at h
    rw [Option.getD_none, hgone] at h
    cases h
  · rw [if_neg hgone, Option.getD_some] at h
    by_cases heq : other = pid
    · rw [heq, Function.update_self] at h
      cases h
    · rw [Function.update_of_ne heq] at h
      exact ⟨heq, h⟩

theorem foldl_continueWriter {pids : List ℕ} {procs : ℕ → Process} {other : ℕ}
    (h : pids.foldl continueWriter procs other = .stopped) : other ∉ pids ∧ procs other = .stopped := by
  induction pids generalizing procs with
  | nil => exact ⟨List.not_mem_nil, h⟩
  | cons pid pids ih =>
    obtain ⟨hnot, hstopped⟩ := ih h
    obtain ⟨hne, hstopped⟩ := continueWriter_stopped hstopped
    exact ⟨by simp [hne, hnot], hstopped⟩

theorem Known.resumeWriters (h : Known s) : Continued (resumeWriters s) := by
  refine ⟨rfl, rfl, fun pid hpid => ?_⟩
  obtain ⟨hnot, hstopped⟩ := foldl_continueWriter hpid
  exact hnot (h pid hstopped)

/-! ## Steps -/

section Steps

variable (arith : Arithmetic) (opts : Options) {s : System}

theorem Safe.flushing (h : Safe s) (flushing : Bool) :
    Safe { s with state := { s.state with flushing := flushing } } := ⟨h.known, h.paused_iff⟩

theorem Safe.holdNewcomers (h : Safe s) (reading : Reading) (pending limit : Number) :
    Safe (holdNewcomers arith opts reading pending limit s) := by
  unfold DirtyGovernor.holdNewcomers
  split
  · exact h.pauseWriters _ _
  · exact h

theorem holdNewcomers_paused (h : s.state.paused = true) (reading : Reading)
    (pending limit : Number) :
    (holdNewcomers arith opts reading pending limit s).state.paused = true ∧
      (holdNewcomers arith opts reading pending limit s).state.pausedAt = s.state.pausedAt := by
  unfold holdNewcomers
  split
  · exact pauseWriters_paused h _ _
  · exact ⟨h, rfl⟩

theorem Safe.act (h : Safe s) (reading : Reading) (d : Decision) :
    Safe (act reading d s) ∧ (d.resume = true → Continued (act reading d s)) := by
  unfold DirtyGovernor.act
  dsimp only
  have hflush : Safe (if d.flush then { s with state := { s.state with flushing := true } }
    else s) := by
    split
    · exact h.flushing true
    · exact h
  generalize (if d.flush then { s with state := { s.state with flushing := true } } else s) = s₁ at *
  have hpause : Safe (if d.pause then
      DirtyGovernor.pauseWriters reading.writers reading.pauseNow s₁ else s₁) := by
    split
    · exact hflush.pauseWriters _ _
    · exact hflush
  generalize (if d.pause then
    DirtyGovernor.pauseWriters reading.writers reading.pauseNow s₁ else s₁) = s₂ at *
  cases d.resume with
  | false => exact ⟨hpause, fun h => nomatch h⟩
  | true => exact ⟨hpause.known.resumeWriters.safe, fun _ => hpause.known.resumeWriters⟩

theorem Safe.tick (h : Safe s) (reading : Reading) : Safe (tick arith opts reading s).2 := by
  unfold DirtyGovernor.tick
  split
  · exact h
  · exact ((h.holdNewcomers arith opts reading _ _).act reading _).1

/-- The pause has lasted `maxPauseMs` at least when the tick decides. -/
def Overdue (s : System) (reading : Reading) : Prop :=
  s.state.paused = true ∧ tooLong opts s.state reading.now = true

/-- Both files can be read, and there is a limit. -/
def Readable (reading : Reading) : Prop :=
  reading.stat ≠ none ∧ ∃ max, reading.max = some max ∧ parseLimit arith max ≠ none

theorem readable_iff (reading : Reading) :
    Readable arith reading ↔ ∃ read, counters arith reading = .ok read := by
  unfold Readable counters
  cases reading.max with
  | none => simp
  | some max =>
    cases reading.stat with
    | none => simp
    | some stat =>
      cases hlimit : parseLimit arith max with
      | none => simp [hlimit]
      | some limit => simp [hlimit]

theorem tick_overdue (h : Safe s) {reading : Reading} (hoverdue : Overdue opts s reading) :
    Continued (tick arith opts reading s).2 ↔ Readable arith reading := by
  rw [readable_iff]
  constructor
  · intro hcontinued
    cases hread : counters arith reading with
    | error skipped =>
      have hsame : (tick arith opts reading s).2 = s := by rw [tick, hread]
      have hnot := hcontinued.not_paused
      rw [hsame, hoverdue.1] at hnot
      cases hnot
    | ok read => exact ⟨read, rfl⟩
  · rintro ⟨⟨pending, limit⟩, hread⟩
    obtain ⟨hpaused, hpausedAt⟩ := holdNewcomers_paused arith opts hoverdue.1 reading pending limit
    have hlong := hoverdue.2
    rw [tooLong, ← hpausedAt] at hlong
    rw [tick, hread]
    apply ((h.holdNewcomers arith opts reading pending limit).act reading _).2
    rw [decide, if_pos hpaused]
    exact Bool.or_eq_true_iff.mpr (Or.inr hlong)

theorem Safe.stop (h : Safe s) : Continued (stop s) := by
  unfold DirtyGovernor.stop
  by_cases hpaused : s.state.paused = true
  · rw [if_pos hpaused]
    exact h.known.resumeWriters
  · rw [if_neg hpaused]
    have hnil : s.state.pausedPids = [] := by
      by_contra hne
      exact hpaused (h.paused_iff.mpr hne)
    refine ⟨hnil, by simpa using hpaused, fun pid hpid => ?_⟩
    have hmem := h.known pid hpid
    rw [hnil] at hmem
    cases hmem

theorem Safe.step (h : Safe s) (event : Event) : Safe (step arith opts s event) := by
  cases event with
  | tick reading => exact h.tick arith opts reading
  | flushed => exact h.flushing false
  | started pid =>
    rw [DirtyGovernor.step]
    split
    · refine ⟨fun other hother => h.known other ?_, h.paused_iff⟩
      by_cases heq : other = pid
      · rw [heq] at hother
        simp at hother
      · simpa [Function.update_of_ne heq] using hother
    · exact h
  | exited pid =>
    refine ⟨fun other hother => h.known other ?_, h.paused_iff⟩
    by_cases heq : other = pid
    · rw [heq] at hother
      simp [DirtyGovernor.step] at hother
    · simpa [DirtyGovernor.step, Function.update_of_ne heq] using hother
  | stop => exact h.stop.safe

/-! ## Runs -/

theorem run_safe (alive : ℕ → Bool) (events : List Event) : Safe (run arith opts alive events) := by
  induction events using List.reverseRecOn with
  | nil =>
    refine ⟨fun pid hpid => ?_, by simp [run]⟩
    simp only [run, List.foldl_nil] at hpid
    split at hpid <;> cases hpid
  | append_singleton events event ih =>
    rw [run_snoc]
    exact ih.step arith opts event

/-- What one event has to leave behind: the invariant, and nothing stopped after a tick that comes
`maxPauseMs` or more after the pause began and after the governor is stopped. -/
structure Released (s : System) (event : Event) : Prop where
  safe : Safe (step arith opts s event)
  overdue : ∀ reading, event = .tick reading → Overdue opts s reading →
    Continued (step arith opts s event)
  stopped : event = .stop → Continued (step arith opts s event)

/-- In every run the processes that are stopped are known and the governor is paused exactly when
there are some, and none is left stopped by `stop`. A pause ends with the first tick that is
`maxPauseMs` late exactly if that tick can read its counters. -/
theorem released_iff (alive : ℕ → Bool) (events : List Event) :
    (∀ before event after, events = before ++ event :: after →
      Released arith opts (run arith opts alive before) event) ↔
    ∀ before reading after, events = before ++ .tick reading :: after →
      Overdue opts (run arith opts alive before) reading → Readable arith reading := by
  constructor
  · intro h before reading after hevents hoverdue
    have hsafe := run_safe arith opts alive before
    exact (tick_overdue arith opts hsafe hoverdue).mp
      ((h before _ after hevents).overdue reading rfl hoverdue)
  · intro h before event after hevents
    have hsafe := run_safe arith opts alive before
    refine ⟨hsafe.step arith opts event, fun reading heq hoverdue => ?_, fun heq => ?_⟩
    · subst heq
      exact (tick_overdue arith opts hsafe hoverdue).mpr (h before reading after hevents hoverdue)
    · subst heq
      exact hsafe.stop

/-! ## A pause without counters -/

def exact : Arithmetic := ⟨.fin, fun _ => ""⟩

def fullReading : Reading := ⟨some ['9'], some "file_dirty 8".toList, [7], 0, 0⟩

def lateReading : Reading := ⟨none, none, [7], 30000, 30000⟩

/-- The process is stopped, the counters cannot be read for as long as a pause may last, and the
process is still stopped. -/
theorem unreadable_holds : ¬ ∀ before event after,
      [.tick fullReading, .tick lateReading] = before ++ event :: after →
        Released exact defaults (run exact defaults (fun _ => true) before) event := by
  intro h
  have hlate := (h [.tick fullReading] (.tick lateReading) [] rfl).overdue lateReading rfl
  have hstopped : (run exact defaults (fun _ => true) [.tick fullReading, .tick lateReading]).procs 7 =
    .stopped := by decide +kernel
  have hoverdue : (run exact defaults (fun _ => true) [.tick fullReading]).state.paused = true ∧
      tooLong defaults (run exact defaults (fun _ => true) [.tick fullReading]).state 30000 = true := by
    decide +kernel
  exact (hlate hoverdue).running 7 hstopped

end Steps

end Insula.DirtyGovernor
