import Insula.PlatformMigrations
import Insula.Stages
import Mathlib.Data.List.Infix

/-!
# Migration passes beside each other

What is recorded is a first part of the registry, no migration is started once it is recorded, and a
pass starts none after one has failed. An `up()` that exceeds its limit goes on after its pass has
let the lock go, so two can be in progress; passes wait for one at a time.
-/

namespace Insula.PlatformMigrations

open Program Concurrent Transition

/-! ## The state of the runs -/

/-- How far a pass has come: what it has still to start, the migration that runs, or that has run
and is not recorded. -/
inductive Phase
  | idle
  | locked
  | ready (rest : List String)
  | started (id : String) (rest : List String)
  | ended (id : String) (rest : List String)
  | halted
  | released

namespace Phase

def Holds : Phase → Prop
  | .idle => False
  | .released => False
  | _ => True

def afterStart : Phase → Phase
  | .ready (id :: rest) => .started id rest
  | b => b

def afterUp : Phase → Phase
  | .started id rest => .ended id rest
  | b => b

def afterRecord : Phase → Phase
  | .ended _ rest => .ready rest
  | b => b

variable (ids : List String)

def next (b : Phase) : (o : Op) → Ans o → Option Phase
  | .tryLock, .ok ok => some (if ok then .locked else .released)
  | .tryLock, .error _ => some .released
  | .listApplied, .ok rows => some (.ready (ids.filter fun id => !(rows.map Prod.fst).contains id))
  | .listApplied, .error _ => some .halted
  | .startUp _, .ok _ => some b.afterStart
  | .awaitUp _ _, .ok _ => some b.afterUp
  | .awaitUp _ _, .error _ => some .halted
  | .recordApplied _, .ok _ => some b.afterRecord
  | .recordApplied _, .error _ => some .halted
  | .unlock, .ok _ => some .released
  | .unlock, .error _ => some b
  | .destroyClient, .ok _ => some .released
  | .now, .ok _ => some b
  | .settleUp _, .ok _ => some b
  | _, _ => none

end Phase

structure World where
  cluster : Cluster
  phase : ℕ → Phase
  /-- A migration of the pass has failed. -/
  failed : ℕ → Bool

/-- A migration fails: by itself, by taking too long, or because it cannot be recorded. -/
def fails : (o : Op) → Ans o → Bool
  | .awaitUp _ _, .error _ => true
  | .recordApplied _, .error _ => true
  | _, _ => false

inductive Request
  | pass (skip : Bool)
  -- The end of an `up()` that its pass does not wait for.
  | ending (pass : ℕ)

section Model

variable (reg : Registry)

def World.handle (w : World) (i : ℕ) (o : Op) (r : Ans o) : Option World :=
  (Phase.next reg.ids (w.phase i) o r).bind fun b =>
    (w.cluster.answer i o r).map fun c =>
      { cluster := c, phase := Function.update w.phase i b
        failed := if fails o r then Function.update w.failed i true else w.failed }

def World.sessionEnds (w : World) (i : ℕ) : World :=
  { w with
    cluster := w.cluster.sessionEnds i
    phase := Function.update w.phase i .released }

def program : Request → Program Op Ans (Except Thrown RunMigrationsResult)
  | .pass skip => (runPlatformMigrations reg skip).run
  | .ending pass =>
    (do
      ask (.settleUp pass)
      return skipped "" : Task RunMigrationsResult).run

abbrev State := Config World Request Op Ans (Except Thrown RunMigrationsResult)

inductive Step
  | ofEvent (e : Event Request Op Ans)
  -- The database notices that the process of a pass is gone.
  | sessionEnds (pass : ℕ)

def step (s : State) : Step → Option State
  | .ofEvent e => Concurrent.step (program reg) (World.handle reg) s e
  | .sessionEnds i =>
    match s.procs[i]? with
    | some ⟨_, none⟩ => some { s with world := s.world.sessionEnds i }
    | _ => none

/-- No pass has begun, and what is recorded is a first part of the registry. -/
structure Start (s : State) : Prop where
  procs : s.procs = []
  idle : ∀ i, s.world.phase i = .idle
  failed : ∀ i, s.world.failed i = false
  ups : ∀ i, s.world.cluster.ups i = none
  lock : s.world.cluster.lock = none
  recorded : s.world.cluster.recorded <+: reg.ids

/-! ## What a pass does -/

def Allowed (b : Phase) : Op → Prop
  | .tryLock => b = .idle
  | .listApplied => b = .locked
  | .startUp id => ∃ rest, b = .ready (id :: rest)
  | .awaitUp id _ => ∃ rest, b = .started id rest
  | .recordApplied rec => ∃ rest, b = .ended rec.id rest
  | .unlock => b = .halted ∨ ∃ rest, b = .ready rest
  | .destroyClient => b = .halted ∨ ∃ rest, b = .ready rest
  | _ => True

def discipline : Discipline Op Ans Phase where
  allowed := Allowed
  next := Phase.next reg.ids

end Model

section Follows

variable {reg : Registry} {b : Phase} {E : Phase → Prop}

theorem ask_ends {o : Op} {R : Phase → Val o → Prop} (ho : Allowed b o)
    (hok : ∀ a b', b.next reg.ids o (.ok a) = some b' → R b' a)
    (herror : ∀ e b', b.next reg.ids o (.error e) = some b' → E b') :
    Follows (discipline reg) (Ends R E) (ask o).run b :=
  follows_run_request.mpr ⟨ho, hok, herror⟩

theorem now_ends : Follows (discipline reg) (Ends (fun b' _ => b' = b) E) (ask .now).run b := by
  apply ask_ends (o := .now) trivial
  · intro a b' hb'
    exact (Option.some.inj hb').symm
  · intro e b' hb'
    cases hb'

theorem applyOne_ends {m : Migration} {t0 : ℤ} {rest : List String} (hb : b = .ready (m.id :: rest)) :
    Follows (discipline reg)
      (Ends (fun b' result => b' = if result.isOk then .ready rest else .halted) E)
      (applyOne reg m t0).run b := by
  subst hb
  unfold applyOne
  apply ends_tryCatch (Y := fun b' => b' = .halted)
  · apply ends_bind (R := fun b' _ => b' = .started m.id rest)
    · apply ask_ends (o := .startUp m.id) ⟨rest, rfl⟩
      · intro a b' hb'
        exact (Option.some.inj hb').symm
      · intro e b' hb'
        cases hb'
    rintro _ _ rfl
    apply ends_bind (R := fun b' _ => b' = .ended m.id rest)
    · apply ask_ends (o := .awaitUp m.id _) ⟨rest, rfl⟩
      · intro a b' hb'
        exact (Option.some.inj hb').symm
      · intro e b' hb'
        exact (Option.some.inj hb').symm
    rintro _ _ rfl
    apply ends_bind now_ends
    rintro _ t rfl
    apply ends_bind (R := fun b' _ => b' = .ready rest)
    · apply ask_ends (o := .recordApplied _) ⟨rest, rfl⟩
      · intro a b' hb'
        exact (Option.some.inj hb').symm
      · intro e b' hb'
        exact (Option.some.inj hb').symm
    rintro _ _ rfl
    exact ends_pure rfl
  · rintro _ e rfl
    exact ends_pure rfl

/-- The pass has gone through what is pending, or has halted. -/
def Through (b : Phase) : Prop := b = .halted ∨ ∃ rest, b = .ready rest

theorem applyPending_ends {pending : ℕ} (ms : List Migration) (applied : ℕ)
    (outcomes : List MigrationOutcome) (hb : b = .ready (ms.map Migration.id)) :
    Follows (discipline reg) (Ends (fun b' _ => Through b') Through)
      (applyPending reg pending ms applied outcomes).run b := by
  induction ms generalizing applied outcomes b with
  | nil => exact ends_pure (.inr ⟨_, hb⟩)
  | cons m ms ih =>
    unfold applyPending
    apply ends_bind now_ends
    rintro _ t0 rfl
    apply ends_bind (applyOne_ends hb)
    intro b' result hb'
    cases result with
    | ok durationMs => exact ih _ _ hb'
    | error err =>
      apply ends_bind now_ends
      rintro _ t rfl
      exact ends_pure (.inl hb')

theorem ids_filter (rows : List (String × String)) :
    reg.ids.filter (fun id => !(rows.map Prod.fst).contains id) =
      (pendingOf reg rows).map Migration.id := by
  unfold Registry.ids pendingOf
  rw [List.filter_map]
  rfl

theorem lockedPass_ends :
    Follows (discipline reg) (Ends (fun b' _ => Through b') Through) (lockedPass reg).run .locked := by
  unfold lockedPass
  apply ends_bind (R := fun b' rows => b' = .ready ((pendingOf reg rows).map Migration.id))
  · apply ask_ends (o := .listApplied) rfl
    · intro rows b' hb'
      rw [← ids_filter]
      exact (Option.some.inj hb').symm
    · intro e b' hb'
      exact .inl (Option.some.inj hb').symm
  · intro b' rows hb'
    exact applyPending_ends _ _ _ hb'

theorem unlock_ends (hb : Through b) :
    Follows (discipline reg) (Ends (fun _ _ => True) fun _ => True) (unlock).run b := by
  unfold unlock
  apply ends_tryCatch (Y := fun b' => b' = b)
  · apply ask_ends (o := .unlock) hb
    · intro _ _ _
      trivial
    · intro e b' hb'
      exact (Option.some.inj hb').symm
  · rintro _ e rfl
    apply ask_ends (o := .destroyClient) hb
    · intro _ _ _
      trivial
    · intro _ _ _
      trivial

theorem assertUniqueIds_ends (ms : List Migration) :
    Follows (discipline reg) (Ends (fun b' _ => b' = b) fun _ => True) (assertUniqueIds ms).run b := by
  induction ms with
  | nil => exact ends_pure rfl
  | cons m ms ih =>
    unfold assertUniqueIds
    by_cases hm : m.id ∈ ms.map Migration.id
    · rw [if_pos hm]
      trivial
    · rw [if_neg hm]
      exact ih

theorem withLock_ends :
    Follows (discipline reg) (Ends (fun _ _ => True) fun _ => True) (withLock (lockedPass reg)).run
      .idle := by
  unfold withLock
  apply ends_bind (R := fun b' ok => ok = true → b' = .locked)
  · apply ask_ends (o := .tryLock) rfl
    · rintro _ b' hb' rfl
      exact (Option.some.inj hb').symm
    · intro _ _ _
      trivial
  intro b' ok hok
  cases ok with
  | false => exact ends_pure trivial
  | true =>
    cases hok rfl
    apply ends_bind (R := fun b' _ => Through b')
    · apply ends_tryCatch (Y := Through) lockedPass_ends
      intro b' e hb'
      apply ends_bind (unlock_ends hb')
      intro _ _ _
      trivial
    · intro b' result hb'
      apply ends_bind (unlock_ends hb')
      intro _ _ _
      exact ends_pure trivial

theorem program_follows (kind : Request) :
    Follows (discipline reg) (Ends (fun _ _ => True) fun _ => True) (program reg kind) .idle := by
  cases kind with
  | pass skip =>
    change Follows _ _ (runPlatformMigrations reg skip).run _
    unfold runPlatformMigrations
    cases skip with
    | true => exact ends_pure trivial
    | false =>
      apply ends_bind (assertUniqueIds_ends _)
      rintro _ - rfl
      apply ends_bind withLock_ends
      intro _ found _
      cases found with
      | none => exact ends_pure trivial
      | some result => exact ends_pure trivial
  | ending pass =>
    apply ends_bind (R := fun _ _ => True)
    · apply ask_ends (o := .settleUp pass) trivial
      · intro _ _ _
        trivial
      · intro _ _ _
        trivial
    · intro _ _ _
      exact ends_pure trivial

end Follows

/-! ## One pass at a time -/

def Phase.Remains (ids recorded : List String) : Phase → Prop
  | .ready rest => recorded ++ rest = ids
  | .started id rest => recorded ++ id :: rest = ids
  | .ended id rest => recorded ++ id :: rest = ids
  | _ => True

structure Sane (reg : Registry) (w : World) : Prop where
  recorded : w.cluster.recorded <+: reg.ids
  lock : ∀ i, (w.phase i).Holds ↔ w.cluster.lock = some i
  remains : ∀ i, (w.phase i).Remains reg.ids w.cluster.recorded
  awaited : ∀ i id, w.cluster.ups i = some { id := id, awaited := true } →
    ∃ rest, w.phase i = .started id rest
  failed : ∀ i, w.failed i = true → w.phase i = .halted ∨ w.phase i = .released

theorem remains_of_not_holds {b : Phase} {ids recorded : List String} (hb : ¬ b.Holds) :
    b.Remains ids recorded := by
  cases b with
  | ready rest => exact (hb trivial).elim
  | started id rest => exact (hb trivial).elim
  | ended id rest => exact (hb trivial).elim
  | _ => trivial

section Step

variable {reg : Registry} {w w' : World} {i : ℕ} {b : Phase} {c : Cluster} {f : ℕ → Bool}
  {rec : AppliedMigrationRecord} {ids rest recorded : List String} {id : String}

theorem not_holds_of_ne (h : Sane reg w) (hi : (w.phase i).Holds) (j : ℕ) (hj : j ≠ i) :
    ¬ (w.phase j).Holds := by
  intro hholds
  have heq := ((h.lock j).mp hholds).symm.trans ((h.lock i).mp hi)
  exact hj (Option.some.inj heq)

/-- One pass moves; what is recorded changes only if it holds the lock. -/
theorem sane_of (h : Sane reg w) (hrecorded : c.recorded <+: reg.ids)
    (hothers : (w.phase i).Holds ∨ c.recorded = w.cluster.recorded)
    (hlock : ∀ j, j ≠ i → (c.lock = some j ↔ w.cluster.lock = some j))
    (hown : b.Holds ↔ c.lock = some i) (hremains : b.Remains reg.ids c.recorded)
    (hups : ∀ j, j ≠ i → ∀ id, c.ups j = some { id := id, awaited := true } →
      w.cluster.ups j = some { id := id, awaited := true })
    (hawaited : ∀ id, c.ups i = some { id := id, awaited := true } → ∃ rest, b = .started id rest)
    (hfailed : ∀ j, f j = true → w.failed j = true ∨ j = i ∧ b = .halted)
    (hkept : w.failed i = true → b = .halted ∨ b = .released) :
    Sane reg { cluster := c, phase := Function.update w.phase i b, failed := f } := by
  refine ⟨hrecorded, ?_, ?_, ?_, ?_⟩
  · intro j
    change (Function.update w.phase i b j).Holds ↔ c.lock = some j
    by_cases hj : j = i
    · subst hj
      rw [Function.update_self]
      exact hown
    · rw [Function.update_of_ne hj, hlock j hj]
      exact h.lock j
  · intro j
    change (Function.update w.phase i b j).Remains reg.ids c.recorded
    by_cases hj : j = i
    · subst hj
      rw [Function.update_self]
      exact hremains
    · rw [Function.update_of_ne hj]
      rcases hothers with hholds | hsame
      · exact remains_of_not_holds (not_holds_of_ne h hholds j hj)
      · rw [hsame]
        exact h.remains j
  · intro j id hup
    change ∃ rest, Function.update w.phase i b j = .started id rest
    by_cases hj : j = i
    · subst hj
      rw [Function.update_self]
      exact hawaited id hup
    · rw [Function.update_of_ne hj]
      exact h.awaited j id (hups j hj id hup)
  · intro j hfail
    change Function.update w.phase i b j = .halted ∨ Function.update w.phase i b j = .released
    by_cases hj : j = i
    · subst hj
      rw [Function.update_self]
      rcases hfailed j hfail with hold | ⟨-, hhalted⟩
      · exact hkept hold
      · exact .inl hhalted
    · rw [Function.update_of_ne hj]
      rcases hfailed j hfail with hold | ⟨heq, -⟩
      · exact h.failed j hold
      · exact (hj heq).elim

theorem handle_eq_some {o : Op} {r : Ans o} (hw : w.handle reg i o r = some w') :
    ∃ b c, (w.phase i).next reg.ids o r = some b ∧ w.cluster.answer i o r = some c ∧
      w' = { cluster := c, phase := Function.update w.phase i b
             failed := if fails o r then Function.update w.failed i true else w.failed } := by
  obtain ⟨b, hb, hanswer⟩ := Option.bind_eq_some_iff.mp hw
  obtain ⟨c, hc, heq⟩ := Option.map_eq_some_iff.mp hanswer
  exact ⟨b, c, hb, hc, heq.symm⟩

theorem failed_of_update {j : ℕ} (hj : Function.update w.failed i true j = true) (hb : b = .halted) :
    w.failed j = true ∨ j = i ∧ b = .halted := by
  by_cases heq : j = i
  · exact .inr ⟨heq, hb⟩
  · rw [Function.update_of_ne heq] at hj
    exact .inl hj

/-- A pass in the middle of its work has not failed. -/
theorem not_failed (h : Sane reg w) (hhalted : w.phase i ≠ .halted)
    (hreleased : w.phase i ≠ .released) : w.failed i ≠ true := by
  intro hfail
  rcases h.failed i hfail with hphase | hphase
  · exact hhalted hphase
  · exact hreleased hphase

theorem recorded_record (hrec : rec.id ∉ c.recorded) :
    (c.record rec).recorded = c.recorded ++ [rec.id] := by
  unfold Cluster.record Cluster.recorded at *
  rw [if_neg hrec]
  simp

theorem record_prefix (h : recorded ++ id :: rest = ids) : recorded ++ [id] <+: ids := by
  rw [← h]
  exact ⟨rest, by simp⟩

theorem not_mem_recorded (hids : ids.Nodup) (h : recorded ++ id :: rest = ids) : id ∉ recorded := by
  intro hmem
  rw [← h] at hids
  exact (List.nodup_append.mp hids).2.2 id hmem id List.mem_cons_self rfl

/-- What is not among a first part of the registry is the rest of it. -/
theorem filter_recorded (hids : ids.Nodup) (h : recorded <+: ids) :
    recorded ++ ids.filter (fun id => !recorded.contains id) = ids := by
  obtain ⟨rest, rfl⟩ := h
  have hnot : ∀ id ∈ rest, id ∉ recorded := fun id hid hmem =>
    (List.nodup_append.mp hids).2.2 id hmem id hid rfl
  rw [List.filter_append]
  have hnone : recorded.filter (fun id => !recorded.contains id) = [] := by
    apply List.filter_eq_nil_iff.mpr
    intro id hid
    simpa using hid
  have hall : rest.filter (fun id => !recorded.contains id) = rest := by
    apply List.filter_eq_self.mpr
    intro id hid
    simpa using hnot id hid
  rw [hnone, hall, List.nil_append]

/-- An `up()` that nobody waits for ends. -/
theorem settle_eq_some {pass : ℕ} {d : Cluster} (hd : c.settle pass = some d) :
    d.rows = c.rows ∧ d.lock = c.lock ∧
      ∀ j id, d.ups j = some { id := id, awaited := true } →
        c.ups j = some { id := id, awaited := true } := by
  unfold Cluster.settle at hd
  split at hd
  · cases hd
    refine ⟨rfl, rfl, ?_⟩
    intro j id hup
    change Function.update c.ups pass none j = _ at hup
    by_cases hj : j = pass
    · rw [hj, Function.update_self] at hup
      cases hup
    · rwa [Function.update_of_ne hj] at hup
  · cases hd

theorem sane_still (h : Sane reg w) (hrows : c.rows = w.cluster.rows)
    (hlock : c.lock = w.cluster.lock)
    (hups : ∀ j id, c.ups j = some { id := id, awaited := true } →
      w.cluster.ups j = some { id := id, awaited := true }) :
    Sane reg { cluster := c, phase := Function.update w.phase i (w.phase i), failed := w.failed } := by
  have hrecorded : c.recorded = w.cluster.recorded :=
    congrArg (List.map AppliedMigrationRecord.id) hrows
  apply sane_of h
  · rw [hrecorded]
    exact h.recorded
  · exact .inr hrecorded
  · intro j _
    rw [hlock]
  · rw [hlock]
    exact h.lock i
  · rw [hrecorded]
    exact h.remains i
  · exact fun j _ => hups j
  · exact fun id hup => h.awaited i id (hups i id hup)
  · exact fun j hfail => .inl hfail
  · exact h.failed i

theorem sane_refused (h : Sane reg w) (hidle : w.phase i = .idle) :
    Sane reg { cluster := w.cluster, phase := Function.update w.phase i .released
               failed := w.failed } := by
  apply sane_of (c := w.cluster) (b := .released) h h.recorded (.inr rfl)
  · exact fun _ _ => Iff.rfl
  · constructor
    · intro hfalse
      exact hfalse.elim
    · intro hlock
      have hholds := (h.lock i).mpr hlock
      rw [hidle] at hholds
      exact hholds
  · trivial
  · exact fun _ _ _ hup => hup
  · intro id hup
    obtain ⟨rest, hphase⟩ := h.awaited i id hup
    rw [hidle] at hphase
    cases hphase
  · exact fun j hfail => .inl hfail
  · exact fun _ => .inr rfl

theorem sane_tryLock {ok : Bool} (h : Sane reg w) (hidle : w.phase i = .idle)
    (hok : ok = w.cluster.lock.isNone) : Sane reg
      { cluster := if ok then { w.cluster with lock := some i } else w.cluster
        phase := Function.update w.phase i (if ok then .locked else .released)
        failed := w.failed } := by
  have hfailed : w.failed i ≠ true :=
    not_failed h (by rw [hidle]; exact nofun) (by rw [hidle]; exact nofun)
  have hup : ∀ id, w.cluster.ups i ≠ some { id := id, awaited := true } := by
    intro id hup
    obtain ⟨rest, hphase⟩ := h.awaited i id hup
    rw [hidle] at hphase
    cases hphase
  cases ok with
  | true =>
    have hnone : w.cluster.lock = none := Option.isNone_iff_eq_none.mp hok.symm
    change Sane reg { cluster := { w.cluster with lock := some i }, phase := _, failed := _ }
    apply sane_of (c := { w.cluster with lock := some i }) (b := .locked) h h.recorded (.inr rfl)
    · intro j hj
      rw [hnone]
      constructor
      · intro heq
        exact (hj (Option.some.inj heq).symm).elim
      · intro heq
        cases heq
    · exact ⟨fun _ => rfl, fun _ => trivial⟩
    · trivial
    · exact fun _ _ _ hup => hup
    · exact fun id heq => (hup id heq).elim
    · exact fun j hfail => .inl hfail
    · exact fun hfail => (hfailed hfail).elim
  | false => exact sane_refused h hidle

theorem sane_onward (h : Sane reg w) (hholds : (w.phase i).Holds) (hb : b.Holds)
    (hremains : b.Remains reg.ids w.cluster.recorded) {up : Option Up}
    (hup : ∀ id, up = some { id := id, awaited := true } → ∃ rest, b = .started id rest)
    (hfailed : ∀ j, f j = true → w.failed j = true ∨ j = i ∧ b = .halted)
    (hkept : w.failed i = true → b = .halted ∨ b = .released) :
    Sane reg
      { cluster := w.cluster.setUp i up, phase := Function.update w.phase i b, failed := f } := by
  apply sane_of (c := w.cluster.setUp i up) (b := b) h h.recorded (.inl hholds)
  · exact fun _ _ => Iff.rfl
  · exact ⟨fun _ => (h.lock i).mp hholds, fun _ => hb⟩
  · exact hremains
  · intro j hj id heq
    change Function.update w.cluster.ups i up j = _ at heq
    rwa [Function.update_of_ne hj] at heq
  · intro id heq
    change Function.update w.cluster.ups i up i = _ at heq
    rw [Function.update_self] at heq
    exact hup id heq
  · exact hfailed
  · exact hkept

theorem sane_onward_same (h : Sane reg w) (hholds : (w.phase i).Holds)
    (hstarted : ∀ id rest, w.phase i ≠ .started id rest) (hb : b.Holds)
    (hremains : b.Remains reg.ids w.cluster.recorded)
    (hkept : w.failed i = true → b = .halted ∨ b = .released) :
    Sane reg { cluster := w.cluster, phase := Function.update w.phase i b, failed := w.failed } := by
  have hsame : w.cluster = w.cluster.setUp i (w.cluster.ups i) := by
    unfold Cluster.setUp
    rw [Function.update_eq_self]
  rw [hsame]
  apply sane_onward h hholds hb hremains
  · intro id hup
    obtain ⟨rest, hphase⟩ := h.awaited i id hup
    exact (hstarted id rest hphase).elim
  · exact fun j hfail => .inl hfail
  · exact hkept

theorem sane_record (hids : reg.ids.Nodup) (h : Sane reg w)
    (hphase : w.phase i = .ended rec.id rest) (hb : b = .ready rest ∨ b = .halted)
    (hfailed : ∀ j, f j = true → w.failed j = true ∨ j = i ∧ b = .halted) : Sane reg
      { cluster := w.cluster.record rec, phase := Function.update w.phase i b, failed := f } := by
  have hremains := h.remains i
  rw [hphase] at hremains
  have hrecorded := recorded_record (not_mem_recorded hids hremains)
  have hholds : (w.phase i).Holds := by
    rw [hphase]
    trivial
  have hnot := not_failed h (i := i) (by rw [hphase]; exact nofun) (by rw [hphase]; exact nofun)
  apply sane_of h
  · rw [hrecorded]
    exact record_prefix hremains
  · exact .inl hholds
  · exact fun _ _ => Iff.rfl
  · constructor
    · exact fun _ => (h.lock i).mp hholds
    · intro _
      rcases hb with rfl | rfl
      · trivial
      · trivial
  · rcases hb with rfl | rfl
    · change (w.cluster.record rec).recorded ++ rest = reg.ids
      rw [hrecorded, List.append_assoc]
      exact hremains
    · trivial
  · exact fun _ _ _ hup => hup
  · intro id hup
    obtain ⟨rest', hstarted⟩ := h.awaited i id hup
    rw [hphase] at hstarted
    cases hstarted
  · exact hfailed
  · exact fun hfail => (hnot hfail).elim

theorem lock_released : (c.released i).lock ≠ some i := by
  unfold Cluster.released
  dsimp only
  split
  · simp
  · assumption

theorem lock_released_of_ne {j : ℕ} (hj : j ≠ i) :
    (c.released i).lock = some j ↔ c.lock = some j := by
  unfold Cluster.released
  dsimp only
  split
  next hlock =>
    rw [hlock]
    constructor
    · intro heq
      cases heq
    · intro heq
      exact (hj (Option.some.inj heq).symm).elim
  next => rfl

theorem sane_sessionEnds (h : Sane reg w) : Sane reg (w.sessionEnds i) := by
  apply sane_of (c := w.cluster.sessionEnds i) (b := .released) h h.recorded (.inr rfl)
  · exact fun j hj => lock_released_of_ne hj
  · exact ⟨False.elim, lock_released⟩
  · trivial
  · intro j hj id hup
    rwa [show (w.cluster.sessionEnds i).ups j = w.cluster.ups j from Function.update_of_ne hj _ _]
      at hup
  · intro id hup
    rw [show (w.cluster.sessionEnds i).ups i = (w.cluster.ups i).map _ from
      Function.update_self _ _ _] at hup
    obtain ⟨up, -, hawaited⟩ := Option.map_eq_some_iff.mp hup
    cases hawaited
  · exact fun j hfail => .inl hfail
  · exact fun _ => .inr rfl

theorem sane_release (h : Sane reg w) (hthrough : Through (w.phase i)) : Sane reg
      { cluster := w.cluster.released i, phase := Function.update w.phase i .released
        failed := w.failed } := by
  have hholds : (w.phase i).Holds := by
    rcases hthrough with hphase | ⟨rest, hphase⟩
    · rw [hphase]
      trivial
    · rw [hphase]
      trivial
  apply sane_of (c := w.cluster.released i) (b := .released) h h.recorded (.inl hholds)
  · exact fun j hj => lock_released_of_ne hj
  · exact ⟨False.elim, lock_released⟩
  · trivial
  · exact fun _ _ _ hup => hup
  · intro id hup
    obtain ⟨rest, hstarted⟩ := h.awaited i id hup
    rcases hthrough with hphase | ⟨rest', hphase⟩
    · rw [hphase] at hstarted
      cases hstarted
    · rw [hphase] at hstarted
      cases hstarted
  · exact fun j hfail => .inl hfail
  · exact fun _ => .inr rfl

theorem sane_same (h : Sane reg w) :
    Sane reg { cluster := w.cluster, phase := Function.update w.phase i (w.phase i)
               failed := w.failed } :=
  sane_still h rfl rfl fun _ _ hup => hup

theorem sane_listApplied {r : Ans .listApplied} (hids : reg.ids.Nodup) (h : Sane reg w)
    (hlocked : w.phase i = .locked) (hb : (w.phase i).next reg.ids .listApplied r = some b)
    (hc : w.cluster.answer i .listApplied r = some c) :
    Sane reg { cluster := c, phase := Function.update w.phase i b, failed := w.failed } := by
  have hholds : (w.phase i).Holds := by
    rw [hlocked]
    trivial
  have hstarted : ∀ id rest, w.phase i ≠ .started id rest := by
    intro id rest heq
    rw [hlocked] at heq
    cases heq
  have hnot := not_failed h (i := i) (by rw [hlocked]; exact nofun) (by rw [hlocked]; exact nofun)
  cases r with
  | ok rows =>
    obtain ⟨hrows, hsame⟩ := Option.ite_none_right_eq_some.mp hc
    cases hsame
    cases hb
    apply sane_onward_same (b := .ready _) h hholds hstarted trivial
    · change w.cluster.recorded ++ _ = reg.ids
      have hnames : rows.map Prod.fst = w.cluster.recorded := by
        rw [hrows, List.map_map]
        rfl
      rw [hnames]
      exact filter_recorded hids h.recorded
    · exact fun hfail => (hnot hfail).elim
  | error e =>
    cases hc
    cases hb
    apply sane_onward_same (b := .halted) h hholds hstarted trivial trivial
    exact fun _ => .inl rfl

theorem sane_startUp (h : Sane reg w) (hready : w.phase i = .ready (id :: rest)) : Sane reg
      { cluster := w.cluster.setUp i (some { id := id, awaited := true })
        phase := Function.update w.phase i (.started id rest), failed := w.failed } := by
  have hremains := h.remains i
  rw [hready] at hremains
  have hnot := not_failed h (i := i) (by rw [hready]; exact nofun) (by rw [hready]; exact nofun)
  apply sane_onward (b := .started id rest) h _ trivial hremains
  · intro id' heq
    cases heq
    exact ⟨rest, rfl⟩
  · exact fun j hfail => .inl hfail
  · exact fun hfail => (hnot hfail).elim
  · rw [hready]
    trivial

/-- The waiting for an `up()` ends: it has succeeded, it has failed, or it goes on alone. -/
theorem sane_awaitUp {timeoutMs : ℕ} {r : Ans (.awaitUp id timeoutMs)} (h : Sane reg w)
    (hstarted : w.phase i = .started id rest)
    (hb : (w.phase i).next reg.ids (.awaitUp id timeoutMs) r = some b)
    (hc : w.cluster.answer i (.awaitUp id timeoutMs) r = some c) : Sane reg
      { cluster := c, phase := Function.update w.phase i b
        failed := if fails (.awaitUp id timeoutMs) r then Function.update w.failed i true
                  else w.failed } := by
  have hremains := h.remains i
  rw [hstarted] at hremains
  have hnot := not_failed h (i := i) (by rw [hstarted]; exact nofun) (by rw [hstarted]; exact nofun)
  have hholds : (w.phase i).Holds := by
    rw [hstarted]
    trivial
  cases r with
  | ok _ =>
    have hb' : b = .ended id rest := by
      rw [hstarted] at hb
      exact (Option.some.inj hb).symm
    subst hb'
    cases hc
    apply sane_onward (b := .ended id rest) h hholds trivial hremains
    · exact nofun
    · exact fun j hfail => .inl hfail
    · exact fun hfail => (hnot hfail).elim
  | error e =>
    have hb' : b = .halted := (Option.some.inj hb).symm
    subst hb'
    have hup : ∃ up, c = w.cluster.setUp i up ∧
        ∀ id', up ≠ some { id := id', awaited := true } := by
      cases e with
      | error message effected =>
        exact ⟨none, (Option.some.inj hc).symm, nofun⟩
      | exceeded id' timeoutMs' =>
        obtain ⟨-, heq⟩ := Option.ite_none_left_eq_some.mp hc
        refine ⟨_, (Option.some.inj heq).symm, ?_⟩
        intro id' hsame
        cases hsame
    obtain ⟨up, rfl, hup⟩ := hup
    apply sane_onward (b := .halted) h hholds trivial trivial
    · exact fun id' heq => (hup id' heq).elim
    · exact fun j hfail => failed_of_update hfail rfl
    · exact fun _ => .inl rfl

theorem sane_recordApplied {r : Ans (.recordApplied rec)} (hids : reg.ids.Nodup) (h : Sane reg w)
    (hended : w.phase i = .ended rec.id rest)
    (hb : (w.phase i).next reg.ids (.recordApplied rec) r = some b)
    (hc : w.cluster.answer i (.recordApplied rec) r = some c) : Sane reg
      { cluster := c, phase := Function.update w.phase i b
        failed := if fails (.recordApplied rec) r then Function.update w.failed i true
                  else w.failed } := by
  cases r with
  | ok _ =>
    have hb' : b = .ready rest := by
      rw [hended] at hb
      exact (Option.some.inj hb).symm
    cases hc
    exact sane_record hids h hended (.inl hb') fun j hfail => .inl hfail
  | error e =>
    have hb' : b = .halted := (Option.some.inj hb).symm
    have hfailed : ∀ j, Function.update w.failed i true j = true →
        w.failed j = true ∨ j = i ∧ b = .halted := fun j hfail => failed_of_update hfail hb'
    cases e with
    | error message effected =>
      cases effected with
      | true =>
        cases hc
        exact sane_record hids h hended (.inr hb') hfailed
      | false =>
        have hc' : c = w.cluster.setUp i (w.cluster.ups i) := by
          unfold Cluster.setUp
          rw [Function.update_eq_self]
          exact (Option.some.inj hc).symm
        subst hb' hc'
        apply sane_onward (b := .halted) h _ trivial trivial _ hfailed
        · exact fun _ => .inl rfl
        · rw [hended]
          trivial
        · intro id hup
          obtain ⟨rest', hstarted⟩ := h.awaited i id hup
          rw [hended] at hstarted
          cases hstarted
    | exceeded id timeoutMs => cases hc

/-- What a pass is allowed to do keeps the invariant, one case for each operation. -/
theorem sane_handle {o : Op} {r : Ans o} (hids : reg.ids.Nodup) (h : Sane reg w)
    (hallowed : Allowed (w.phase i) o) (hw : w.handle reg i o r = some w') : Sane reg w' := by
  obtain ⟨b, c, hb, hc, rfl⟩ := handle_eq_some hw
  cases o with
  | now =>
    cases r with
    | ok t =>
      cases hb
      cases hc
      exact sane_same h
    | error e => cases hb
  | tryLock =>
    cases r with
    | ok ok =>
      obtain ⟨hok, hc'⟩ := Option.ite_none_right_eq_some.mp hc
      cases hb
      cases hc'
      exact sane_tryLock h hallowed hok
    | error e =>
      cases hb
      cases hc
      exact sane_refused h hallowed
  | unlock =>
    cases r with
    | ok _ =>
      cases hb
      cases hc
      exact sane_release h hallowed
    | error e =>
      cases hb
      cases hc
      exact sane_same h
  | destroyClient =>
    cases r with
    | ok _ =>
      cases hb
      cases hc
      exact sane_release h hallowed
    | error e => cases hb
  | listApplied =>
    have hfails : fails .listApplied r = false := by
      cases r with
      | ok _ => rfl
      | error _ => rfl
    rw [hfails]
    exact sane_listApplied hids h hallowed hb hc
  | startUp id =>
    obtain ⟨rest, hready⟩ := hallowed
    cases r with
    | ok _ =>
      rw [hready] at hb
      cases hb
      cases hc
      exact sane_startUp h hready
    | error e => cases hb
  | awaitUp id timeoutMs =>
    obtain ⟨rest, hstarted⟩ := hallowed
    exact sane_awaitUp h hstarted hb hc
  | recordApplied rec =>
    obtain ⟨rest, hended⟩ := hallowed
    exact sane_recordApplied hids h hended hb hc
  | settleUp pass =>
    cases r with
    | ok _ =>
      cases hb
      obtain ⟨hrows, hlock, hups⟩ := settle_eq_some hc
      exact sane_still h hrows hlock hups
    | error e => cases hb

end Step

/-! ## Runs -/

section Run

variable {reg : Registry} {s t : State} {e : Step}

/-- What is recorded is a first part of the registry in the order of the ids, and passes wait for an
`up()` one at a time. -/
structure InOrder (reg : Registry) (w : World) : Prop where
  recorded : w.cluster.recorded <+: reg.ids
  awaits : ∀ i j id id', w.cluster.ups i = some { id := id, awaited := true } →
    w.cluster.ups j = some { id := id', awaited := true } → i = j

def StartsOnce (s : State) (e : Step) (_ : State) : Prop :=
  ∀ i id r, e = .ofEvent (.act i (.startUp id) r) → id ∉ s.world.cluster.recorded ∧
  s.world.failed i = false

def Good (reg : Registry) (s : State) : Prop :=
  Holds (Fresh World.phase .idle)
    (OnCourse (fun _ => discipline reg) World.phase (Ends (fun _ _ => True) fun _ => True)) s ∧
    Sane reg s.world

theorem handle_moves :
    MovesStages (fun _ : Request => discipline reg) World.phase (World.handle reg) := by
  intro kind w i o r w' h
  obtain ⟨b, c, hb, -, rfl⟩ := handle_eq_some h
  exact ⟨b, hb, rfl⟩

theorem good_of_start (h : Start reg s) : Good reg s := by
  refine ⟨holds_of_start h.procs h.idle, h.recorded, ?_, ?_, ?_, ?_⟩
  · intro i
    rw [h.idle i, h.lock]
    constructor
    · intro hfalse
      exact hfalse.elim
    · intro heq
      cases heq
  · intro i
    rw [h.idle i]
    trivial
  · intro i id hup
    rw [h.ups i] at hup
    cases hup
  · intro i hfail
    rw [h.failed i] at hfail
    cases hfail

theorem good_sessionEnds (h : Good reg s) {i : ℕ} {kind : Request}
    (hi : s.procs[i]? = some ⟨kind, none⟩) :
    Good reg { s with world := s.world.sessionEnds i } := by
  refine ⟨⟨?_, ?_⟩, sane_sessionEnds h.2⟩
  · intro j hj
    have hlt := Lookup.lt_length_of_getElem? hi
    have hne : j ≠ i := fun heq => absurd hlt (Nat.not_lt.mpr (heq ▸ hj))
    exact (Function.update_of_ne hne _ _).trans (h.1.1 j hj)
  · intro j kind' p hj
    have hne : j ≠ i := by
      rintro rfl
      rw [hi] at hj
      cases hj
    have hsame : (s.world.sessionEnds i).phase j = s.world.phase j := Function.update_of_ne hne _ _
    unfold OnCourse
    rw [hsame]
    exact h.1.2 j kind' p hj

theorem good_step (hids : reg.ids.Nodup) (h : Good reg s) (hs : step reg s e = some t) :
    Good reg t := by
  cases e with
  | ofEvent e =>
    refine ⟨onCourse_step handle_moves program_follows h.1 hs, ?_⟩
    rcases allowed_step h.1 hs with hsame | ⟨i, o, r, kind, next, -, -, hallowed, hw⟩
    · rw [hsame]
      exact h.2
    · exact sane_handle hids h.2 hallowed hw
  | sessionEnds i =>
    simp only [step] at hs
    split at hs
    next kind hi =>
      cases hs
      exact good_sessionEnds h hi
    next => cases hs

theorem starts_step (hids : reg.ids.Nodup) (h : Good reg s) (hs : step reg s e = some t) :
    StartsOnce s e t := by
  rintro i id r rfl
  have hact : Concurrent.step (program reg) (World.handle reg) s (.act i (.startUp id) r) = some t :=
    hs
  rcases step_cases _ _ hact with ⟨kind, he, -⟩ | ⟨i', o, r', kind, next, w, he, hi, hw, -⟩ |
    ⟨i', o, kind, next, he, -, -⟩
  · cases he
  · cases he
    obtain ⟨rest, hready⟩ := (h.1.2 i kind _ hi).1
    have hremains := h.2.remains i
    rw [hready] at hremains
    refine ⟨not_mem_recorded hids hremains, ?_⟩
    have hnot := not_failed h.2 (i := i) (by rw [hready]; exact nofun) (by rw [hready]; exact nofun)
    exact Bool.eq_false_iff.mpr hnot
  · cases he

theorem inOrder_of_good (h : Good reg s) : InOrder reg s.world where
  recorded := h.2.recorded
  awaits := by
    intro i j id id' hi hj
    obtain ⟨rest, hstarted⟩ := h.2.awaited i id hi
    obtain ⟨rest', hstarted'⟩ := h.2.awaited j id' hj
    by_contra hne
    apply not_holds_of_ne h.2 (i := i) _ j fun heq => hne heq.symm
    · rw [hstarted']
      trivial
    · rw [hstarted]
      trivial

theorem nodup_ids (hids : (reg.migrations.map Migration.id).Nodup) : reg.ids.Nodup :=
  ((List.perm_insertionSort _ reg.migrations).map Migration.id).nodup_iff.mpr hids

/-- In every run of any number of passes, what is recorded is a first part of the registry, nothing
is started that is recorded or that comes after a failure in its pass, and passes wait for an `up()`
one at a time. -/
theorem migrations_apply_in_order (reg : Registry) {s t : State} {es : List Step}
    (hids : (reg.migrations.map Migration.id).Nodup) (h : Start reg s)
    (hexec : exec (step reg) s es = some t) :
    InOrder reg t.world ∧ Along (step reg) StartsOnce s es := by
  have hnodup := nodup_ids hids
  constructor
  · exact inOrder_of_good
      (exec_invariant _ (fun _ _ _ hgood hs => good_step hnodup hgood hs) (good_of_start h) hexec)
  · exact along_of_invariant _ (fun _ _ _ hgood hs => good_step hnodup hgood hs)
      (fun _ _ _ hgood hs => starts_step hnodup hgood hs) (good_of_start h)

end Run

/-! ## Samples -/

def backfill : Migration where
  id := "0001-backfill"
  version := "1.2.0"
  description := "fills a column"

def cleanup : Migration where
  id := "0002-cleanup"
  version := "1.2.0"
  description := "drops a column"

def registry : Registry where
  migrations := [cleanup, backfill]
  le a b := a ≤ b
  checksum m := m.description
  timeoutMs := 60000

def blank : State where
  world :=
    { cluster := { rows := [], lock := none, ups := fun _ => none }
      phase := fun _ => .idle
      failed := fun _ => false }
  procs := []

theorem start_blank : Start registry blank where
  procs := rfl
  idle _ := rfl
  failed _ := rfl
  ups _ := rfl
  lock := rfl
  recorded := List.nil_prefix

def acts (i : ℕ) (calls : List ((o : Op) × Ans o)) : List Step :=
  calls.map fun c => .ofEvent (.act i c.1 c.2)

/-- The pass `i` takes the lock, finds nothing recorded and starts the first migration. -/
def starting (i : ℕ) : List Step :=
  .ofEvent (.spawn (.pass false)) :: acts i
    [⟨.tryLock, .ok true⟩, ⟨.listApplied, .ok []⟩, ⟨.now, .ok 0⟩,
     ⟨.startUp "0001-backfill", .ok ()⟩]

/-- The migration that runs has ended after seven milliseconds. -/
def recording (i : ℕ) (m : Migration) : List Step :=
  acts i
    [⟨.awaitUp m.id 60000, .ok ()⟩, ⟨.now, .ok 7⟩,
     ⟨.recordApplied { id := m.id, version := m.version, checksum := m.description, durationMs := 7 },
       .ok ()⟩]

/-- A pass crashes in the second migration; the next gets the lock once its session has ended. -/
def recovering : List Step :=
  starting 0 ++ recording 0 backfill ++
    acts 0 [⟨.now, .ok 0⟩, ⟨.startUp "0002-cleanup", .ok ()⟩] ++
    [.ofEvent (.crash 0), .ofEvent (.spawn (.pass false))] ++ acts 1 [⟨.tryLock, .ok false⟩] ++
    [.sessionEnds 0, .ofEvent (.spawn (.pass false))] ++
    acts 2 [⟨.tryLock, .ok true⟩, ⟨.listApplied, .ok [("0001-backfill", "fills a column")]⟩,
      ⟨.now, .ok 0⟩, ⟨.startUp "0002-cleanup", .ok ()⟩] ++
    recording 2 cleanup ++ acts 2 [⟨.unlock, .ok ()⟩]

def abandoning : List Step :=
  starting 0 ++ acts 0
    [⟨.awaitUp "0001-backfill" 60000, .error (.exceeded "0001-backfill" 60000)⟩,
     ⟨.now, .ok 60000⟩, ⟨.unlock, .ok ()⟩]

theorem two_passes_apply_in_order :
    ∃ t, exec (step registry) blank recovering = some t ∧
      t.world.cluster.recorded = ["0001-backfill", "0002-cleanup"] ∧ InOrder registry t.world ∧
      Along (step registry) StartsOnce blank recovering := by
  have hrun : (exec (step registry) blank recovering).map (fun t => t.world.cluster.recorded) =
      some ["0001-backfill", "0002-cleanup"] := by
    decide +kernel
  obtain ⟨t, ht, hrecorded⟩ := Option.map_eq_some_iff.mp hrun
  exact ⟨t, ht, hrecorded, migrations_apply_in_order registry (by decide) start_blank ht⟩

/-- An `up()` that has exceeded its limit goes on while the next pass starts it again. -/
theorem abandoned_up_goes_on : ¬ ∀ (reg : Registry) (s t : State) (es : List Step),
    (reg.migrations.map Migration.id).Nodup → Start reg s → exec (step reg) s es = some t →
    ∀ i j up up', t.world.cluster.ups i = some up → t.world.cluster.ups j = some up' → i = j := by
  intro h
  have hrun : (exec (step registry) blank (abandoning ++ starting 1)).map
      (fun t => (t.world.cluster.ups 0, t.world.cluster.ups 1)) =
      some (some { id := "0001-backfill", awaited := false },
        some { id := "0001-backfill", awaited := true }) := by
    decide +kernel
  obtain ⟨t, ht, hups⟩ := Option.map_eq_some_iff.mp hrun
  obtain ⟨hfirst, hsecond⟩ := Prod.ext_iff.mp hups
  have hsame := h registry blank t _ (by decide) start_blank ht 0 1 _ _ hfirst hsecond
  exact absurd hsame (by decide)

end Insula.PlatformMigrations
