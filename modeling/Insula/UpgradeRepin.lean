import Insula.UpgradeMonotone

/-!
# Re-pins belong to a live run

A tick re-pins the services on the strength of what it last saw of the row: the copy it read, or the
step it claimed. Nothing is checked again in between, so the re-pin is for a live run as long as
nobody else moves or ends the run meanwhile.
-/

namespace Insula.PlatformUpgrade

open Transition Lookup Concurrent
open Program hiding pure bind

def Op.seesRow : Op → Bool
  | .getActiveRun | .transitionRun _ _ _ => true
  | _ => false

/-- The call may yet re-pin the services for run `r` without looking at the row again. -/
def MayRepin {α : Type} (r : ℕ) : Call α → Prop
  | .pure _ => False
  | .call o next => o = .startServices r ∨ (o.seesRow = false ∧ ∃ a, MayRepin r (next a))

def InServices (r : ℕ) (w : World) : Prop :=
  ∃ row, w.rows[r]? = some row ∧ row.status = .running ∧ row.step = .updateServices

/-- Nobody moves or ends run `r` while another call may yet re-pin the services for it. -/
def Undisturbed (r : ℕ) (s : Config) (e : Event) (_ : Config) : Prop :=
  ∀ i fromStep patch, e = .act i (.transitionRun r fromStep patch) true →
    ∀ (j : ℕ) (kind : Kind) (p : Call Result), j ≠ i →
      s.procs[j]? = some ⟨kind, some p⟩ → ¬ MayRepin r p

variable {r i : ℕ} {w w' : World} {b b' : Knowledge} {o : Op} {a : Ans o}

theorem orderly_next_services (ho : o.seesRow = false) (h : orderly.next b o a = some b') :
    b'.services = b.services := by
  cases o with
  | getActiveRun => cases ho
  | transitionRun run fromStep patch => cases ho
  | finalize run status message =>
    cases hst : b.standing <;> simp only [orderly, hst, Option.some.injEq] at h <;> subst h <;> rfl
  | _ =>
    cases h
    rfl

theorem inServices_iff :
    InServices r w ↔ ∃ kv, w.place r = some (.running, .updateServices, kv) := by
  constructor
  · rintro ⟨row, hrow, hst, hstep⟩
    exact ⟨row.kubernetesVersion, place_eq_some.mpr ⟨row, hrow, by rw [hst, hstep]⟩⟩
  · rintro ⟨kv, hkv⟩
    obtain ⟨row, hrow, heq⟩ := place_eq_some.mp hkv
    simp only [Prod.mk.injEq] at heq
    exact ⟨row, hrow, heq.1, heq.2.1⟩

theorem inServices_handle (h : InServices r w) (hw : handle w i o a = some w')
    (ho : ∀ fromStep patch, o = .transitionRun r fromStep patch → ¬ HEq a true) :
    InServices r w' := by
  obtain ⟨kv, hkv⟩ := inServices_iff.mp h
  rcases place_handle hw r with heq | ⟨fromStep, patch, rfl, ha⟩ | ⟨input, row, rfl, ha⟩
  · exact inServices_iff.mpr ⟨kv, heq.trans hkv⟩
  · exact absurd ha (ho fromStep patch rfl)
  · cases eq_of_heq ha
    rw [(place_createRun hw).1] at hkv
    cases hkv

/-- What a call sees, or puts, in the services step is there. -/
theorem inServices_of_seen (ho : o.seesRow = true) (hw : handle w i o a = some w')
    (hnext : orderly.next b o a = some b') (hb' : b'.services = some r) : InServices r w' := by
  cases o with
  | getActiveRun =>
    obtain ⟨ha, rfl⟩ := handle_getActiveRun hw
    cases a with
    | none =>
      cases hnext
      cases hb'
    | some p =>
      obtain ⟨run, row⟩ := p
      simp only [orderly, Option.some.injEq] at hnext
      subst hnext
      simp only at hb'
      split_ifs at hb' with hstep
      cases hb'
      obtain ⟨hrow, hst⟩ := activeRun_eq_some ha.symm
      exact ⟨row, hrow, hst, hstep⟩
  | transitionRun run fromStep patch =>
    cases a with
    | false =>
      cases hnext
      cases hb'
    | true =>
      obtain ⟨row, hrow, hmeets, rfl⟩ := handle_transition_true hw
      cases hst : patch.status with
      | some st =>
        simp only [orderly, hst, Option.some.injEq] at hnext
        subst hnext
        cases hb'
      | none =>
        simp only [orderly, hst, Option.some.injEq] at hnext
        subst hnext
        simp only at hb'
        split_ifs at hb' with hstep
        cases hb'
        refine ⟨patch.set row, ?_, ?_, ?_⟩
        · exact getElem?_set_eq_some.mpr (Or.inl ⟨rfl, lt_length_of_getElem? hrow, rfl⟩)
        · simpa [RunPatch.set, hst] using hmeets.1
        · simp [RunPatch.set, hstep]
  | _ => cases ho

/-- A call that may yet re-pin for run `r` finds the row as it believes it to be. -/
def RepinsLive (r : ℕ) (w : World) (_ : ℕ) (kind : Kind) (p : Call Result) : Prop :=
  ∃ b, Follows orderly (Outcome kind) p b ∧ (b.services = some r → MayRepin r p → InServices r w)

theorem repinsLive_step {s s' : Config} {e : Event}
    (h : Holds (fun _ _ => True) (RepinsLive r) s) (hs : step s e = some s')
    (hC : Undisturbed r s e s') : Holds (fun _ _ => True) (RepinsLive r) s' := by
  refine holds_step (C := Undisturbed r) ?_ ?_ ?_ h hs hC
  · intro w n kind _
    exact ⟨trivial, _, follows_program kind, by simp⟩
  · intro t i kind o next a w ⟨_, hL⟩ hi hw _
    obtain ⟨b, ⟨hallowed, hfollows⟩, hlive⟩ := hL i kind _ hi
    refine ⟨trivial, ?_⟩
    have hsome : ∃ b', orderly.next b o a = some b' := by
      cases hn : orderly.next b o a with
      | some b' => exact ⟨b', rfl⟩
      | none => exact absurd hn (orderly_next_ne_none b o a)
    obtain ⟨b', hb'⟩ := hsome
    refine ⟨b', hfollows a b' hb', ?_⟩
    intro hser hmay
    cases ho : o.seesRow with
    | true => exact inServices_of_seen ho hw hb' hser
    | false =>
      rw [orderly_next_services ho hb'] at hser
      apply inServices_handle (hlive hser (Or.inr ⟨ho, a, hmay⟩)) hw
      rintro fromStep patch rfl
      cases ho
  · intro t i kind o next a w ⟨_, hL⟩ hi hw hcond j kind' p hji hj
    obtain ⟨b, hfollows, hlive⟩ := hL j kind' p hj
    refine ⟨b, hfollows, ?_⟩
    intro hser hmay
    apply inServices_handle (hlive hser hmay) hw
    rintro fromStep patch rfl ha
    cases eq_of_heq ha
    exact hcond i fromStep patch rfl j kind' p hji hj hmay

/-- In every run in which nobody moves or ends run `r` while another call may yet re-pin for it, the
services are re-pinned for `r` only while its row is running in the services step. -/
theorem repin_of_live_run (rows : List PlatformUpgradeRunRow) (plans : PlanName → Option ℕ)
    (es : List Event) (s s' : Config) (r i : ℕ) (a : RepinAnswer)
    (hs : exec step (initial rows plans) es = some s)
    (hcond : Along step (Undisturbed r) (initial rows plans) es)
    (hact : step s (.act i (.startServices r) a) = some s') : InServices r s.world := by
  have hinit : Holds (fun _ _ => True) (RepinsLive r) (initial rows plans) :=
    ⟨trivial, by simp [initial]⟩
  obtain ⟨-, hL⟩ := exec_invariant_along step (fun _ _ _ h hs hC => repinsLive_step h hs hC) hinit
    hcond hs
  rcases step_cases program handle hact with ⟨kind, he, -⟩ |
    ⟨i', o, a', kind, next, w, he, hi, -⟩ | ⟨i', o, kind, next, he, -⟩
  · cases he
  · cases he
    obtain ⟨b, ⟨hallowed, -⟩, hlive⟩ := hL i kind _ hi
    exact hlive hallowed (Or.inl rfl)
  · cases he

def readyNode : UpgradeRunNode :=
  ⟨"node-1", .ready, some "2026.10.7", "On 2026.10.7; host changes before the services applied.",
    some (1, 1)⟩

def findingReady : List Event :=
  [.spawn .tick, .act 1 .getActiveRun (some (0, preparing)), .act 1 .now (1000 : ℤ),
    .act 1 (.assessRunNodes 0 .prepareNodes) [readyNode], .act 1 (.updateRun 0 [readyNode]) (),
    .act 1 (.progress 0 33 "Preparing nodes 1/1") (),
    .act 1 .servicesState ⟨none, some "2026.10.6"⟩, .act 1 .now (1000 : ℤ)]

def claimingServices : List Event :=
  [.act 1 (.transitionRun 0 (some .prepareNodes)
      { step := some .updateServices, stepStartedAt := some 1000, message := some none }) true,
    .act 1 (.deletePlan .nodeUpdate) ()]

def servicesClaimed : List Event := startedRun ++ findingReady ++ claimingServices

def inServicesRow : PlatformUpgradeRunRow :=
  { preparing with step := .updateServices, nodes := [readyNode], stepStartedAt := 1000 }

def rollingBack : List Event :=
  [.act 1 (.startServices 0) ⟨true, "pinned to 2026.10.7"⟩, .spawn .tick,
    .act 2 .getActiveRun (some (0, inServicesRow)), .spawn (.abort "Rolled back by an operator."),
    .act 3 .getActiveRun (some (0, inServicesRow)), .act 3 .now (9000 : ℤ),
    .act 3 (.transitionRun 0 none
      { status := some .rolledBack, message := some (some "Rolled back by an operator."),
        finishedAt := some 9000 }) true,
    .act 3 (.clearPlan 0 .nodeUpdate) true, .act 3 (.clearPlan 0 .nodeFinish) true,
    .act 3 (.finalize 0 .cancelled (some "Rolled back by an operator.")) (),
    .act 2 .now (9500 : ℤ), .act 2 .servicesState ⟨none, some "2026.10.6"⟩]

theorem repin_after_rollback :
    ∃ s s', exec step (initial [] fun _ => none) (servicesClaimed ++ rollingBack) =
        some s ∧ step s (.act 2 (.startServices 0) ⟨true, "pinned to 2026.10.7"⟩) = some s' ∧
          (s.world.rows.map fun row => (row.status, row.step)) = [(.rolledBack, .updateServices)] ∧
            ¬ InServices 0 s.world := by
  have hrun : (exec step (initial [] fun _ => none)
      (servicesClaimed ++ rollingBack)).any (fun s =>
        (step s (.act 2 (.startServices 0) ⟨true, "pinned to 2026.10.7"⟩)).isSome &&
          decide ((s.world.rows.map fun row => (row.status, row.step)) =
            [(.rolledBack, .updateServices)])) = true := by
    decide +kernel
  obtain ⟨s, hs, hcheck⟩ := (Option.any_eq_true _ _).mp hrun
  obtain ⟨hact, hrows⟩ := (Bool.and_eq_true _ _).mp hcheck
  obtain ⟨s', hs'⟩ := Option.isSome_iff_exists.mp hact
  have hrows' := of_decide_eq_true hrows
  refine ⟨s, s', hs, hs', hrows', ?_⟩
  rintro ⟨row, hrow, hst, -⟩
  have hget := congrArg (fun l => l[0]?) hrows'
  simp only [List.getElem?_map, hrow, Option.map_some, List.getElem?_cons_zero, Option.some.injEq,
    Prod.mk.injEq] at hget
  rw [hst] at hget
  cases hget.1

theorem undisturbed_of_not_transition {e : Event}
    (he : ∀ i fromStep patch, e ≠ .act i (.transitionRun r fromStep patch) true) (s s' : Config) :
    Undisturbed r s e s' :=
  fun i fromStep patch h => absurd h (he i fromStep patch)

theorem undisturbed_servicesClaimed :
    Along step (Undisturbed 0) (initial [] fun _ => none) servicesClaimed := by
  refine along_append_of step (along_of_forall step ?_ _) ?_
  · intro e he s s'
    refine undisturbed_of_not_transition ?_ s s'
    rintro i fromStep patch rfl
    simp [startedRun, findingReady] at he
  · intro m hm s' hs'
    refine ⟨?_, fun s'' _ => ⟨undisturbed_of_not_transition (by rintro i fromStep patch ⟨⟩) _ _,
      trivial⟩⟩
    -- the start has returned by then, so the tick has the run to itself
    have hprocs : (exec step (initial [] fun _ => none) (startedRun ++ findingReady)).map
        (fun m => m.procs.map fun q => q.rest.map hasReturned) = some [some true, some false] := by
      decide +kernel
    rw [hm, Option.map_some, Option.some.injEq] at hprocs
    rintro i fromStep patch ⟨⟩ j kind p hji hj hmay
    have hget := congrArg (fun l => l[j]?) hprocs
    simp only [List.getElem?_map, hj, Option.map_some] at hget
    match j with
    | 0 =>
      cases p with
      | pure res => exact hmay
      | call o next => simp [hasReturned] at hget
    | 1 => exact hji rfl
    | j + 2 => simp at hget

theorem repin_of_live_run_first_tick :
    ∃ s s', exec step (initial [] fun _ => none) servicesClaimed = some s ∧
      step s (.act 1 (.startServices 0) ⟨true, "pinned to 2026.10.7"⟩) = some s' ∧
        InServices 0 s.world := by
  have hrun : (exec step (initial [] fun _ => none) servicesClaimed).any (fun s =>
      (step s (.act 1 (.startServices 0) ⟨true, "pinned to 2026.10.7"⟩)).isSome) = true := by
    decide +kernel
  obtain ⟨s, hs, hact⟩ := (Option.any_eq_true _ _).mp hrun
  obtain ⟨s', hs'⟩ := Option.isSome_iff_exists.mp hact
  exact ⟨s, s', hs, hs', repin_of_live_run [] (fun _ => none) servicesClaimed s s' 0 1 _ hs
    undisturbed_servicesClaimed hs'⟩

end Insula.PlatformUpgrade
