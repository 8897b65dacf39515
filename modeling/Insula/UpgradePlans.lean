import Insula.UpgradeDuties

/-!
# No Plan outlives its run

While a run is running, its Plans are those of its step, or those that the one tick or start at work
on it knows of; once it has ended, each Plan that is left is owed by the call that ended it. So
nothing is left when all of them have returned, as long as nothing gets in between: the calls do not
guard their applies against the end of the run, nor against each other.
-/

namespace Insula.PlatformUpgrade

open Transition Lookup Concurrent Javascript
open Program hiding pure bind

/-- The call has read, or made, the row of the run and goes on with it. -/
def Took (w : World) (i r : ℕ) : Prop := ∃ st, (i, Effect.took r st) ∈ w.journal

def Running (w : World) (r : ℕ) : Prop :=
  ∃ row, w.rows[r]? = some row ∧ row.status = .running

def NoK3sPlan (w : World) (r : ℕ) : Prop := ∀ plan, plan.isK3s = true → w.plans plan ≠ some r

def UnderWay (s : Config) (i : ℕ) : Prop :=
  ∃ kind o next, s.procs[i]? = some ⟨kind, some (.call o next)⟩

/-- A tick or a start that has taken up the run and is still under way. -/
def Busy (s : Config) (r j : ℕ) : Prop :=
  ∃ kind o next, s.procs[j]? = some ⟨kind, some (.call o next)⟩ ∧ kind.tends = true ∧
    Took s.world j r

/-- What must not get in between, at a step of an interleaving: the ticks of a run, and its start,
do not overlap; a Plan is applied while the row is still running; an apply that fails leaves no
Plan, and none of the two k3s Plans is there when the other cannot be applied; the deletes of a
cancel or rollback succeed; a rollback that ends a run in the Kubernetes step has seen it there; and
no call stops midway where a Plan is left that does not belong to the step, or that it was about to
delete after ending the run. -/
def Careful (s : Config) : Event → Config → Prop
  | .act i .getActiveRun (some (r, _)), _ =>
    ∀ kind p, s.procs[i]? = some ⟨kind, p⟩ → kind.tends = true → ∀ j, ¬ Busy s r j
  | .act _ (.applyPlan r _) .ok, _ => Running s.world r
  | .act _ (.applyPlan r plan) (.failed _ landed), _ =>
    landed = false ∧ (plan.isK3s = true → NoK3sPlan s.world r)
  | .act _ (.buildRunK3sPlans r) (some _), _ => NoK3sPlan s.world r
  | .act _ (.clearPlan _ _) ok, _ => ok = true
  | .act i (.transitionRun r _ _) true, _ =>
    ∀ kind p row, s.procs[i]? = some ⟨kind, p⟩ → kind.tends = false →
      s.world.rows[r]? = some row → row.step = .upgradeKubernetes →
        (i, .took r .upgradeKubernetes) ∈ s.world.journal
  | .crash i, _ =>
    ∀ kind p r row plan, s.procs[i]? = some ⟨kind, p⟩ → Took s.world i r →
      s.world.rows[r]? = some row → s.world.plans plan = some r →
        if kind.tends = true then row.status = .running → plan ∈ row.step.plans
        else ∀ st, (i, .ended r st) ∉ s.world.journal
  | _, _ => True

def Duty.run : Duty → Option ℕ
  | .idle _ => none
  | .tending run _ _ _ | .settled run | .ending run _ | .clearing run _ => some run

def Duty.Fits (kind : Kind) : Duty → Prop
  | .idle tends => tends = kind.tends
  | .tending _ _ _ _ => kind.tends = true
  | .ending _ _ | .clearing _ _ => kind.tends = false
  | .settled _ => True

def Duty.Recalls (w : World) (i : ℕ) (kv : Option String) : Duty → Prop
  | .tending _ kube _ _ => kube = truthy kv
  | .ending run copy =>
    copy.kubernetesVersion = kv ∧ ∀ st, (i, .took run st) ∈ w.journal → st = copy.step
  | .clearing run _ => ∃ st, (i, .ended run st) ∈ w.journal
  | _ => True

structure Informed (w : World) (i : ℕ) (kind : Kind) (d : Duty) : Prop where
  fits : d.Fits kind
  took : ∀ r, Took w i r ↔ d.run = some r
  recalls : ∀ r, d.run = some r →
    ∃ st step kv, w.place r = some (st, step, kv) ∧ d.Recalls w i kv

def Tends (s : Config) (duty : ℕ → Duty) (r i : ℕ) (kube : Bool) (st : RunStep)
    (may : List PlanName) : Prop :=
  UnderWay s i ∧ duty i = .tending r kube st may

structure Limits (w : World) (r : ℕ) (st : RunStep) (may : List PlanName) : Prop where
  plans : ∀ plan, w.plans plan = some r → plan ∈ may
  k3s : ∀ plan ∈ may, plan.isK3s = true → st = .upgradeKubernetes

/-- A running run has the Plans of its step, or those that the one call at work on it knows of. -/
inductive Watched (s : Config) (duty : ℕ → Duty) (r : ℕ) (st : RunStep) : Prop
  | untended (hnone : ∀ i kube st' may, ¬ Tends s duty r i kube st' may)
      (hlimits : Limits s.world r st st.plans)
  | tended (i : ℕ) (kube : Bool) (may : List PlanName) (htends : Tends s duty r i kube st may)
      (hone : ∀ j kube' st' may', Tends s duty r j kube' st' may' → j = i)
      (hlimits : Limits s.world r st may)

/-- A call that ended the run has yet to delete the Plan. -/
def Owed (s : Config) (duty : ℕ → Duty) (r : ℕ) (plan : PlanName) : Prop :=
  ∃ i kind p owes, s.procs[i]? = some ⟨kind, some p⟩ ∧ duty i = .clearing r owes ∧ plan ∈ owes

structure Accounted (s : Config) (duty : ℕ → Duty) (r : ℕ) : Prop where
  unborn : s.world.place r = none → ∀ plan, s.world.plans plan ≠ some r
  running : ∀ st kv, s.world.place r = some (.running, st, kv) → Watched s duty r st
  ended : ∀ status st kv, s.world.place r = some (status, st, kv) → status ≠ .running →
    ∀ plan, s.world.plans plan = some r → Owed s duty r plan

/-- Every call keeps to its duty, and the Plans of every run are accounted for by these duties. -/
structure Kept (s : Config) (duty : ℕ → Duty) : Prop where
  calls : ∀ i kind p, s.procs[i]? = some ⟨kind, some p⟩ →
    Follows tidy (fun d _ => Done d) p (duty i) ∧ Informed s.world i kind (duty i)
  kube : ∀ r kv, s.world.place r = some (.running, .upgradeKubernetes, kv) → truthy kv = true
  runs : ∀ r, Accounted s duty r

variable {s s' : Config} {duty duty' : ℕ → Duty} {w w' : World} {i j r : ℕ} {kind : Kind}
  {d d' : Duty} {o : Op} {a : Ans o} {st : RunStep} {may may' : List PlanName} {kube : Bool}
  {plan : PlanName} {next : Ans o → Call Result}

def applied : (o : Op) → Ans o → Option (ℕ × PlanName)
  | .applyPlan run plan, .ok => some (run, plan)
  | .applyPlan run plan, .failed _ true => some (run, plan)
  | _, _ => none

theorem setPlan_plans {plan' : PlanName} {run : Option ℕ}
    (h : (w.setPlan plan run).plans plan' = some r) :
    (plan' ≠ plan ∧ w.plans plan' = some r) ∨ (plan' = plan ∧ run = some r) := by
  by_cases hplan : plan' = plan
  · subst hplan
    exact Or.inr ⟨rfl, by simpa [World.setPlan] using h⟩
  · exact Or.inl ⟨hplan, by simpa [World.setPlan, hplan] using h⟩

theorem plans_handle (h : handle w i o a = some w') (hplan : w'.plans plan = some r) :
    w.plans plan = some r ∨ applied o a = some (r, plan) := by
  cases o with
  | applyPlan run plan' =>
    cases a with
    | ok =>
      cases h
      rcases setPlan_plans hplan with ⟨-, hold⟩ | ⟨rfl, hrun⟩
      · exact Or.inl hold
      · cases hrun
        exact Or.inr rfl
    | failed reason landed =>
      cases h
      cases landed with
      | false => exact Or.inl hplan
      | true =>
        rcases setPlan_plans hplan with ⟨-, hold⟩ | ⟨rfl, hrun⟩
        · exact Or.inl hold
        · cases hrun
          exact Or.inr rfl
  | deletePlan plan' =>
    cases h
    rcases setPlan_plans hplan with ⟨-, hold⟩ | ⟨-, hrun⟩
    · exact Or.inl hold
    · cases hrun
  | clearPlan run plan' =>
    cases h
    cases a with
    | false => exact Or.inl hplan
    | true =>
      rcases setPlan_plans hplan with ⟨-, hold⟩ | ⟨-, hrun⟩
      · exact Or.inl hold
      · cases hrun
  | transitionRun run fromStep patch =>
    cases a with
    | true =>
      obtain ⟨row, -, -, rfl⟩ := handle_transition_true h
      exact Or.inl hplan
    | false =>
      obtain ⟨rfl, -⟩ := handle_transition_false h
      exact Or.inl hplan
  | createRun input =>
    rcases handle_createRun h with ⟨-, -, rfl⟩ | ⟨run, row, -, -, -, -, rfl⟩ <;>
      exact Or.inl hplan
  | updateRun run nodes =>
    cases h
    unfold updateRun at hplan
    split at hplan <;> exact Or.inl hplan
  | getActiveRun =>
    obtain ⟨-, rfl⟩ := handle_getActiveRun h
    cases a <;> exact Or.inl hplan
  | planExists plan' =>
    simp only [handle] at h
    split_ifs at h
    cases h
    exact Or.inl hplan
  | now | assessRunNodes | assessKubernetesNodes | buildRunK3sPlans | servicesState |
    startServices | finalize | progress =>
      cases h
      exact Or.inl hplan

theorem took_mem_effects {q : ℕ} {st : RunStep} (h : Effect.took q st ∈ effects o a) :
    (o = .getActiveRun ∨ ∃ input, o = .createRun input) ∧
      ∃ row : PlatformUpgradeRunRow, HEq a (some (q, row)) ∧ row.step = st := by
  unfold effects at h
  split at h
  case h_1 run row =>
    simp only [List.mem_singleton, Effect.took.injEq] at h
    obtain ⟨rfl, rfl⟩ := h
    exact ⟨Or.inl rfl, row, HEq.rfl, rfl⟩
  case h_2 input run row =>
    simp only [List.mem_singleton, Effect.took.injEq] at h
    obtain ⟨rfl, rfl⟩ := h
    exact ⟨Or.inr ⟨input, rfl⟩, row, HEq.rfl, rfl⟩
  case h_3 run fromStep patch =>
    unfold RunPatch.effect at h
    split at h <;> simp at h
  all_goals simp at h

/-- A call that has taken up a run keeps to it and takes up no other. -/
theorem tidyNext_run (hallowed : tidyAllowed d o) (h : tidyNext d o a = some d')
    (hr : d.run = some r) : d'.run = some r ∧ ∀ q st, Effect.took q st ∉ effects o a := by
  constructor
  · unfold tidyNext at h
    split at h
    case h_9 run kube st may _ _ patch =>
      split at h <;>
      · cases h
        exact hr
    all_goals
      cases h
      try exact hr
    all_goals cases hr
  · intro q st hq
    obtain ⟨ho, -⟩ := took_mem_effects hq
    rcases ho with rfl | ⟨input, rfl⟩ <;> cases d <;> first | exact hallowed | cases hr

/-- A call that has not taken up a run either takes one up, or goes on as it is. -/
theorem tidyNext_idle {tends : Bool} (hallowed : tidyAllowed (.idle tends) o)
    (h : tidyNext (.idle tends) o a = some d') :
    (d' = .idle tends ∧ ∀ q st, Effect.took q st ∉ effects o a) ∨
      ∃ (q : ℕ) (row : PlatformUpgradeRunRow), HEq a (some (q, row)) ∧
        ((o = .getActiveRun ∧ tends = true ∧
            d' = .tending q (truthy row.kubernetesVersion) row.step row.step.plans) ∨
          (o = .getActiveRun ∧ tends = false ∧ d' = .ending q row) ∨
          ∃ input, o = .createRun input ∧ tends = true ∧
            d' = .tending q (truthy row.kubernetesVersion) .prepareNodes []) := by
  cases o with
  | getActiveRun =>
    rcases a with _ | ⟨q, row⟩
    · cases tends <;>
      · cases h
        exact Or.inl ⟨rfl, by simp [effects]⟩
    · cases tends with
      | true =>
        cases h
        exact Or.inr ⟨q, row, HEq.rfl, Or.inl ⟨rfl, rfl, rfl⟩⟩
      | false =>
        cases h
        exact Or.inr ⟨q, row, HEq.rfl, Or.inr (Or.inl ⟨rfl, rfl, rfl⟩)⟩
  | createRun input =>
    cases hallowed
    rcases a with _ | ⟨q, row⟩
    · cases h
      exact Or.inl ⟨rfl, by simp [effects]⟩
    · cases h
      exact Or.inr ⟨q, row, HEq.rfl, Or.inr (Or.inr ⟨input, rfl, rfl, rfl⟩)⟩
  | applyPlan | transitionRun | clearPlan | buildRunK3sPlans => cases tends <;> cases hallowed
  | _ =>
    have hd' : d' = .idle tends := by
      cases tends <;>
      · cases h
        rfl
    exact Or.inl ⟨hd', by simp [effects]⟩

theorem took_handle (h : handle w i o a = some w') :
    Took w' i r ↔ Took w i r ∨ ∃ st, Effect.took r st ∈ effects o a := by
  unfold Took
  simp only [mem_journal h, true_and]
  exact exists_or

theorem took_handle_other (h : handle w i o a = some w') (hji : j ≠ i) :
    Took w' j r ↔ Took w j r := by
  unfold Took
  simp only [mem_journal h, hji, false_and, or_false]

/-- The operations of others do not change what a call has to go by. -/
theorem informed_other (hinf : Informed w j kind d) (hji : j ≠ i) (h : handle w i o a = some w')
    (hf : RowsForward w.rows w'.rows) : Informed w' j kind d := by
  refine ⟨hinf.fits, fun q => (took_handle_other h hji).trans (hinf.took q), ?_⟩
  intro q hq
  obtain ⟨st, step, kv, hplace, hrec⟩ := hinf.recalls q hq
  obtain ⟨st', step', hplace'⟩ := hf.place hplace
  refine ⟨st', step', kv, hplace', ?_⟩
  cases d with
  | ending run copy =>
    refine ⟨hrec.1, fun st hst => hrec.2 st ?_⟩
    simpa [mem_journal h, hji] using hst
  | clearing run owes =>
    obtain ⟨st, hst⟩ := hrec
    exact ⟨st, (mem_journal h).mpr (Or.inl hst)⟩
  | _ => exact hrec

/-- Nor do its own, once it has taken up a run. -/
theorem informed_same_run (hinf : Informed w i kind d) (h : handle w i o a = some w')
    (hf : RowsForward w.rows w'.rows) (htook : ∀ q st, Effect.took q st ∉ effects o a)
    (hrun : d'.run = d.run) (hfits : d'.Fits kind)
    (hrec : ∀ kv, d.Recalls w i kv → d'.Recalls w' i kv) : Informed w' i kind d' := by
  refine ⟨hfits, ?_, ?_⟩
  · intro q
    rw [took_handle h, hrun, hinf.took q]
    simp [htook]
  · intro q hq
    obtain ⟨st, step, kv, hplace, hold⟩ := hinf.recalls q (hrun ▸ hq)
    obtain ⟨st', step', hplace'⟩ := hf.place hplace
    exact ⟨st', step', kv, hplace', hrec kv hold⟩

theorem informed_taking {q : ℕ} {row : PlatformUpgradeRunRow} (hnone : ∀ r, ¬ Took w i r)
    (h : handle w i o a = some w') (heff : effects o a = [.took q row.step]) (hrun : d'.run = some q)
    (hfits : d'.Fits kind) {st : RunStatus} {step : RunStep}
    (hplace : w'.place q = some (st, step, row.kubernetesVersion))
    (hd' : d' = .ending q row ∨ ∃ st may, d' = .tending q (truthy row.kubernetesVersion) st may) :
    Informed w' i kind d' := by
  refine ⟨hfits, ?_, ?_⟩
  · intro r
    rw [took_handle h, heff, hrun]
    simp [hnone r, eq_comm]
  · intro r hr
    cases hrun.symm.trans hr
    refine ⟨st, step, _, hplace, ?_⟩
    rcases hd' with rfl | ⟨st, may, rfl⟩
    · refine ⟨rfl, ?_⟩
      intro st' hst'
      rcases (mem_journal h).mp hst' with hold | ⟨-, hnew⟩
      · exact absurd ⟨st', hold⟩ (hnone q)
      · rw [heff] at hnew
        simpa using hnew
    · rfl

theorem Limits.shrink (h : Limits w r st may) (hplans : ∀ plan, w'.plans plan = some r →
    w.plans plan = some r) : Limits w' r st may :=
  ⟨fun plan hplan => h.plans plan (hplans plan hplan), h.k3s⟩

theorem k3s_mem_plans (h : plan ∈ st.plans) (hk : plan.isK3s = true) : st = .upgradeKubernetes := by
  cases st <;> cases plan <;> simp [RunStep.plans, PlanName.isK3s] at h hk ⊢

/-- A run that a step does not concern is accounted for as before. -/
theorem accounted_frame (h : Accounted s duty r) (hplace : s'.world.place r = s.world.place r)
    (hplans : ∀ plan, s'.world.plans plan = some r → s.world.plans plan = some r)
    (htends : ∀ j kube st may, Tends s' duty' r j kube st may ↔ Tends s duty r j kube st may)
    (howed : ∀ plan, s'.world.plans plan = some r → Owed s duty r plan → Owed s' duty' r plan) :
    Accounted s' duty' r := by
  refine ⟨?_, ?_, ?_⟩
  · intro hnone plan hplan
    exact h.unborn (hplace ▸ hnone) plan (hplans plan hplan)
  · intro st kv hst
    cases h.running st kv (hplace ▸ hst) with
    | untended hnone hlimits =>
      refine .untended (fun j kube st' may hj => ?_) (hlimits.shrink hplans)
      exact hnone j kube st' may ((htends j kube st' may).mp hj)
    | tended i kube may hi hone hlimits =>
      refine .tended i kube may ((htends i kube st may).mpr hi) ?_ (hlimits.shrink hplans)
      intro j kube' st' may' hj
      exact hone j kube' st' may' ((htends j kube' st' may').mp hj)
  · intro status st kv hst hne plan hplan
    exact howed plan hplan (h.ended status st kv (hplace ▸ hst) hne plan (hplans plan hplan))

section Act

/-! The `i`-th call gets an answer, and its duty becomes `d'`. -/

variable {p : Call Result} {next : Ans o → Call Result} {plan : PlanName} {kv : Option String}
  {copy : PlatformUpgradeRunRow}

theorem tends_act_other (hji : j ≠ i) :
    Tends ⟨w', s.procs.set i ⟨kind, some p⟩⟩ (Function.update duty i d') r j kube st may ↔
      Tends s duty r j kube st may := by
  unfold Tends UnderWay
  rw [Function.update_of_ne hji, List.getElem?_set_ne (Ne.symm hji)]

theorem owed_act (hi : s.procs[i]? = some ⟨kind, some (.call o next)⟩)
    (howes : ∀ owes, duty i = .clearing r owes → plan ∈ owes →
      ∃ owes', d' = .clearing r owes' ∧ plan ∈ owes') (h : Owed s duty r plan) :
    Owed ⟨w', s.procs.set i ⟨kind, some p⟩⟩ (Function.update duty i d') r plan := by
  obtain ⟨j, kind', p', owes, hj, hd, hplan⟩ := h
  by_cases hji : j = i
  · subst hji
    obtain ⟨owes', hd', hplan'⟩ := howes owes hd hplan
    refine ⟨j, kind, p, owes', ?_, by simpa using hd', hplan'⟩
    exact getElem?_set_eq_some.mpr (Or.inl ⟨rfl, lt_length_of_getElem? hi, rfl⟩)
  · refine ⟨j, kind', p', owes, ?_, by rwa [Function.update_of_ne hji], hplan⟩
    exact getElem?_set_eq_some.mpr (Or.inr ⟨Ne.symm hji, hj⟩)

theorem accounted_act_frame (h : Accounted s duty r)
    (hi : s.procs[i]? = some ⟨kind, some (.call o next)⟩) (hplace : w'.place r = s.world.place r)
    (hplans : ∀ plan, w'.plans plan = some r → s.world.plans plan = some r)
    (hbefore : ∀ kube st may, duty i ≠ .tending r kube st may)
    (hafter : ∀ kube st may, d' ≠ .tending r kube st may)
    (howes : ∀ plan, w'.plans plan = some r → ∀ owes, duty i = .clearing r owes → plan ∈ owes →
      ∃ owes', d' = .clearing r owes' ∧ plan ∈ owes') :
    Accounted ⟨w', s.procs.set i ⟨kind, some p⟩⟩ (Function.update duty i d') r := by
  refine accounted_frame h hplace hplans ?_ fun plan hplan => owed_act hi (howes plan hplan)
  intro j kube st may
  by_cases hji : j = i
  · subst hji
    constructor
    · rintro ⟨-, hd⟩
      rw [Function.update_self] at hd
      exact absurd hd (hafter kube st may)
    · rintro ⟨-, hd⟩
      exact absurd hd (hbefore kube st may)
  · exact tends_act_other hji

/-- A running run that the acting call tends, and nobody else. -/
theorem accounted_act_tending (hi : s.procs[i]? = some ⟨kind, some (.call o next)⟩)
    (hf : Follows tidy (fun d _ => Done d) p d') (hplace : w'.place r = some (.running, st, kv))
    (hd' : d' = .tending r kube st may) (hlimits : Limits w' r st may)
    (hone : ∀ j kube' st' may', Tends s duty r j kube' st' may' → j = i) :
    Accounted ⟨w', s.procs.set i ⟨kind, some p⟩⟩ (Function.update duty i d') r := by
  have hget : (s.procs.set i ⟨kind, some p⟩)[i]? = some ⟨kind, some p⟩ :=
    getElem?_set_eq_some.mpr (Or.inl ⟨rfl, lt_length_of_getElem? hi, rfl⟩)
  have hone' : ∀ j kube' st' may',
      Tends ⟨w', s.procs.set i ⟨kind, some p⟩⟩ (Function.update duty i d') r j kube' st' may' →
        j = i := by
    intro j kube' st' may' hj
    by_contra hji
    exact hji (hone j kube' st' may' ((tends_act_other hji).mp hj))
  refine ⟨fun hnone => ?_, fun st' kv' hst' => ?_, fun status st' kv' hst' hne => ?_⟩
  · change w'.place r = none at hnone
    rw [hplace] at hnone
    cases hnone
  · cases hplace.symm.trans hst'
    cases p with
    | pure res =>
      refine .untended ?_ ⟨?_, fun plan hplan hk => k3s_mem_plans hplan hk⟩
      · intro j kube' st' may' hj
        obtain rfl := hone' j kube' st' may' hj
        obtain ⟨⟨kind', o', next', hcall⟩, -⟩ := hj
        cases hget.symm.trans hcall
      · intro plan hplan
        rw [hd'] at hf
        exact hf plan (hlimits.plans plan hplan)
    | call o' next' =>
      refine .tended i kube may ⟨⟨kind, o', next', hget⟩, ?_⟩ hone' hlimits
      rw [Function.update_self, hd']
  · cases hplace.symm.trans hst'
    exact absurd rfl hne

theorem running_of_applied (hC : Careful s (.act i o a) s') (h : applied o a = some (r, plan)) :
    Running s.world r := by
  unfold applied at h
  split at h
  · cases h
    exact hC
  · exact absurd hC.1 (by simp)
  · cases h

theorem running_iff : Running w r ↔ ∃ st kv, w.place r = some (.running, st, kv) := by
  constructor
  · rintro ⟨row, hrow, hst⟩
    exact ⟨row.step, row.kubernetesVersion, place_eq_some.mpr ⟨row, hrow, by rw [hst]⟩⟩
  · rintro ⟨st, kv, hplace⟩
    obtain ⟨row, hrow, heq⟩ := place_eq_some.mp hplace
    simp only [Prod.mk.injEq] at heq
    exact ⟨row, hrow, heq.1⟩

theorem accounted_act_tending_ended (h : Accounted s duty r)
    (hi : s.procs[i]? = some ⟨kind, some (.call o next)⟩) (hw : handle s.world i o a = some w')
    (hC : Careful s (.act i o a) s') (hd : duty i = .tending r kube st may)
    (hallowed : tidyAllowed (.tending r kube st may) o) {status : RunStatus} {step : RunStep}
    (hplace : s.world.place r = some (status, step, kv)) (hended : status ≠ .running) :
    Accounted ⟨w', s.procs.set i ⟨kind, some p⟩⟩ (Function.update duty i d') r := by
  have hnot : ∀ st' kv', s.world.place r ≠ some (.running, st', kv') := by
    intro st' kv' heq
    cases hplace.symm.trans heq
    exact hended rfl
  have hplace' : w'.place r = s.world.place r := by
    rcases place_handle hw r with heq | ⟨fromStep, patch, rfl, ha⟩ | ⟨input, row, rfl, -⟩
    · exact heq
    · cases eq_of_heq ha
      obtain ⟨st', kv', hrunning, -⟩ := place_transition_true hw
      exact absurd hrunning (hnot st' kv')
    · exact absurd hallowed (by simp [tidyAllowed])
  have hplans : ∀ plan, w'.plans plan = some r → s.world.plans plan = some r := by
    intro plan hplan
    rcases plans_handle hw hplan with hold | happlied
    · exact hold
    · obtain ⟨st', kv', hrunning⟩ := running_iff.mp (running_of_applied hC happlied)
      exact absurd hrunning (hnot st' kv')
  refine ⟨fun hnone => ?_, fun st' kv' hst' => ?_, fun status' st' kv' hst' _ plan hplan => ?_⟩
  · change w'.place r = none at hnone
    rw [hplace', hplace] at hnone
    cases hnone
  · exact absurd (hplace' ▸ hst') (hnot st' kv')
  · refine owed_act hi ?_ (h.ended status step kv hplace hended plan (hplans plan hplan))
    intro owes howes
    rw [hd] at howes
    cases howes

/-- While the run is running, the call at work on it knows of every Plan. -/
theorem watched_tends (h : Accounted s duty r) {step : RunStep}
    (hplace : s.world.place r = some (.running, step, kv)) (ht : Tends s duty r i kube st may) :
    st = step ∧ Limits s.world r st may ∧
      ∀ j kube' st' may', Tends s duty r j kube' st' may' → j = i := by
  cases h.running step kv hplace with
  | untended hnone _ => exact absurd ht (hnone i kube st may)
  | tended j kube' may' hj hone hlimits =>
    obtain rfl := hone i kube st may ht
    have heq := ht.2.symm.trans hj.2
    cases heq
    exact ⟨rfl, hlimits, hone⟩

theorem limits_filter {keep : PlanName → Bool} (h : Limits w r st may)
    (hplans : ∀ plan, w'.plans plan = some r → w.plans plan = some r ∧ keep plan = true) :
    Limits w' r st (may.filter keep) := by
  constructor
  · intro plan hplan
    obtain ⟨hold, hkeep⟩ := hplans plan hplan
    exact List.mem_filter.mpr ⟨h.plans plan hold, hkeep⟩
  · intro plan hplan
    exact h.k3s plan (List.mem_filter.mp hplan).1

theorem limits_no_k3s (h : Limits w r st may) (hno : NoK3sPlan w r) :
    Limits w r st (may.filter (!·.isK3s)) := by
  refine limits_filter h fun plan hplan => ⟨hplan, ?_⟩
  cases hk : plan.isK3s with
  | false => rfl
  | true => exact absurd hplan (hno plan hk)

/-- The call at work on a running run moves or ends it: it has left only Plans that fit, or none. -/
theorem accounted_act_transition {fromStep : Option RunStep} {patch : RunPatch} {won : Bool}
    {next : Bool → Call Result}
    (hi : s.procs[i]? = some ⟨kind, some (.call (.transitionRun r fromStep patch) next)⟩)
    (hw : handle s.world i (.transitionRun r fromStep patch) won = some w')
    (hallowed : tidyAllowed (.tending r kube st may) (.transitionRun r fromStep patch))
    (hnext : tidyNext (.tending r kube st may) (.transitionRun r fromStep patch) won = some d')
    (hf : Follows tidy (fun d _ => Done d) p d') (hlegal : LegalPatch fromStep patch)
    (hplace : s.world.place r = some (.running, st, kv)) (hlimits : Limits s.world r st may)
    (hone : ∀ j kube' st' may', Tends s duty r j kube' st' may' → j = i) :
    Accounted ⟨w', s.procs.set i ⟨kind, some p⟩⟩ (Function.update duty i d') r := by
  obtain ⟨-, hfrom, hpatch⟩ := hallowed
  have hplans : ∀ plan, w'.plans plan = some r → s.world.plans plan = some r := by
    intro plan hplan
    rcases plans_handle hw hplan with hold | happlied
    · exact hold
    · cases happlied
  cases won with
  | false =>
    obtain ⟨st', hst', hne⟩ := place_transition_false hw hplace
    exact absurd (hfrom st' hst') hne
  | true =>
    obtain ⟨st', kv', hold, hnew⟩ := place_transition_true hw
    cases hplace.symm.trans hold
    unfold LegalPatch at hlegal
    cases hstatus : patch.status with
    | some status =>
      rw [hstatus] at hpatch hlegal hnew
      have hmay : may = [] := by cases hstep : patch.step <;> simpa [hstep] using hpatch
      have hend : status ≠ .running := by
        cases hstep : patch.step <;> rw [hstep] at hlegal <;> exact hlegal.1
      have hnone : ∀ plan, w'.plans plan ≠ some r := by
        intro plan hplan
        have hmem := hlimits.plans plan (hplans plan hplan)
        rw [hmay] at hmem
        cases hmem
      refine ⟨fun _ => hnone, fun st' kv' hst' => ?_, fun _ _ _ _ _ plan hplan => ?_⟩
      · cases hnew.symm.trans hst'
        exact absurd rfl hend
      · exact absurd hplan (hnone plan)
    | none =>
      cases hstep : patch.step with
      | some step =>
        rw [hstatus, hstep] at hpatch hnew
        simp only [tidyNext, hstatus, hstep, Option.some.injEq] at hnext
        refine accounted_act_tending hi hf hnew hnext.symm ⟨?_, ?_⟩ hone
        · exact fun plan hplan => hlimits.plans plan (hplans plan hplan)
        · intro plan hplan hk
          rw [hpatch.1 plan hplan] at hk
          cases hk
      | none =>
        rw [hstatus, hstep] at hnew
        simp only [tidyNext, hstatus, hstep, Option.some.injEq] at hnext
        exact accounted_act_tending hi hf hnew hnext.symm (hlimits.shrink hplans) hone

theorem accounted_act_tending_running (hi : s.procs[i]? = some ⟨kind, some (.call o next)⟩)
    (hw : handle s.world i o a = some w') (hC : Careful s (.act i o a) s')
    (hallowed : tidyAllowed (.tending r kube st may) o)
    (hnext : tidyNext (.tending r kube st may) o a = some d')
    (hf : Follows tidy (fun d _ => Done d) p d') (hlegal : LegalOp o)
    (hplace : s.world.place r = some (.running, st, kv)) (hlimits : Limits s.world r st may)
    (hone : ∀ j kube' st' may', Tends s duty r j kube' st' may' → j = i) :
    Accounted ⟨w', s.procs.set i ⟨kind, some p⟩⟩ (Function.update duty i d') r := by
  cases o with
  | transitionRun run fromStep patch =>
    obtain rfl := hallowed.1
    exact accounted_act_transition hi hw hallowed hnext hf hlegal hplace hlimits hone
  | applyPlan run plan =>
    obtain ⟨rfl, hk3s⟩ := hallowed
    cases a with
    | ok =>
      cases hw
      cases hnext
      refine accounted_act_tending hi hf hplace rfl ⟨?_, ?_⟩ hone
      · intro plan' hplan'
        rcases setPlan_plans hplan' with ⟨-, hold⟩ | ⟨rfl, -⟩
        · exact List.mem_cons_of_mem _ (hlimits.plans plan' hold)
        · exact List.mem_cons_self
      · intro plan' hplan' hk
        rcases List.mem_cons.mp hplan' with rfl | hold
        · exact hk3s hk
        · exact hlimits.k3s plan' hold hk
    | failed reason landed =>
      obtain ⟨rfl, hno⟩ := hC
      cases hw
      cases hnext
      refine accounted_act_tending hi hf hplace rfl ?_ hone
      change Limits s.world run st (if plan.isK3s then may.filter (!·.isK3s) else may)
      split_ifs with hk
      · exact limits_no_k3s hlimits (hno hk)
      · exact hlimits
  | buildRunK3sPlans run =>
    cases hallowed
    cases hw
    cases a with
    | none =>
      cases hnext
      exact accounted_act_tending hi hf hplace rfl hlimits hone
    | some reason =>
      cases hnext
      exact accounted_act_tending hi hf hplace rfl (limits_no_k3s hlimits hC) hone
  | deletePlan plan =>
    cases hw
    cases hnext
    refine accounted_act_tending hi hf hplace rfl (limits_filter hlimits ?_) hone
    intro plan' hplan'
    rcases setPlan_plans hplan' with ⟨hne, hold⟩ | ⟨-, hrun⟩
    · exact ⟨hold, by simpa using hne⟩
    · cases hrun
  | getActiveRun | createRun | clearPlan => cases hallowed
  | now | updateRun | assessRunNodes | assessKubernetesNodes | planExists | servicesState |
    startServices | finalize | progress =>
      cases hnext
      have hplace' := place_handle hw r
      simp only [reduceCtorEq, false_and, exists_false, or_false] at hplace'
      refine accounted_act_tending hi hf (hplace'.trans hplace) rfl (hlimits.shrink ?_) hone
      intro plan hplan
      exact (plans_handle hw hplan).resolve_right (by simp [applied])

theorem mem_clearedBy_of_node (hk : plan.isK3s = false) : plan ∈ clearedBy copy := by
  unfold clearedBy
  cases plan <;> simp [PlanName.isK3s] at hk <;> split_ifs <;> simp

theorem mem_clearedBy_of_kubernetes (hstep : copy.step = .upgradeKubernetes)
    (hkv : truthy copy.kubernetesVersion = true) : plan ∈ clearedBy copy := by
  unfold clearedBy
  rw [if_pos ⟨hstep, hkv⟩]
  cases plan <;> simp

/-- Whoever ends the run owes every Plan that is left. -/
theorem accounted_act_ending {fromStep : Option RunStep} {patch : RunPatch}
    {next : Bool → Call Result} (h : Accounted s duty r)
    (hi : s.procs[i]? = some ⟨kind, some (.call (.transitionRun r fromStep patch) next)⟩)
    (hw : handle s.world i (.transitionRun r fromStep patch) true = some w')
    (hC : Careful s (.act i (.transitionRun r fromStep patch) true) s')
    (hkube : ∀ kv, s.world.place r = some (.running, .upgradeKubernetes, kv) → truthy kv = true)
    (hinf : Informed s.world i kind (.ending r copy)) (hstatus : patch.status ≠ none)
    (hlegal : LegalPatch fromStep patch) : Accounted ⟨w', s.procs.set i ⟨kind, some p⟩⟩
      (Function.update duty i (.clearing r (clearedBy copy))) r := by
  obtain ⟨st, kv, hold, hnew⟩ := place_transition_true hw
  obtain ⟨status, hst⟩ := Option.ne_none_iff_exists'.mp hstatus
  have hend : status ≠ .running := by
    unfold LegalPatch at hlegal
    rw [hst] at hlegal
    cases hstep : patch.step <;> rw [hstep] at hlegal <;> exact hlegal.1
  rw [hst] at hnew
  -- every Plan of the run is among those that the copy of the row makes it delete
  have hcleared : ∀ plan, s.world.plans plan = some r → plan ∈ clearedBy copy := by
    intro plan hplan
    have hk3s : plan.isK3s = true → st = .upgradeKubernetes := by
      intro hk
      cases h.running st kv hold with
      | untended _ hlimits => exact hlimits.k3s plan (hlimits.plans plan hplan) hk
      | tended _ _ _ _ _ hlimits => exact hlimits.k3s plan (hlimits.plans plan hplan) hk
    cases hk : plan.isK3s with
    | false => exact mem_clearedBy_of_node hk
    | true =>
      obtain rfl := hk3s hk
      obtain ⟨_, _, kv', hplace, hkv, htook⟩ := hinf.recalls r rfl
      cases hold.symm.trans hplace
      obtain ⟨row, hrow, heq⟩ := place_eq_some.mp hold
      simp only [Prod.mk.injEq] at heq
      have hstep := htook _ (hC kind _ row hi hinf.fits hrow heq.2.1)
      exact mem_clearedBy_of_kubernetes hstep.symm (hkv ▸ hkube kv hold)
  refine ⟨fun hnone => ?_, fun st' kv' hst' => ?_, fun _ _ _ _ _ plan hplan => ?_⟩
  · cases hnew.symm.trans hnone
  · cases hnew.symm.trans hst'
    exact absurd rfl hend
  · refine ⟨i, kind, p, clearedBy copy, ?_, by simp, hcleared plan ?_⟩
    · exact getElem?_set_eq_some.mpr (Or.inl ⟨rfl, lt_length_of_getElem? hi, rfl⟩)
    · exact (plans_handle hw hplan).resolve_right (by simp [applied])

/-- The operations that leave the run of the call where it is: all but a conditional update that
goes through. -/
theorem place_act_of_not_transition (hw : handle s.world i o a = some w')
    (hrun : d.run = some r) (hallowed : tidyAllowed d o)
    (htrans : ∀ fromStep patch, o = .transitionRun r fromStep patch → ¬ HEq a true) :
    w'.place r = s.world.place r := by
  rcases place_handle hw r with heq | ⟨fromStep, patch, rfl, ha⟩ | ⟨input, row, rfl, -⟩
  · exact heq
  · exact absurd ha (htrans fromStep patch rfl)
  · cases d <;> first | exact False.elim hallowed | cases hrun

theorem applied_of_allowed {q : ℕ} (hallowed : tidyAllowed d o) (h : applied o a = some (q, plan)) :
    ∃ kube st may, d = .tending q kube st may := by
  cases o with
  | applyPlan run plan' =>
    have hq : run = q := by
      cases a with
      | ok =>
        cases h
        rfl
      | failed reason landed =>
        cases landed <;> cases h
        rfl
    subst hq
    cases d with
    | tending run' kube st may =>
      obtain rfl := hallowed.1
      exact ⟨kube, st, may, rfl⟩
    | _ => cases hallowed
  | _ => cases h

theorem tidyNext_settled : tidyNext (.settled r) o a = some (.settled r) := by
  cases o <;> rfl

theorem accounted_act_aside (h : Accounted s duty r)
    (hi : s.procs[i]? = some ⟨kind, some (.call o next)⟩)
    (hw : handle s.world i o a = some w') (hC : Careful s (.act i o a) s')
    (hkube : ∀ kv, s.world.place r = some (.running, .upgradeKubernetes, kv) → truthy kv = true)
    (hinf : Informed s.world i kind (duty i)) (hlegal : LegalOp o) (hrun : (duty i).run = some r)
    (hnot : ∀ kube st may, duty i ≠ .tending r kube st may) (hallowed : tidyAllowed (duty i) o)
    (hnext : tidyNext (duty i) o a = some d') :
    Accounted ⟨w', s.procs.set i ⟨kind, some p⟩⟩ (Function.update duty i d') r := by
  have hplans : ∀ plan, w'.plans plan = some r → s.world.plans plan = some r := by
    intro plan hplan
    rcases plans_handle hw hplan with hold | happlied
    · exact hold
    · obtain ⟨kube, st, may, hd⟩ := applied_of_allowed hallowed happlied
      exact absurd hd (hnot kube st may)
  have hplace := place_act_of_not_transition hw hrun hallowed
  cases hd : duty i with
  | idle tends =>
    rw [hd] at hrun
    cases hrun
  | tending run kube st may =>
    rw [hd] at hrun
    cases hrun
    exact absurd hd (hnot kube st may)
  | settled run =>
    rw [hd] at hrun hnext hallowed
    cases hrun
    cases tidyNext_settled.symm.trans hnext
    refine accounted_act_frame h hi (hplace ?_) hplans hnot (by simp) (by simp [hd])
    rintro fromStep patch rfl
    cases hallowed
  | ending run copy =>
    rw [hd] at hrun hnext hallowed hinf
    cases hrun
    cases o with
    | transitionRun run' fromStep patch =>
      obtain ⟨rfl, -, hstatus⟩ := hallowed
      cases a with
      | true =>
        cases hnext
        exact accounted_act_ending h hi hw hC hkube hinf hstatus hlegal
      | false =>
        cases hnext
        refine accounted_act_frame h hi (hplace ?_) hplans hnot (by simp) (by simp [hd])
        rintro fromStep patch - ha
        cases eq_of_heq ha
    | getActiveRun | createRun | applyPlan | clearPlan | buildRunK3sPlans => cases hallowed
    | _ =>
      cases hnext
      exact accounted_act_frame h hi (hplace (by simp)) hplans hnot (by simp) (by simp [hd])
  | clearing run owes =>
    rw [hd] at hrun hnext hallowed
    cases hrun
    cases o with
    | clearPlan run' plan =>
      obtain rfl : a = true := hC
      cases hnext
      apply accounted_act_frame h hi (hplace (by simp)) hplans hnot (by simp)
      intro plan' hplan' owes' howes' hmem
      cases hd.symm.trans howes'
      refine ⟨_, rfl, List.mem_filter.mpr ⟨hmem, ?_⟩⟩
      cases hw
      rcases setPlan_plans hplan' with ⟨hne, -⟩ | ⟨-, hnone⟩
      · simpa using hne
      · cases hnone
    | getActiveRun | createRun | applyPlan | transitionRun | buildRunK3sPlans => cases hallowed
    | _ =>
      cases hnext
      apply accounted_act_frame h hi (hplace (by simp)) hplans hnot (by simp)
      intro plan' _ owes' howes' hmem
      exact ⟨owes', hd.symm.trans howes', hmem⟩

theorem accounted_act_foreign (h : Accounted s duty r)
    (hi : s.procs[i]? = some ⟨kind, some (.call o next)⟩) (hw : handle s.world i o a = some w')
    (hallowed : tidyAllowed (duty i) o) (hnext : tidyNext (duty i) o a = some d')
    (hbefore : (duty i).run ≠ some r) (hafter : d'.run ≠ some r) :
    Accounted ⟨w', s.procs.set i ⟨kind, some p⟩⟩ (Function.update duty i d') r := by
  apply accounted_act_frame h hi
  · rcases place_handle hw r with heq | ⟨fromStep, patch, rfl, -⟩ | ⟨input, row, rfl, ha⟩
    · exact heq
    · cases hd : duty i with
      | tending run kube st may =>
        rw [hd] at hallowed hbefore
        exact absurd (congrArg some hallowed.1.symm) hbefore
      | ending run copy =>
        rw [hd] at hallowed hbefore
        exact absurd (congrArg some hallowed.1.symm) hbefore
      | _ =>
        rw [hd] at hallowed
        cases hallowed
    · cases eq_of_heq ha
      cases hd : duty i with
      | idle tends =>
        rw [hd] at hnext
        cases tends <;>
        · cases hnext
          exact absurd rfl hafter
      | _ =>
        rw [hd] at hallowed
        cases hallowed
  · intro plan hplan
    rcases plans_handle hw hplan with hold | happlied
    · exact hold
    · obtain ⟨kube, st, may, hd⟩ := applied_of_allowed hallowed happlied
      rw [hd] at hbefore
      exact absurd rfl hbefore
  · intro kube st may hd
    rw [hd] at hbefore
    exact hbefore rfl
  · rintro kube st may rfl
    exact hafter rfl
  · intro plan _ owes hd
    rw [hd] at hbefore
    exact absurd rfl hbefore

/-- A tick takes up a running run that nobody else is at work on. -/
theorem accounted_act_getActiveRun {row : PlatformUpgradeRunRow}
    {next : Option (ℕ × PlatformUpgradeRunRow) → Call Result} (h : Accounted s duty r)
    (hi : s.procs[i]? = some ⟨kind, some (.call .getActiveRun next)⟩)
    (hw : handle s.world i .getActiveRun (some (r, row)) = some w')
    (hnone : ∀ j kube st may, ¬ Tends s duty r j kube st may)
    (hf : Follows tidy (fun d _ => Done d) p
      (.tending r (truthy row.kubernetesVersion) row.step row.step.plans)) :
    Accounted ⟨w', s.procs.set i ⟨kind, some p⟩⟩ (Function.update duty i
      (.tending r (truthy row.kubernetesVersion) row.step row.step.plans)) r := by
  obtain ⟨hactive, rfl⟩ := handle_getActiveRun hw
  have hplace := place_of_activeRun hactive.symm
  have hlimits : Limits s.world r row.step row.step.plans := by
    cases h.running row.step row.kubernetesVersion hplace with
    | untended _ hlimits => exact hlimits
    | tended j kube may hj _ _ => exact absurd hj (hnone j kube row.step may)
  refine accounted_act_tending hi hf hplace rfl (hlimits.shrink fun _ hplan => hplan) ?_
  intro j kube st may hj
  exact absurd hj (hnone j kube st may)

theorem accounted_act_createRun {input : NewRunInput} {row : PlatformUpgradeRunRow}
    {next : Option (ℕ × PlatformUpgradeRunRow) → Call Result} (h : Accounted s duty r)
    (hi : s.procs[i]? = some ⟨kind, some (.call (.createRun input) next)⟩)
    (hw : handle s.world i (.createRun input) (some (r, row)) = some w')
    (hnone : ∀ j kube st may, ¬ Tends s duty r j kube st may)
    (hf : Follows tidy (fun d _ => Done d) p
      (.tending r (truthy row.kubernetesVersion) .prepareNodes [])) :
    Accounted ⟨w', s.procs.set i ⟨kind, some p⟩⟩ (Function.update duty i
      (.tending r (truthy row.kubernetesVersion) .prepareNodes [])) r := by
  obtain ⟨hunborn, hplace, hplans⟩ := place_createRun hw
  refine accounted_act_tending hi hf hplace rfl ⟨?_, by simp⟩ ?_
  · intro plan hplan
    rw [hplans] at hplan
    exact absurd hplan (h.unborn hunborn plan)
  · intro j kube st may hj
    exact absurd hj (hnone j kube st may)

theorem Kept.busy_of_tends (hK : Kept s duty) (h : Tends s duty r j kube st may) : Busy s r j := by
  obtain ⟨⟨kind', o', next', hj⟩, hd⟩ := h
  obtain ⟨-, hinf⟩ := hK.calls j kind' _ hj
  rw [hd] at hinf
  exact ⟨kind', o', next', hj, hinf.fits, (hinf.took r).mpr rfl⟩

/-- A careful step never brings an answer that the duties do not provide for. -/
theorem tidyNext_of_careful (hC : Careful s (.act i o a) s') : ∃ d', tidyNext d o a = some d' := by
  cases hn : tidyNext d o a with
  | some d' => exact ⟨d', rfl⟩
  | none =>
    exfalso
    unfold tidyNext at hn
    split at hn
    case h_6 => exact absurd hC.1 (by simp)
    case h_9 => split at hn <;> cases hn
    case h_14 => exact absurd (show false = true from hC) (by simp)
    all_goals cases hn

theorem accounted_act (hK : Kept s duty) (h : Accounted s duty r)
    (hi : s.procs[i]? = some ⟨kind, some (.call o next)⟩) (hw : handle s.world i o a = some w')
    (hC : Careful s (.act i o a) s') (hlegal : LegalOp o)
    (hnext : tidyNext (duty i) o a = some d') :
    Accounted ⟨w', s.procs.set i ⟨kind, some (next a)⟩⟩ (Function.update duty i d') r := by
  obtain ⟨⟨hallowed, hfollows⟩, hinf⟩ := hK.calls i kind _ hi
  have hf := hfollows a d' hnext
  by_cases hrun : (duty i).run = some r
  · by_cases ht : ∃ kube st may, duty i = .tending r kube st may
    · obtain ⟨kube, st, may, hd⟩ := ht
      obtain ⟨status, step, kv, hplace, -⟩ := hinf.recalls r hrun
      change tidyAllowed (duty i) o at hallowed
      rw [hd] at hallowed hnext
      by_cases hst : status = .running
      · subst hst
        obtain ⟨rfl, hlimits, hone⟩ := watched_tends h hplace ⟨⟨kind, o, next, hi⟩, hd⟩
        exact accounted_act_tending_running hi hw hC hallowed hnext hf hlegal hplace hlimits hone
      · exact accounted_act_tending_ended h hi hw hC hd hallowed hplace hst
    · refine accounted_act_aside h hi hw hC (hK.kube r) hinf hlegal hrun ?_ hallowed hnext
      intro kube st may hd
      exact ht ⟨kube, st, may, hd⟩
  · by_cases hrun' : d'.run = some r
    · cases hd : duty i with
      | idle tends =>
        have hfits := hinf.fits
        change tidyAllowed (duty i) o at hallowed
        rw [hd] at hfits hallowed hnext
        rcases tidyNext_idle hallowed hnext with ⟨rfl, -⟩ | ⟨q, row, ha, hcases⟩
        · cases hrun'
        · rcases hcases with ⟨rfl, rfl, rfl⟩ | ⟨rfl, rfl, rfl⟩ | ⟨input, rfl, rfl, rfl⟩
          · cases eq_of_heq ha
            cases hrun'
            refine accounted_act_getActiveRun h hi hw ?_ hf
            intro j kube st may hj
            exact hC kind _ hi hfits.symm j (hK.busy_of_tends hj)
          · cases eq_of_heq ha
            cases hrun'
            obtain ⟨-, rfl⟩ := handle_getActiveRun hw
            exact accounted_act_frame h hi rfl (fun _ hplan => hplan) (by simp [hd]) (by simp)
              (by simp [hd])
          · cases eq_of_heq ha
            cases hrun'
            refine accounted_act_createRun h hi hw ?_ hf
            intro j kube st may hj
            obtain ⟨⟨kind', o', next', hj'⟩, hdj⟩ := hj
            obtain ⟨_, _, _, hplace, -⟩ := (hK.calls j kind' _ hj').2.recalls r (by rw [hdj]; rfl)
            cases (place_createRun hw).1.symm.trans hplace
      | _ =>
        exfalso
        cases hq : (duty i).run with
        | none =>
          rw [hd] at hq
          cases hq
        | some q =>
          cases (tidyNext_run hallowed hnext hq).1.symm.trans hrun'
          exact hrun hq
    · exact accounted_act_foreign h hi hw hallowed hnext hrun hrun'

/-- What a call remembers survives its own operations, as long as its duty stays the same. -/
theorem recalls_handle (hw : handle w i o a = some w')
    (htook : ∀ q st, Effect.took q st ∉ effects o a) (h : d.Recalls w i kv) :
    d.Recalls w' i kv := by
  cases d with
  | ending run copy =>
    refine ⟨h.1, fun st hst => h.2 st ?_⟩
    simpa [mem_journal hw, htook] using hst
  | clearing run owes =>
    obtain ⟨st, hst⟩ := h
    exact ⟨st, (mem_journal hw).mpr (Or.inl hst)⟩
  | _ => exact h

/-- The next duty of a call that has taken up a run fits it as the last one did. -/
theorem recalls_next {q : ℕ} (hrun : d.run = some q) (hallowed : tidyAllowed d o)
    (hnext : tidyNext d o a = some d') (hfits : d.Fits kind) (hw : handle w i o a = some w')
    (htook : ∀ q st, Effect.took q st ∉ effects o a) :
    d'.Fits kind ∧ ∀ kv, d.Recalls w i kv → d'.Recalls w' i kv := by
  have hsame : ∀ kv, d.Recalls w i kv → d.Recalls w' i kv := fun _ => recalls_handle hw htook
  unfold tidyNext at hnext
  split at hnext
  case h_9 run kube st may _ _ patch =>
    split at hnext <;>
    · cases hnext
      exact ⟨by first | exact hfits | trivial, fun _ h => by first | exact h | trivial⟩
  case h_11 run copy _ _ patch =>
    cases hnext
    refine ⟨hfits, fun _ _ => ?_⟩
    obtain ⟨st, hst⟩ := Option.ne_none_iff_exists'.mp hallowed.2.2
    obtain rfl := hallowed.1
    refine ⟨st, (mem_journal hw).mpr (Or.inr ⟨rfl, ?_⟩)⟩
    simp [effects, RunPatch.effect, hst]
  all_goals cases hnext
  all_goals first
    | exact ⟨hfits, hsame⟩
    | exact ⟨trivial, fun _ _ => trivial⟩
    | cases hrun

theorem informed_own (hinf : Informed s.world i kind d) (hw : handle s.world i o a = some w')
    (hf : RowsForward s.world.rows w'.rows) (hallowed : tidyAllowed d o)
    (hnext : tidyNext d o a = some d') : Informed w' i kind d' := by
  cases hd : d.run with
  | some q =>
    obtain ⟨hrun, htook⟩ := tidyNext_run hallowed hnext hd
    obtain ⟨hfits, hrec⟩ := recalls_next hd hallowed hnext hinf.fits hw htook
    exact informed_same_run hinf hw hf htook (hrun.trans hd.symm) hfits hrec
  | none =>
    cases d with
    | idle tends =>
      have hfits : tends = kind.tends := hinf.fits
      have hnone : ∀ r, ¬ Took s.world i r := by
        intro r hr
        cases (hinf.took r).mp hr
      rcases tidyNext_idle hallowed hnext with ⟨rfl, htook⟩ | ⟨q, row, ha, hcases⟩
      · exact informed_same_run hinf hw hf htook rfl hfits fun _ => recalls_handle hw htook
      · rcases hcases with ⟨rfl, rfl, rfl⟩ | ⟨rfl, rfl, rfl⟩ | ⟨input, rfl, rfl, rfl⟩ <;>
          cases eq_of_heq ha
        · obtain ⟨hactive, rfl⟩ := handle_getActiveRun hw
          exact informed_taking hnone hw rfl rfl hfits.symm (place_of_activeRun hactive.symm)
            (Or.inr ⟨_, _, rfl⟩)
        · obtain ⟨hactive, rfl⟩ := handle_getActiveRun hw
          exact informed_taking hnone hw rfl rfl hfits.symm (place_of_activeRun hactive.symm)
            (Or.inl rfl)
        · exact informed_taking hnone hw rfl rfl hfits.symm (place_createRun hw).2.1
            (Or.inr ⟨_, _, rfl⟩)
    | _ => cases hd

/-- A run comes into the Kubernetes step only where it has a Kubernetes target. -/
theorem kube_act (hK : Kept s duty) (hi : s.procs[i]? = some ⟨kind, some (.call o next)⟩)
    (hw : handle s.world i o a = some w') (hlegal : LegalOp o)
    (h : w'.place r = some (.running, .upgradeKubernetes, kv)) : truthy kv = true := by
  obtain ⟨⟨hallowed, -⟩, hinf⟩ := hK.calls i kind _ hi
  rcases place_handle hw r with heq | ⟨fromStep, patch, rfl, ha⟩ | ⟨input, row, rfl, ha⟩
  · exact hK.kube r kv (heq ▸ h)
  · cases eq_of_heq ha
    obtain ⟨st, kv', hold, hnew⟩ := place_transition_true hw
    have heq := Option.some.inj (hnew.symm.trans h)
    simp only [Prod.mk.injEq] at heq
    obtain ⟨hstatus, hstep, rfl⟩ := heq
    cases hpstep : patch.step with
    | none =>
      rw [hpstep] at hstep
      simp only [Option.getD_none] at hstep
      subst hstep
      exact hK.kube r kv' hold
    | some step =>
      change tidyAllowed (duty i) _ at hallowed
      cases hd : duty i with
      | tending run kube st' may =>
        rw [hd] at hallowed hinf
        obtain ⟨rfl, -, hpatch⟩ := hallowed
        rw [hpstep] at hpatch hstep
        simp only [Option.getD_some] at hstep
        subst hstep
        obtain ⟨_, _, kv'', hplace, hrec⟩ := hinf.recalls r rfl
        cases hold.symm.trans hplace
        cases hpstatus : patch.status with
        | none =>
          rw [hpstatus] at hpatch
          exact hrec.symm.trans (hpatch.2 rfl)
        | some status =>
          change LegalPatch fromStep patch at hlegal
          unfold LegalPatch at hlegal
          rw [hpstatus, hpstep] at hlegal
          cases hlegal.2.2
      | ending run copy =>
        rw [hd] at hallowed
        cases hallowed.2.1.symm.trans hpstep
      | _ =>
        rw [hd] at hallowed
        cases hallowed
  · cases eq_of_heq ha
    cases (place_createRun hw).2.1.symm.trans h

end Act

theorem kept_spawn (hK : Kept s duty) {rows₀ : List PlatformUpgradeRunRow}
    (hJ : Journalled rows₀ s.world s.procs.length) (kind : Kind) :
    Kept ⟨s.world, s.procs ++ [⟨kind, some (program kind)⟩]⟩
      (Function.update duty s.procs.length (.idle kind.tends)) := by
  have hold : ∀ (j : ℕ) (x : Process Kind Op Ans Result), s.procs[j]? = some x →
      Function.update duty s.procs.length (.idle kind.tends) j = duty j := by
    intro j x hj
    have hlt := lt_length_of_getElem? hj
    exact Function.update_of_ne (by omega) _ _
  refine ⟨?_, hK.kube, ?_⟩
  · intro j kind' p hp
    rcases getElem?_concat_eq_some.mp hp with hj | ⟨rfl, hnew⟩
    · rw [hold j _ hj]
      exact hK.calls j kind' p hj
    · injection hnew with hkind hrest
      injection hrest with hrest
      subst hkind hrest
      rw [Function.update_self]
      refine ⟨tidy_program kind', rfl, ?_, by simp [Duty.run]⟩
      intro q
      have hnot : ¬ Took s.world s.procs.length q := by
        rintro ⟨st, hst⟩
        exact absurd (hJ.actor_lt _ _ hst) (lt_irrefl _)
      simp [hnot, Duty.run]
  · intro q
    refine accounted_frame (hK.runs q) rfl (fun _ hplan => hplan) ?_ ?_
    · intro j kube st may
      constructor
      · rintro ⟨⟨kind', o, next, hj⟩, hd⟩
        rcases getElem?_concat_eq_some.mp hj with hj | ⟨rfl, -⟩
        · rw [hold j _ hj] at hd
          exact ⟨⟨kind', o, next, hj⟩, hd⟩
        · rw [Function.update_self] at hd
          cases hd
      · rintro ⟨⟨kind', o, next, hj⟩, hd⟩
        exact ⟨⟨kind', o, next, getElem?_concat_eq_some.mpr (Or.inl hj)⟩, (hold j _ hj).trans hd⟩
    · rintro plan - ⟨j, kind', p, owes, hj, hd, hplan⟩
      exact ⟨j, kind', p, owes, getElem?_concat_eq_some.mpr (Or.inl hj), (hold j _ hj).trans hd,
        hplan⟩

theorem tends_crash (hji : j ≠ i) :
    Tends ⟨w, s.procs.set i ⟨kind, none⟩⟩ duty r j kube st may ↔ Tends s duty r j kube st may := by
  unfold Tends UnderWay
  rw [List.getElem?_set_ne (Ne.symm hji)]

theorem not_tends_crash (hi : i < s.procs.length) :
    ¬ Tends ⟨w, s.procs.set i ⟨kind, none⟩⟩ duty r i kube st may := by
  rintro ⟨⟨kind', o, next, hcall⟩, -⟩
  rw [List.getElem?_set_self hi] at hcall
  cases hcall

/-- A call that stops midway while it tends the run leaves only Plans of the step. -/
theorem accounted_crash (hK : Kept s duty) (hi : s.procs[i]? = some ⟨kind, some (.call o next)⟩)
    (hC : Careful s (.crash i) s') (r : ℕ) :
    Accounted ⟨s.world, s.procs.set i ⟨kind, none⟩⟩ duty r := by
  obtain ⟨-, hinf⟩ := hK.calls i kind _ hi
  have hlt := lt_length_of_getElem? hi
  have howed : ∀ plan, s.world.plans plan = some r → Owed s duty r plan →
      Owed ⟨s.world, s.procs.set i ⟨kind, none⟩⟩ duty r plan := by
    rintro plan hplan ⟨j, kind', p, owes, hj, hd, hmem⟩
    refine ⟨j, kind', p, owes, getElem?_set_eq_some.mpr (Or.inr ⟨?_, hj⟩), hd, hmem⟩
    rintro rfl
    rw [hd] at hinf
    obtain ⟨_, _, _, hplace, st, hst⟩ := hinf.recalls r rfl
    obtain ⟨row, hrow, -⟩ := place_eq_some.mp hplace
    have hcond := hC kind _ r row plan hi ((hinf.took r).mpr rfl) hrow hplan
    have hfits : kind.tends = false := hinf.fits
    rw [if_neg (by simp [hfits])] at hcond
    exact hcond st hst
  by_cases ht : ∃ kube st may, duty i = .tending r kube st may
  · obtain ⟨kube, st, may, hd⟩ := ht
    rw [hd] at hinf
    refine ⟨(hK.runs r).unborn, ?_, ?_⟩
    · intro st' kv hst'
      obtain ⟨rfl, hlimits, hone⟩ := watched_tends (hK.runs r) hst' ⟨⟨kind, o, next, hi⟩, hd⟩
      refine .untended ?_ ⟨?_, fun plan hplan hk => k3s_mem_plans hplan hk⟩
      · intro j kube' st' may' hj
        by_cases hji : j = i
        · subst hji
          exact not_tends_crash hlt hj
        · exact hji (hone j kube' st' may' ((tends_crash hji).mp hj))
      · intro plan hplan
        obtain ⟨row, hrow, heq⟩ := place_eq_some.mp hst'
        simp only [Prod.mk.injEq] at heq
        have hcond := hC kind _ r row plan hi ((hinf.took r).mpr rfl) hrow hplan
        have hfits : kind.tends = true := hinf.fits
        rw [if_pos hfits, heq.2.1] at hcond
        exact hcond heq.1
    · intro status st' kv hst' hne plan hplan
      exact howed plan hplan ((hK.runs r).ended status st' kv hst' hne plan hplan)
  · refine accounted_frame (hK.runs r) rfl (fun _ hplan => hplan) ?_ howed
    intro j kube st may
    by_cases hji : j = i
    · subst hji
      constructor
      · intro hj
        exact absurd hj (not_tends_crash hlt)
      · rintro ⟨-, hd⟩
        exact absurd ⟨kube, st, may, hd⟩ ht
    · exact tends_crash hji

theorem kept_crash (hK : Kept s duty) (hi : s.procs[i]? = some ⟨kind, some (.call o next)⟩)
    (hC : Careful s (.crash i) s') : Kept ⟨s.world, s.procs.set i ⟨kind, none⟩⟩ duty := by
  refine ⟨?_, hK.kube, accounted_crash hK hi hC⟩
  intro j kind' p hp
  rcases getElem?_set_eq_some.mp hp with ⟨rfl, -, hnew⟩ | ⟨-, hj⟩
  · cases hnew
  · exact hK.calls j kind' p hj

theorem kept_act (hK : Kept s duty) (hi : s.procs[i]? = some ⟨kind, some (.call o next)⟩)
    (hw : handle s.world i o a = some w') (hlegal : LegalOp o) (hC : Careful s (.act i o a) s') :
    ∃ d', Kept ⟨w', s.procs.set i ⟨kind, some (next a)⟩⟩ (Function.update duty i d') := by
  obtain ⟨⟨hallowed, hfollows⟩, hinf⟩ := hK.calls i kind _ hi
  obtain ⟨d', hnext⟩ := tidyNext_of_careful (d := duty i) hC
  have hf : RowsForward s.world.rows w'.rows := rowsForward_handle hlegal hw
  refine ⟨d', ?_, fun q kv hq => kube_act hK hi hw hlegal hq,
    fun q => accounted_act hK (hK.runs q) hi hw hC hlegal hnext⟩
  intro j kind' p hp
  rcases getElem?_set_eq_some.mp hp with ⟨rfl, -, hnew⟩ | ⟨hij, hj⟩
  · injection hnew with hkind hrest
    injection hrest with hrest
    subst hkind hrest
    rw [Function.update_self]
    exact ⟨hfollows a d' hnext, informed_own hinf hw hf hallowed hnext⟩
  · rw [Function.update_of_ne (Ne.symm hij)]
    obtain ⟨hfollows', hinf'⟩ := hK.calls j kind' p hj
    exact ⟨hfollows', informed_other hinf' (Ne.symm hij) hw hf⟩

/-- Every call is in order and keeps to its duty. -/
def Tidied (rows₀ : List PlatformUpgradeRunRow) (s : Config) : Prop :=
  Holds (Journalled rows₀) InOrder s ∧ ∃ duty, Kept s duty

theorem tidied_step {rows₀ : List PlatformUpgradeRunRow} {e : Event} (h : Tidied rows₀ s)
    (hs : step s e = some s') (hC : Careful s e s') : Tidied rows₀ s' := by
  obtain ⟨hord, duty, hK⟩ := h
  refine ⟨inOrder_step hord hs, ?_⟩
  rcases step_cases program handle hs with ⟨kind, rfl, rfl⟩ |
    ⟨i, o, a, kind, next, w, rfl, hi, hw, rfl⟩ | ⟨i, o, kind, next, rfl, hi, rfl⟩
  · exact ⟨_, kept_spawn hK hord.1 kind⟩
  · obtain ⟨b, -, hallowed, -⟩ := hord.2 i kind _ hi
    obtain ⟨d', hK'⟩ := kept_act hK hi hw (legalOp_of_allowed hallowed) hC
    exact ⟨_, hK'⟩
  · exact ⟨duty, kept_crash hK hi hC⟩

theorem tidied_initial {rows : List PlatformUpgradeRunRow}
    (hrows : ∀ row ∈ rows, row.status ≠ .running) : Tidied rows (initial rows fun _ => none) := by
  have hplace : ∀ r st kv, (initial rows fun _ => none).world.place r ≠ some (.running, st, kv) := by
    intro r st kv heq
    obtain ⟨row, hrow, hst⟩ := place_eq_some.mp heq
    simp only [Prod.mk.injEq] at hst
    exact hrows row (List.mem_of_getElem? hrow) hst.1
  refine ⟨inOrder_initial rows _, fun _ => .idle true, ?_, ?_, ?_⟩
  · simp [initial]
  · intro r kv hr
    exact absurd hr (hplace r _ kv)
  · intro r
    refine ⟨by simp [initial], ?_, by simp [initial]⟩
    intro st kv hr
    exact absurd hr (hplace r st kv)

/-- From a state where no run is running and no Plan exists, in every interleaving whose steps are
all careful: once a run has ended and no call that took it up is still under way, none of its Plans
exists. -/
theorem no_orphan_plan (rows : List PlatformUpgradeRunRow) (es : List Event) (s : Config)
    (hrows : ∀ row ∈ rows, row.status ≠ .running)
    (hs : exec step (initial rows fun _ => none) es = some s)
    (hcond : Along step Careful (initial rows fun _ => none) es) (r : ℕ)
    (row : PlatformUpgradeRunRow) (hrow : s.world.rows[r]? = some row)
    (hended : row.status ≠ .running) (hfinished : ∀ i, Took s.world i r → ¬ UnderWay s i) :
    ∀ plan, s.world.plans plan ≠ some r := by
  obtain ⟨-, duty, hK⟩ := exec_invariant_along step (fun _ _ _ h hs hC => tidied_step h hs hC)
    (tidied_initial hrows) hcond hs
  intro plan hplan
  have hplace : s.world.place r = some (row.status, row.step, row.kubernetesVersion) :=
    place_eq_some.mpr ⟨row, hrow, rfl⟩
  obtain ⟨i, kind, p, owes, hi, hd, hmem⟩ := (hK.runs r).ended _ _ _ hplace hended plan hplan
  obtain ⟨hfollows, hinf⟩ := hK.calls i kind p hi
  rw [hd] at hfollows hinf
  cases p with
  | call o next => exact hfinished i ((hinf.took r).mpr rfl) ⟨kind, o, next, hi⟩
  | pure res =>
    -- the call that owes the Plan has returned, so it owes nothing
    have hnone : owes = [] := hfollows
    rw [hnone] at hmem
    cases hmem

def cancelledBeforeApply : List Event :=
  [.spawn (.start ⟨"2026.10.7", none⟩),
    .act 0 (.createRun ⟨"2026.10.7", none⟩) (some (0, preparing))] ++ cancelling ++
    [.act 0 (.applyPlan 0 .nodeUpdate) .ok]

theorem not_underWay_of_all {s : Config}
    (h : (s.procs.all fun q => q.rest.all hasReturned) = true) (i : ℕ) : ¬ UnderWay s i := by
  rintro ⟨kind, o, next, hi⟩
  have hq := List.all_eq_true.mp h _ (List.mem_of_getElem? hi)
  simp [hasReturned] at hq

/-- Both calls have returned, and the cancelled run has a Plan that nobody will delete. -/
theorem orphan_plan_after_cancel :
    ∃ s row, exec step (initial [] fun _ => none) cancelledBeforeApply = some s ∧
      s.world.rows[0]? = some row ∧ row.status = .cancelled ∧ (∀ i, ¬ UnderWay s i) ∧
        s.world.plans .nodeUpdate = some 0 :=
  ⟨_, _, rfl, rfl, rfl, not_underWay_of_all rfl, rfl⟩

theorem careful_cancelling :
    Along step Careful (initial [] fun _ => none) (startedRun ++ cancelling) := by
  refine along_cons_of step rfl trivial (along_cons_of step rfl trivial ?_)
  refine along_cons_of step rfl ⟨_, rfl, rfl⟩ (along_cons_of step rfl trivial ?_)
  refine along_cons_of step rfl ?_ (along_cons_of step rfl trivial ?_)
  · rintro kind p ⟨⟩ htends
    cases htends
  · apply along_cons_of step rfl
    · rintro kind p row ⟨⟩ - ⟨⟩ hstep
      cases hstep
    · refine along_cons_of step rfl rfl (along_cons_of step rfl rfl ?_)
      exact along_cons_of step rfl trivial trivial

theorem no_orphan_plan_cancelled :
    ∃ s row, exec step (initial [] fun _ => none) (startedRun ++ cancelling) = some s ∧
      s.world.rows[0]? = some row ∧ row.status = .cancelled ∧ (∀ i, ¬ UnderWay s i) ∧
        ∀ plan, s.world.plans plan ≠ some 0 :=
  ⟨_, _, rfl, rfl, rfl, not_underWay_of_all rfl, no_orphan_plan [] (startedRun ++ cancelling) _
    (by simp) rfl careful_cancelling 0 _ rfl (by decide) fun i _ => not_underWay_of_all rfl i⟩

end Insula.PlatformUpgrade
