import Insula.UpgradeMachine

/-!
# What the calls on a run may do to its row

Every change of a run's step or status is a conditional update whose condition names the step it
leaves, or that ends the run. From that the stored rows only move forward, and the journal has at
most one end for each run.
-/

namespace Insula.PlatformUpgrade

open Transition Lookup Concurrent

def RunStep.rank : RunStep → ℕ
  | .prepareNodes => 0
  | .updateServices => 1
  | .finish => 2
  | .upgradeKubernetes => 3
  | .done => 4

def PlatformUpgradeRunRow.stage (row : PlatformUpgradeRunRow) : ℕ :=
  if row.status = .running then row.step.rank else 5

/-- A later state of the same row: no step back, and nothing changes once it has ended. -/
structure Forward (old new : PlatformUpgradeRunRow) : Prop where
  ended : old.status ≠ .running → new.status = old.status ∧ new.step = old.step
  stage : old.stage ≤ new.stage
  step : old.step.rank ≤ new.step.rank
  kubernetesVersion : new.kubernetesVersion = old.kubernetesVersion

theorem Forward.refl (row : PlatformUpgradeRunRow) : Forward row row :=
  ⟨fun _ => ⟨rfl, rfl⟩, le_refl _, le_refl _, rfl⟩

theorem Forward.trans {a b c : PlatformUpgradeRunRow} (hab : Forward a b) (hbc : Forward b c) :
    Forward a c := by
  refine ⟨?_, hab.stage.trans hbc.stage, hab.step.trans hbc.step,
    hbc.kubernetesVersion.trans hab.kubernetesVersion⟩
  intro ha
  obtain ⟨hst, hstep⟩ := hab.ended ha
  have hb : b.status ≠ .running := by rwa [hst]
  obtain ⟨hst', hstep'⟩ := hbc.ended hb
  exact ⟨hst'.trans hst, hstep'.trans hstep⟩

def RowsForward (old new : List PlatformUpgradeRunRow) : Prop :=
  ∀ (r : ℕ) (row : PlatformUpgradeRunRow), old[r]? = some row →
    ∃ row', new[r]? = some row' ∧ Forward row row'

theorem RowsForward.refl (rows : List PlatformUpgradeRunRow) : RowsForward rows rows :=
  fun _ row h => ⟨row, h, Forward.refl row⟩

theorem RowsForward.trans {a b c : List PlatformUpgradeRunRow} (hab : RowsForward a b)
    (hbc : RowsForward b c) : RowsForward a c := by
  intro r row hrow
  obtain ⟨row', hrow', hf⟩ := hab r row hrow
  obtain ⟨row'', hrow'', hf'⟩ := hbc r row' hrow'
  exact ⟨row'', hrow'', hf.trans hf'⟩

/-- A conditional update moves a run to a later step, from the step it names, or ends it; only from
the prepare step as cancelled, and then where it is. -/
def LegalPatch (fromStep : Option RunStep) (patch : RunPatch) : Prop :=
  match patch.status, patch.step with
  | none, none => True
  | none, some step => ∃ st, fromStep = some st ∧ st.rank < step.rank
  | some status, none => status ≠ .running ∧ (status = .cancelled → fromStep = some .prepareNodes)
  | some status, some step => status ≠ .running ∧ status ≠ .cancelled ∧ step = .done

/-- The condition of the conditional update, as the row meets it. -/
def Meets (row : PlatformUpgradeRunRow) (fromStep : Option RunStep) : Prop :=
  row.status = .running ∧ ∀ st, fromStep = some st → row.step = st

variable {row : PlatformUpgradeRunRow} {fromStep : Option RunStep} {patch : RunPatch} {w w' : World}
  {r i : ℕ}

theorem transitionAllowed_iff : transitionAllowed row fromStep = true ↔ Meets row fromStep := by
  cases fromStep <;> simp [transitionAllowed, Meets]

theorem rank_le_done (st : RunStep) : st.rank ≤ RunStep.done.rank := by
  cases st <;> simp [RunStep.rank]

theorem stage_le_five (row : PlatformUpgradeRunRow) : row.stage ≤ 5 := by
  have hrank := rank_le_done row.step
  unfold PlatformUpgradeRunRow.stage
  split_ifs
  · exact hrank.trans (by decide)
  · exact le_refl 5

theorem forward_of_legal (hlegal : LegalPatch fromStep patch) (hmeets : Meets row fromStep) :
    Forward row (patch.set row) := by
  obtain ⟨hrunning, hfrom⟩ := hmeets
  have hstage : row.stage = row.step.rank := by simp [PlatformUpgradeRunRow.stage, hrunning]
  have hnot : row.status ≠ .running → (patch.set row).status = row.status ∧
      (patch.set row).step = row.step := fun h => absurd hrunning h
  unfold LegalPatch at hlegal
  split at hlegal
  case h_1 hst hstep => exact ⟨hnot, by simp [PlatformUpgradeRunRow.stage, RunPatch.set, hst, hstep],
    by simp [RunPatch.set, hstep], rfl⟩
  case h_2 step hst hstep =>
    obtain ⟨st, hst', hlt⟩ := hlegal
    have hrow : row.step = st := hfrom st hst'
    have hle : row.step.rank ≤ step.rank := by
      rw [hrow]
      omega
    refine ⟨hnot, ?_, ?_, rfl⟩
    · simpa [PlatformUpgradeRunRow.stage, RunPatch.set, hst, hstep, hrunning] using hle
    · simpa [RunPatch.set, hstep] using hle
  case h_3 status hst hstep =>
    refine ⟨hnot, ?_, by simp [RunPatch.set, hstep], rfl⟩
    have hend : (patch.set row).stage = 5 := by
      simp [PlatformUpgradeRunRow.stage, RunPatch.set, hst, hlegal.1]
    rw [hend]
    exact stage_le_five row
  case h_4 status step hst hstep =>
    refine ⟨hnot, ?_, ?_, rfl⟩
    · have hend : (patch.set row).stage = 5 := by
        simp [PlatformUpgradeRunRow.stage, RunPatch.set, hst, hlegal.1]
      rw [hend]
      exact stage_le_five row
    · simpa [RunPatch.set, hstep, hlegal.2.2] using rank_le_done row.step

theorem activeRun_eq_some (h : w.activeRun = some (r, row)) :
    w.rows[r]? = some row ∧ row.status = .running := by
  unfold World.activeRun at h
  obtain ⟨p, hp, hpr⟩ := Option.map_eq_some_iff.mp h
  cases hpr
  have hst := List.find?_some hp
  refine ⟨?_, by simpa using hst⟩
  have hmem := List.mem_of_find?_eq_some hp
  exact List.mem_zipIdx_iff_getElem?.mp hmem

theorem handle_transition_true (h : handle w i (.transitionRun r fromStep patch) true = some w') :
    ∃ row, w.rows[r]? = some row ∧ Meets row fromStep ∧
      w' = { w.setRow r (patch.set row) with
        journal := w.journal ++ (patch.effect r).map fun e => (i, e) } := by
  simp only [handle, transitionRun] at h
  split at h
  case h_1 row hrow =>
    by_cases hmeets : transitionAllowed row fromStep = true
    · simp only [hmeets, if_true, Option.some.injEq] at h
      exact ⟨row, hrow, transitionAllowed_iff.mp hmeets, h.symm⟩
    · simp [hmeets] at h
  case h_2 => simp at h

/-- Answered false: nothing has changed, and the row did not meet the condition. -/
theorem handle_transition_false (h : handle w i (.transitionRun r fromStep patch) false = some w') :
    w' = w ∧ ∀ row, w.rows[r]? = some row → ¬ Meets row fromStep := by
  simp only [handle, transitionRun] at h
  split at h
  case h_1 row hrow =>
    by_cases hmeets : transitionAllowed row fromStep = true
    · simp [hmeets] at h
    · simp only [hmeets, Bool.false_eq_true, if_false, if_true, Option.some.injEq] at h
      refine ⟨h.symm, fun row' hrow' => ?_⟩
      cases hrow.symm.trans hrow'
      rwa [← transitionAllowed_iff]
  case h_2 hrow =>
    simp only [if_true, Option.some.injEq] at h
    refine ⟨h.symm, fun row' hrow' => ?_⟩
    rw [hrow] at hrow'
    cases hrow'

theorem handle_getActiveRun {r : Option (ℕ × PlatformUpgradeRunRow)}
    (h : handle w i .getActiveRun r = some w') : r = w.activeRun ∧ w' = w.take i r := by
  simp only [handle] at h
  split_ifs at h with hr
  exact ⟨hr, (Option.some.inj h).symm⟩

/-- A run is recorded, or another one is running. -/
theorem handle_createRun {input : NewRunInput} {r : Option (ℕ × PlatformUpgradeRunRow)}
    (h : handle w i (.createRun input) r = some w') :
    (r = none ∧ w.activeRun.isSome = true ∧ w' = w) ∨
      ∃ run row, r = some (run, row) ∧ w.activeRun = none ∧ run = w.rows.length ∧
        row = newRow input row.stepStartedAt ∧
          w' = ({ w with rows := w.rows ++ [row] } : World).log i (.took run row.step) := by
  obtain ⟨w₁, hw₁, hw'⟩ := Option.map_eq_some_iff.mp h
  unfold createRun at hw₁
  split at hw₁
  · split_ifs at hw₁ with hsome
    cases hw₁
    exact Or.inl ⟨rfl, hsome, hw'.symm⟩
  · split_ifs at hw₁ with hnone
    cases hw₁
    exact Or.inr ⟨_, _, rfl, hnone.1, hnone.2.1, hnone.2.2, hw'.symm⟩

def World.place (w : World) (r : ℕ) : Option (RunStatus × RunStep × Option String) :=
  (w.rows[r]?).map fun row => (row.status, row.step, row.kubernetesVersion)

theorem place_eq_some {p : RunStatus × RunStep × Option String} :
    w.place r = some p ↔
      ∃ row, w.rows[r]? = some row ∧ (row.status, row.step, row.kubernetesVersion) = p :=
  Option.map_eq_some_iff

theorem place_eq_none : w.place r = none ↔ w.rows[r]? = none :=
  Option.map_eq_none_iff

theorem place_of_activeRun (h : w.activeRun = some (r, row)) :
    w.place r = some (.running, row.step, row.kubernetesVersion) := by
  obtain ⟨hrow, hst⟩ := activeRun_eq_some h
  exact place_eq_some.mpr ⟨row, hrow, by rw [hst]⟩

theorem place_set_of_ne {q : ℕ} (hqr : q ≠ r) : (w.setRow q row).place r = w.place r := by
  unfold World.place World.setRow
  rw [List.getElem?_set_ne hqr]

theorem place_updateRun {run : ℕ} {nodes : List UpgradeRunNode} :
    (updateRun w run { nodes := some nodes }).place r = w.place r := by
  unfold updateRun
  split
  case h_1 row hrow =>
    by_cases hrun : run = r
    · subst hrun
      have hset : (w.rows.set run (RunPatch.set { nodes := some nodes } row))[run]? =
          some (RunPatch.set { nodes := some nodes } row) :=
        getElem?_set_eq_some.mpr (Or.inl ⟨rfl, lt_length_of_getElem? hrow, rfl⟩)
      unfold World.place World.setRow
      rw [hset, hrow]
      rfl
    · exact place_set_of_ne hrun
  case h_2 => rfl

/-- A conditional update that went through found the run running and set it. -/
theorem place_transition_true (h : handle w i (.transitionRun r fromStep patch) true = some w') :
    ∃ st kv, w.place r = some (.running, st, kv) ∧
      w'.place r = some (patch.status.getD .running, patch.step.getD st, kv) := by
  obtain ⟨row, hrow, ⟨hst, -⟩, rfl⟩ := handle_transition_true h
  refine ⟨row.step, row.kubernetesVersion, place_eq_some.mpr ⟨row, hrow, by rw [hst]⟩, ?_⟩
  refine place_eq_some.mpr ⟨patch.set row, ?_, by rw [← hst]; rfl⟩
  exact getElem?_set_eq_some.mpr (Or.inl ⟨rfl, lt_length_of_getElem? hrow, rfl⟩)

/-- One that did not go through found the run ended, or in another step than the one it names. -/
theorem place_transition_false (h : handle w i (.transitionRun r fromStep patch) false = some w')
    {st : RunStep} {kv : Option String} (hp : w.place r = some (.running, st, kv)) :
    ∃ st', fromStep = some st' ∧ st' ≠ st := by
  obtain ⟨-, hnot⟩ := handle_transition_false h
  obtain ⟨row, hrow, heq⟩ := place_eq_some.mp hp
  simp only [Prod.mk.injEq] at heq
  have hmeets := hnot row hrow
  cases fromStep with
  | none => exact absurd ⟨heq.1, by simp⟩ hmeets
  | some st' => exact ⟨st', rfl, fun hst => hmeets ⟨heq.1, by simp [hst, heq.2.1]⟩⟩

theorem place_createRun {input : NewRunInput}
    (h : handle w i (.createRun input) (some (r, row)) = some w') :
    w.place r = none ∧ w'.place r = some (.running, .prepareNodes, row.kubernetesVersion) ∧
      w'.plans = w.plans := by
  rcases handle_createRun h with ⟨hnone, -⟩ | ⟨run, row', heq, -, hrun, hrow, rfl⟩
  · cases hnone
  · cases heq
    refine ⟨place_eq_none.mpr (List.getElem?_eq_none (by omega)), ?_, rfl⟩
    refine place_eq_some.mpr ⟨row, getElem?_concat_eq_some.mpr (Or.inr ⟨hrun, rfl⟩), ?_⟩
    rw [hrow]
    rfl

/-- Any operation leaves a run's place as it is, unless it creates the run or is a conditional
update of it that goes through. -/
theorem place_handle {o : Op} {a : Ans o} (h : handle w i o a = some w') (r : ℕ) :
    w'.place r = w.place r ∨
      (∃ fromStep patch, o = .transitionRun r fromStep patch ∧ HEq a true) ∨
      ∃ (input : NewRunInput) (row : PlatformUpgradeRunRow),
        o = .createRun input ∧ HEq a (some (r, row)) := by
  cases o with
  | transitionRun run fromStep patch =>
    cases a with
    | false =>
      obtain ⟨rfl, -⟩ := handle_transition_false h
      exact Or.inl rfl
    | true =>
      by_cases hrun : run = r
      · subst hrun
        exact Or.inr (Or.inl ⟨fromStep, patch, rfl, HEq.rfl⟩)
      · obtain ⟨row, -, -, rfl⟩ := handle_transition_true h
        exact Or.inl (place_set_of_ne hrun)
  | createRun input =>
    rcases handle_createRun h with ⟨-, -, rfl⟩ | ⟨run, row, rfl, -, hrun, -, rfl⟩
    · exact Or.inl rfl
    · by_cases hr : run = r
      · subst hr
        exact Or.inr (Or.inr ⟨input, row, rfl, HEq.rfl⟩)
      · left
        change ((w.rows ++ [row])[r]?).map _ = (w.rows[r]?).map _
        congr 1
        by_cases hlt : r < w.rows.length
        · exact List.getElem?_append_left hlt
        · rw [List.getElem?_eq_none (by simp; omega), List.getElem?_eq_none (by omega)]
  | updateRun run nodes =>
    cases h
    exact Or.inl place_updateRun
  | applyPlan run plan =>
    cases a with
    | ok =>
      cases h
      exact Or.inl rfl
    | failed reason landed =>
      cases h
      cases landed <;> exact Or.inl rfl
  | clearPlan run plan =>
    cases h
    cases a <;> exact Or.inl rfl
  | getActiveRun =>
    obtain ⟨-, rfl⟩ := handle_getActiveRun h
    cases a <;> exact Or.inl rfl
  | planExists plan =>
    simp only [handle] at h
    split_ifs at h
    cases h
    exact Or.inl rfl
  | now | assessRunNodes | assessKubernetesNodes | buildRunK3sPlans | deletePlan | servicesState |
    startServices | finalize | progress =>
      cases h
      exact Or.inl rfl

def LegalOp : Op → Prop
  | .transitionRun _ fromStep patch => LegalPatch fromStep patch
  | _ => True

theorem forward_of_place {old new : PlatformUpgradeRunRow}
    (h : (new.status, new.step, new.kubernetesVersion) =
      (old.status, old.step, old.kubernetesVersion)) : Forward old new := by
  simp only [Prod.mk.injEq] at h
  obtain ⟨hst, hstep, hkv⟩ := h
  refine ⟨fun _ => ⟨hst, hstep⟩, ?_, by rw [hstep], hkv⟩
  unfold PlatformUpgradeRunRow.stage
  rw [hst, hstep]

/-- Any legal operation of anybody moves the rows forward. -/
theorem rowsForward_handle {o : Op} {r : Ans o} (hlegal : LegalOp o)
    (h : handle w i o r = some w') : RowsForward w.rows w'.rows := by
  intro run row hrow
  have hplace : w.place run = some (row.status, row.step, row.kubernetesVersion) :=
    place_eq_some.mpr ⟨row, hrow, rfl⟩
  rcases place_handle h run with heq | ⟨fromStep, patch, rfl, hr⟩ | ⟨input, row', rfl, hr⟩
  · obtain ⟨row', hrow', hsame⟩ := place_eq_some.mp (heq.trans hplace)
    exact ⟨row', hrow', forward_of_place hsame⟩
  · cases eq_of_heq hr
    obtain ⟨row', hrow', hmeets, rfl⟩ := handle_transition_true h
    cases hrow.symm.trans hrow'
    refine ⟨patch.set row, ?_, forward_of_legal hlegal hmeets⟩
    exact getElem?_set_eq_some.mpr (Or.inl ⟨rfl, lt_length_of_getElem? hrow, rfl⟩)
  · cases eq_of_heq hr
    rw [(place_createRun h).1] at hplace
    cases hplace

theorem RowsForward.place (hf : RowsForward w.rows w'.rows) {st : RunStatus} {step : RunStep}
    {kv : Option String} (h : w.place r = some (st, step, kv)) :
    ∃ st' step', w'.place r = some (st', step', kv) := by
  obtain ⟨row, hrow, heq⟩ := place_eq_some.mp h
  cases heq
  obtain ⟨row', hrow', hfor⟩ := hf r row hrow
  refine ⟨row'.status, row'.step, place_eq_some.mpr ⟨row', hrow', ?_⟩⟩
  rw [hfor.kubernetesVersion]

end Insula.PlatformUpgrade
