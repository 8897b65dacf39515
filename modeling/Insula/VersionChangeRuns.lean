import Insula.Stages
import Insula.VersionChanges

/-!
# Version changes beside each other

The lock compares `installed_version`, which it does not change, so two changes from one version
both get it, and what is written after it is not compared with anything. Where the row reads as
settled at every lock, one change is in progress at a time.
-/

namespace Insula.Deployments

open Program Concurrent Transition

inductive Request
  | upgrade (input : UpgradeVersionInput)
  | rollback

def program (tenantId deploymentId : String) :
    Request → Program Op (fun o => Except Thrown (Val o)) (Except Thrown (Option Deployment))
  | .upgrade input => (upgradeDeploymentVersion tenantId deploymentId input).run
  | .rollback => (rollbackDeploymentVersion tenantId deploymentId).run

abbrev Ans (o : Op) : Type := Except Thrown (Val o)

/-! ## The state of the runs -/

/-- How far a call has come. It has read `d`, and its lock sets `lock`. -/
inductive Phase
  | idle
  | read (d : Deployment)
  | locked (d : Deployment) (lock : Changes)
  | deployed (d : Deployment) (lock : Changes)
  | failed (d : Deployment) (lock : Changes)
  | finished
  | reverted
  | refused

namespace Phase

def InProgress : Phase → Prop
  | .locked _ _ => True
  | .deployed _ _ => True
  | .failed _ _ => True
  | _ => False

def afterUpdate (set : Changes) (matched : Bool) : Phase → Phase
  | .read d => if matched then .locked d set else .refused
  | .deployed _ _ => .finished
  | .failed _ _ => .reverted
  | b => b

def afterTenant (tenant : Option Tenant) : Phase → Phase
  | .locked d lock =>
    if ((tenant.bind Tenant.kubernetesNamespace).filter (· ≠ "")).isSome then .locked d lock
    else .refused
  | b => b

def afterDeploy (succeeded : Bool) : Phase → Phase
  | .locked d lock => if succeeded then .deployed d lock else .failed d lock
  | b => b

def next (b : Phase) : (o : Op) → Ans o → Option Phase
  | .deployCatalogEntry _ _, .error _ => some (b.afterDeploy false)
  | .deployCatalogEntry _ _, .ok _ => some (b.afterDeploy true)
  | .selectDeployment _ _, .ok (some d) => some (.read d)
  | .update _ _ set, .ok matched => some (b.afterUpdate set matched)
  | .selectTenant _, .ok tenant => some (b.afterTenant tenant)
  | _, .ok _ => some b
  | _, .error _ => none

end Phase

structure Versions where
  installedVersion : Option String
  previousVersion : Option String
  targetVersion : Option String

def Deployment.versions (row : Deployment) : Versions where
  installedVersion := row.installedVersion
  previousVersion := row.previousVersion
  targetVersion := row.targetVersion

structure World where
  row : Deployment
  /-- The version of the last deploy call that succeeded. -/
  running : Option String
  phase : ℕ → Phase
  /-- What a call's lock found. -/
  lockedAt : ℕ → Versions

namespace World

variable (w : World) (i : ℕ)

def answerUpdate (id : String) (guard : Guard) (set : Changes) (matched : Bool) : Option World :=
  if matched = (w.row.id = id && guard.holds w.row) then
    if matched then
      some { w with
        row := set.applyTo w.row
        lockedAt :=
          match w.phase i with
          | .read _ => Function.update w.lockedAt i w.row.versions
          | _ => w.lockedAt }
    else some w
  else none

def answer : (o : Op) → Ans o → Option World
  | .selectDeployment tenantId id, .ok d =>
    if d = (if w.row.id = id && w.row.tenantId = tenantId then some w.row else none) then some w
    else none
  | .update id guard set, .ok matched => w.answerUpdate i id guard set matched
  | .deployCatalogEntry version _, .ok _ => some { w with running := version }
  | _, _ => some w

def handle (o : Op) (r : Ans o) : Option World :=
  (Phase.next (w.phase i) o r).bind fun b =>
    (w.answer i o r).map fun w' => { w' with phase := Function.update w.phase i b }

end World

abbrev State := Config World Request Op Ans (Except Thrown (Option Deployment))

abbrev Step := Event Request Op Ans

structure Start (s : State) : Prop where
  procs : s.procs = []
  idle : ∀ i, s.world.phase i = .idle
  running : s.world.running = s.world.row.installedVersion

/-! ## What a call does -/

section Follows

variable (deploymentId : String)

/-- The updates of a call, by how far it has come. -/
def AllowedUpdate (b : Phase) (id : String) (guard : Guard) (set : Changes) : Prop :=
  id = deploymentId ∧
    match b with
    | .read d => guard.installedVersion = some d.installedVersion ∧ set.installedVersion = none ∧
        set.targetVersion.isSome
    | .deployed _ lock => guard = {} ∧ set.installedVersion = lock.targetVersion ∧
        set.targetVersion = none
    | .failed d lock => guard = {} ∧ set.installedVersion = none ∧
        set.targetVersion = some d.installedVersion ∧
        set.previousVersion = lock.previousVersion.map fun _ => d.previousVersion
    | _ => False

def Allowed (b : Phase) : Op → Prop
  | .selectDeployment _ _ => b = .idle
  | .update id guard set => AllowedUpdate deploymentId b id guard set
  | .deployCatalogEntry version _ => ∃ d lock, b = .locked d lock ∧ lock.targetVersion = some version
  | _ => True

def discipline : Discipline Op Ans Phase where
  allowed := Allowed deploymentId
  next := Phase.next

variable {deploymentId} {b : Phase} {E : Phase → Prop} {d : Deployment}

theorem ask_ends {o : Op} {R : Phase → Val o → Prop} (ho : Allowed deploymentId b o)
    (hok : ∀ a b', b.next o (.ok a) = some b' → R b' a)
    (herror : ∀ e b', b.next o (.error e) = some b' → E b') :
    Follows (discipline deploymentId) (Ends R E) (ask o).run b :=
  follows_run_request.mpr ⟨ho, hok, herror⟩

/-- A read that the call only needs the answer of. -/
theorem quiet_ends {o : Op} (ho : Allowed deploymentId b o) (hok : ∀ a, b.next o (.ok a) = some b)
    (herror : ∀ e, b.next o (.error e) = none) :
    Follows (discipline deploymentId) (Ends (fun b' _ => b' = b) E) (ask o).run b := by
  apply ask_ends ho
  · intro a b' hb'
    rw [hok a] at hb'
    exact (Option.some.inj hb').symm
  · intro e b' hb'
    rw [herror e] at hb'
    cases hb'

theorem refuseDeleted_ends {action : String} (hb : E b) :
    Follows (discipline deploymentId) (Ends (fun b' _ => b' = b) E) (refuseDeleted d action).run b := by
  unfold refuseDeleted
  split
  · exact ends_throw hb
  · exact ends_pure rfl

theorem assertCatalogSourced_ends (hb : E b) :
    Follows (discipline deploymentId) (Ends (fun b' _ => b' = b) E) (assertCatalogSourced d).run b := by
  unfold assertCatalogSourced
  split
  · exact ends_throw hb
  · exact ends_pure rfl

theorem loadDeployment_ends {tenantId : String} :
    Follows (discipline deploymentId) (Ends (fun b' d => b' = .read d) fun _ => True)
      (loadDeployment tenantId deploymentId).run .idle := by
  unfold loadDeployment
  refine ends_bind (R := fun b' found => ∀ d, found = some d → b' = .read d)
    (ask_ends rfl ?_ fun _ _ _ => trivial) ?_
  · rintro _ b' hb' d rfl
    exact (Option.some.inj hb').symm
  · intro b' found hfound
    cases found with
    | none => exact ends_throw trivial
    | some d =>
      cases hfound d rfl
      apply ends_bind (assertCatalogSourced_ends trivial)
      rintro _ - rfl
      exact ends_pure rfl

theorem loadEntry_ends (hb : E b) :
    Follows (discipline deploymentId) (Ends (fun b' _ => b' = b) E) (loadEntry d).run b := by
  unfold loadEntry
  refine ends_bind (quiet_ends trivial (fun _ => rfl) fun _ => rfl) ?_
  rintro _ found rfl
  cases found with
  | none => exact ends_throw hb
  | some entry => exact ends_pure rfl

theorem resolve_ends {entry : CatalogEntry} {version : Option String} :
    Follows (discipline deploymentId) (Ends (fun b' _ => b' = b) E)
      (resolveVersionAwareDeploymentConfig entry version).run b := by
  unfold resolveVersionAwareDeploymentConfig
  split
  · exact ends_pure rfl
  · refine ends_bind (quiet_ends trivial (fun _ => rfl) fun _ => rfl) ?_
    rintro _ found rfl
    exact ends_pure rfl

theorem assertUpgradePath_ends {entry : CatalogEntry} {target : CatalogVersion}
    {input : UpgradeVersionInput} (hb : E b) :
    Follows (discipline deploymentId) (Ends (fun b' _ => b' = b) E)
      (assertUpgradePath d entry target input).run b := by
  unfold assertUpgradePath
  dsimp only
  split
  · exact ends_pure rfl
  · split
    · exact ends_pure rfl
    · split
      · exact ends_throw hb
      · split
        · exact ends_pure rfl
        · exact ends_throw hb

section Locked

variable {d : Deployment} {lock : Changes}

theorem deployVersion_ends {version kubernetesNamespace : String} {entry : CatalogEntry}
    {tenant : Option Tenant} {resolved : ResolvedDeploymentConfig}
    (hversion : lock.targetVersion = some (some version)) :
    Follows (discipline deploymentId) (Ends (fun b' _ => b' = .deployed d lock) (· = .failed d lock))
      (deployVersion version d entry tenant kubernetesNamespace resolved).run (.locked d lock) := by
  unfold deployVersion
  refine ends_bind (quiet_ends trivial (fun _ => rfl) fun _ => rfl) ?_
  rintro _ diskLimits rfl
  refine ends_bind (quiet_ends trivial (fun _ => rfl) fun _ => rfl) ?_
  rintro _ routes rfl
  refine ask_ends ⟨d, lock, rfl, hversion⟩ ?_ ?_
  · intro _ b' hb'
    exact (Option.some.inj hb').symm
  · intro _ b' hb'
    exact (Option.some.inj hb').symm

theorem changeVersion_ends {tenantId version code : String} {entry : CatalogEntry}
    {resolved : ResolvedDeploymentConfig} {finish : Changes} {revert : String → Changes}
    (hversion : lock.targetVersion = some (some version))
    (hfinish : finish.installedVersion = lock.targetVersion ∧ finish.targetVersion = none)
    (hrevert : ∀ message, (revert message).installedVersion = none ∧
      (revert message).targetVersion = some d.installedVersion ∧
      (revert message).previousVersion = lock.previousVersion.map fun _ => d.previousVersion) :
    Follows (discipline deploymentId) (Ends (fun _ _ => True) fun _ => True)
      (changeVersion tenantId deploymentId version d entry resolved finish revert code).run
      (.locked d lock) := by
  unfold changeVersion
  refine ends_bind (R := fun b' tenant => b' = Phase.afterTenant tenant (.locked d lock))
    (ask_ends trivial ?_ fun _ _ _ => trivial) ?_
  · intro tenant b' hb'
    exact (Option.some.inj hb').symm
  rintro _ tenant rfl
  apply ends_bind (R := fun b' _ => b' = .locked d lock)
  · unfold loadNamespace Phase.afterTenant
    cases (tenant.bind Tenant.kubernetesNamespace).filter (· ≠ "") with
    | none => exact ends_throw trivial
    | some name => exact ends_pure rfl
  rintro _ kubernetesNamespace rfl
  refine ends_bind (R := fun _ _ => True) (ends_tryCatch (Y := (· = .failed d lock)) ?_ ?_) ?_
  · apply ends_bind (deployVersion_ends hversion)
    rintro _ - rfl
    refine ends_bind (R := fun _ _ => True) (ask_ends ⟨rfl, rfl, hfinish⟩ (fun _ _ _ => trivial) ?_) ?_
    · intro e b' hb'
      cases hb'
    · intro _ _ _
      exact ends_pure trivial
  · rintro _ e rfl
    refine ends_bind (R := fun _ _ => True)
      (ask_ends ⟨rfl, rfl, hrevert e.message⟩ (fun _ _ _ => trivial) fun _ _ _ => trivial) ?_
    intro _ _ _
    exact ends_throw trivial
  · intro _ _ _
    exact ask_ends trivial (fun _ _ _ => trivial) fun _ _ _ => trivial

end Locked

theorem upgrade_follows (tenantId : String) (input : UpgradeVersionInput) :
    Follows (discipline deploymentId) (Ends (fun _ _ => True) fun _ => True)
      (upgradeDeploymentVersion tenantId deploymentId input).run .idle := by
  unfold upgradeDeploymentVersion
  apply ends_bind loadDeployment_ends
  rintro _ d rfl
  apply ends_bind (refuseDeleted_ends trivial)
  rintro _ - rfl
  apply ends_bind (loadEntry_ends trivial)
  rintro _ entry rfl
  refine ends_bind (quiet_ends trivial (fun _ => rfl) fun _ => rfl) ?_
  rintro _ found rfl
  cases found with
  | none => exact ends_throw trivial
  | some target =>
    dsimp only
    split
    · exact ends_pure trivial
    · apply ends_bind (assertUpgradePath_ends trivial)
      rintro _ - rfl
      unfold upgradeLocked
      apply ends_bind resolve_ends
      rintro _ resolved rfl
      refine ends_bind (R := fun b' locked => locked = true →
        b' = .locked d (upgradeLock d input.targetVersion))
        (ask_ends ⟨rfl, rfl, rfl, rfl⟩ ?_ fun _ _ _ => trivial) ?_
      · rintro _ b' hb' rfl
        exact (Option.some.inj hb').symm
      · intro b' locked hlocked
        cases locked with
        | false => exact ends_throw trivial
        | true =>
          cases hlocked rfl
          exact changeVersion_ends rfl ⟨rfl, rfl⟩ fun _ => ⟨rfl, rfl, rfl⟩

theorem rollback_follows (tenantId : String) :
    Follows (discipline deploymentId) (Ends (fun _ _ => True) fun _ => True)
      (rollbackDeploymentVersion tenantId deploymentId).run .idle := by
  unfold rollbackDeploymentVersion
  apply ends_bind loadDeployment_ends
  rintro _ d rfl
  split
  · exact ends_throw trivial
  · rename_i toVersion _
    apply ends_bind (loadEntry_ends trivial)
    rintro _ entry rfl
    refine ends_bind (quiet_ends trivial (fun _ => rfl) fun _ => rfl) ?_
    rintro _ found rfl
    cases found with
    | none => exact ends_throw trivial
    | some target =>
      change Follows _ _ (rollbackLocked tenantId deploymentId toVersion d entry).run _
      unfold rollbackLocked
      apply ends_bind resolve_ends
      rintro _ resolved rfl
      refine ends_bind (R := fun b' locked => locked = true → b' = .locked d (rollbackLock toVersion))
        (ask_ends ⟨rfl, rfl, rfl, rfl⟩ ?_ fun _ _ _ => trivial) ?_
      · rintro _ b' hb' rfl
        exact (Option.some.inj hb').symm
      · intro b' locked hlocked
        cases locked with
        | false => exact ends_throw trivial
        | true =>
          cases hlocked rfl
          exact changeVersion_ends rfl ⟨rfl, rfl⟩ fun _ => ⟨rfl, rfl, rfl⟩

theorem program_follows (tenantId : String) (kind : Request) :
    Follows (discipline deploymentId) (Ends (fun _ _ => True) fun _ => True)
      (program tenantId deploymentId kind) .idle := by
  cases kind with
  | upgrade input => exact upgrade_follows tenantId input
  | rollback => exact rollback_follows tenantId

end Follows

/-! ## One change at a time -/

/-- A row that a call has locked; `found` is what its lock found. -/
structure Locked (row : Deployment) (found : Versions) (d : Deployment) (lock : Changes) : Prop where
  installed : row.installedVersion = d.installedVersion
  target : lock.targetVersion = some row.targetVersion
  apart : row.targetVersion ≠ row.installedVersion
  previous : row.previousVersion = lock.previousVersion.getD d.previousVersion
  found : found = ⟨d.installedVersion, d.previousVersion, d.installedVersion⟩

def Fits (row : Deployment) (running : Option String) (found : Versions) : Phase → Prop
  | .locked d lock => Locked row found d lock ∧ running = d.installedVersion
  | .deployed d lock => Locked row found d lock ∧ running = row.targetVersion
  | .failed d lock => Locked row found d lock ∧ running = d.installedVersion
  | _ => True

/-- At most one call is between its lock and its last write. -/
def AtMostOne (w : World) : Prop :=
  ∀ i j, (w.phase i).InProgress → (w.phase j).InProgress → i = j

def Truthful (w : World) : Prop :=
  (∀ i, ¬ (w.phase i).InProgress) → w.row.installedVersion = w.running

structure Serial (deploymentId : String) (w : World) : Prop where
  id : w.row.id = deploymentId
  one : AtMostOne w
  idle : Truthful w
  fits : ∀ i, Fits w.row w.running (w.lockedAt i) (w.phase i)

/-- A call that stops being in progress without its change leaves the versions that its lock
found. -/
def LeavesAsLocked (s : State) (_ : Step) (s' : State) : Prop :=
  ∀ i, (s.world.phase i).InProgress → ¬ (s'.world.phase i).InProgress →
    s'.world.phase i ≠ .finished → s'.world.row.versions = s'.world.lockedAt i

def Settled (s : State) : Step → State → Prop
  | .act i (.update _ _ lock) (.ok true), _ => ∀ d, s.world.phase i = .read d →
      s.world.row.targetVersion = s.world.row.installedVersion ∧
        lock.targetVersion ≠ some s.world.row.installedVersion ∧
        s.world.row.previousVersion = d.previousVersion
  | .act _ (.selectTenant _) (.ok tenant), _ =>
    ((tenant.bind Tenant.kubernetesNamespace).filter (· ≠ "")).isSome
  | .crash i, _ => ¬ (s.world.phase i).InProgress
  | _, _ => True

section Decidable

instance : DecidablePred Phase.InProgress := fun b =>
  match b with
  | .idle => isFalse id
  | .read _ => isFalse id
  | .locked _ _ => isTrue trivial
  | .deployed _ _ => isTrue trivial
  | .failed _ _ => isTrue trivial
  | .finished => isFalse id
  | .reverted => isFalse id
  | .refused => isFalse id

def Phase.readRow : Phase → Option Deployment
  | .read d => some d
  | _ => none

instance (b : Phase) (P : Deployment → Prop) [DecidablePred P] :
    Decidable (∀ d, b = .read d → P d) :=
  decidable_of_iff (∀ d ∈ b.readRow, P d) (by cases b <;> simp [Phase.readRow])

instance (s : State) (e : Step) (s' : State) : Decidable (Settled s e s') := by
  unfold Settled
  split <;> infer_instance

end Decidable

section Worlds

variable {deploymentId id : String} {w w' : World} {i : ℕ} {b : Phase} {d : Deployment}
  {guard : Guard} {lock : Changes}

theorem fits_of_not_inProgress {row : Deployment} {running : Option String} {found : Versions}
    (hb : ¬ b.InProgress) : Fits row running found b := by
  cases b with
  | locked d lock => exact (hb trivial).elim
  | deployed d lock => exact (hb trivial).elim
  | failed d lock => exact (hb trivial).elim
  | _ => trivial

theorem apart_of_inProgress (h : Serial deploymentId w) (hb : (w.phase i).InProgress) :
    w.row.targetVersion ≠ w.row.installedVersion := by
  have hfits := h.fits i
  cases hphase : w.phase i with
  | locked d lock => rw [hphase] at hfits; exact hfits.1.apart
  | deployed d lock => rw [hphase] at hfits; exact hfits.1.apart
  | failed d lock => rw [hphase] at hfits; exact hfits.1.apart
  | _ => rw [hphase] at hb; exact hb.elim

/-- The call that acts is in progress before or after, and no other call is. -/
theorem serial_of_alone (h : Serial deploymentId w) (hid : w'.row.id = w.row.id)
    (halone : ∀ j, j ≠ i → ¬ (w.phase j).InProgress)
    (hphase : w'.phase = Function.update w.phase i b)
    (hidle : ¬ b.InProgress → w'.row.installedVersion = w'.running)
    (hfits : Fits w'.row w'.running (w'.lockedAt i) b) : Serial deploymentId w' := by
  have hothers : ∀ j, j ≠ i → ¬ (w'.phase j).InProgress := by
    intro j hj
    rw [hphase, Function.update_of_ne hj]
    exact halone j hj
  refine ⟨hid.trans h.id, ?_, ?_, ?_⟩
  · intro j k hj hk
    have hji : j = i := by
      by_contra hne
      exact hothers j hne hj
    have hki : k = i := by
      by_contra hne
      exact hothers k hne hk
    rw [hji, hki]
  · intro hnone
    have hown := hnone i
    rw [hphase, Function.update_self] at hown
    exact hidle hown
  · intro j
    by_cases hj : j = i
    · subst hj
      rw [hphase, Function.update_self]
      exact hfits
    · exact fits_of_not_inProgress (hothers j hj)

theorem serial_quiet (h : Serial deploymentId w)
    (hb : b = w.phase i ∨ ¬ b.InProgress ∧ ¬ (w.phase i).InProgress) :
    Serial deploymentId { w with phase := Function.update w.phase i b } := by
  have hiff : ∀ j, (Function.update w.phase i b j).InProgress ↔ (w.phase j).InProgress := by
    intro j
    by_cases hj : j = i
    · subst hj
      rw [Function.update_self]
      rcases hb with rfl | ⟨hnew, hold⟩
      · rfl
      · exact ⟨fun hin => (hnew hin).elim, fun hin => (hold hin).elim⟩
    · rw [Function.update_of_ne hj]
  refine ⟨h.id, fun j k hj hk => h.one j k ((hiff j).mp hj) ((hiff k).mp hk), ?_, ?_⟩
  · intro hnone
    exact h.idle fun j hj => hnone j ((hiff j).mpr hj)
  · intro j
    change Fits w.row w.running (w.lockedAt j) (Function.update w.phase i b j)
    by_cases hj : j = i
    · subst hj
      rw [Function.update_self]
      rcases hb with rfl | ⟨hnew, -⟩
      · exact h.fits j
      · exact fits_of_not_inProgress hnew
    · rw [Function.update_of_ne hj]
      exact h.fits j

/-- Others than a call in progress are not. -/
theorem alone_of_inProgress (h : Serial deploymentId w) (hi : (w.phase i).InProgress) (j : ℕ)
    (hj : j ≠ i) : ¬ (w.phase j).InProgress := fun hin => hj (h.one j i hin hi)

/-- The step of one call, as the others see it and as it leaves the row. -/
def Steps (deploymentId : String) (w : World) (i : ℕ) (w' : World) : Prop :=
  Serial deploymentId w' ∧ (∀ j, j ≠ i → w'.phase j = w.phase j) ∧
    ((w.phase i).InProgress → ¬ (w'.phase i).InProgress → w'.phase i ≠ .finished →
      w'.row.versions = w'.lockedAt i)

theorem update_of_ne_all (j : ℕ) (hj : j ≠ i) : Function.update w.phase i b j = w.phase j :=
  Function.update_of_ne hj _ _

theorem steps_quiet (h : Serial deploymentId w)
    (hb : b = w.phase i ∨ ¬ b.InProgress ∧ ¬ (w.phase i).InProgress) :
    Steps deploymentId w i { w with phase := Function.update w.phase i b } := by
  refine ⟨serial_quiet h hb, update_of_ne_all, ?_⟩
  intro hin hnot _
  change ¬ (Function.update w.phase i b i).InProgress at hnot
  rw [Function.update_self] at hnot
  rcases hb with rfl | ⟨-, hold⟩
  · exact (hnot hin).elim
  · exact (hold hin).elim

theorem steps_lock (h : Serial deploymentId w)
    (hguard : guard.installedVersion = some d.installedVersion)
    (hinstalled : lock.installedVersion = none) (htarget : lock.targetVersion.isSome)
    (hholds : guard.holds w.row = true) (hsettled : w.row.targetVersion = w.row.installedVersion ∧
      lock.targetVersion ≠ some w.row.installedVersion ∧ w.row.previousVersion = d.previousVersion) :
    Steps deploymentId w i
      { w with row := lock.applyTo w.row
               lockedAt := Function.update w.lockedAt i w.row.versions
               phase := Function.update w.phase i (.locked d lock) } := by
  obtain ⟨hread, hapart, hprevious⟩ := hsettled
  obtain ⟨asked, hasked⟩ := Option.isSome_iff_exists.mp htarget
  have hrow : w.row.installedVersion = d.installedVersion := by
    have hinst := (Bool.and_eq_true_iff.mp hholds).1
    rw [hguard] at hinst
    exact of_decide_eq_true hinst
  have hnone : ∀ j, ¬ (w.phase j).InProgress := fun j hj => apart_of_inProgress h hj hread
  have hrunning := h.idle hnone
  refine ⟨serial_of_alone h rfl (fun j _ => hnone j) rfl (fun hnot => (hnot trivial).elim) ⟨?_, ?_⟩,
    update_of_ne_all, fun hin => (hnone i hin).elim⟩
  · constructor
    · change lock.installedVersion.getD w.row.installedVersion = _
      rw [hinstalled]
      exact hrow
    · change _ = some (lock.targetVersion.getD w.row.targetVersion)
      rw [hasked]
      rfl
    · change lock.targetVersion.getD w.row.targetVersion ≠
        lock.installedVersion.getD w.row.installedVersion
      rw [hasked, hinstalled]
      intro heq
      exact hapart (by rw [hasked]; exact congrArg some heq)
    · change lock.previousVersion.getD w.row.previousVersion = _
      rw [hprevious]
    · change Function.update w.lockedAt i w.row.versions i = _
      rw [Function.update_self]
      unfold Deployment.versions
      rw [hread, hrow, hprevious]
  · change w.running = d.installedVersion
    rw [← hrunning, hrow]

theorem steps_finish {finish : Changes} (h : Serial deploymentId w)
    (hphase : w.phase i = .deployed d lock)
    (hinstalled : finish.installedVersion = lock.targetVersion) :
    Steps deploymentId w i
      { w with row := finish.applyTo w.row
               phase := Function.update w.phase i .finished } := by
  have hin : (w.phase i).InProgress := by
    rw [hphase]
    trivial
  have hfits := h.fits i
  rw [hphase] at hfits
  refine ⟨serial_of_alone h rfl (alone_of_inProgress h hin) rfl ?_ trivial, update_of_ne_all, ?_⟩
  · intro _
    change finish.installedVersion.getD w.row.installedVersion = w.running
    rw [hinstalled, hfits.1.target, hfits.2]
    rfl
  · intro _ _ hne
    exact (hne (Function.update_self i Phase.finished w.phase)).elim

theorem steps_revert {revert : Changes} (h : Serial deploymentId w)
    (hphase : w.phase i = .failed d lock) (hinstalled : revert.installedVersion = none)
    (htarget : revert.targetVersion = some d.installedVersion)
    (hprevious : revert.previousVersion = lock.previousVersion.map fun _ => d.previousVersion) :
    Steps deploymentId w i
      { w with row := revert.applyTo w.row
               phase := Function.update w.phase i .reverted } := by
  have hin : (w.phase i).InProgress := by
    rw [hphase]
    trivial
  have hfits := h.fits i
  rw [hphase] at hfits
  have hkept : revert.installedVersion.getD w.row.installedVersion = d.installedVersion := by
    rw [hinstalled]
    exact hfits.1.installed
  have hback : revert.previousVersion.getD w.row.previousVersion = d.previousVersion := by
    rw [hprevious, hfits.1.previous]
    cases lock.previousVersion with
    | none => rfl
    | some v => rfl
  refine ⟨serial_of_alone h rfl (alone_of_inProgress h hin) rfl ?_ trivial, update_of_ne_all, ?_⟩
  · intro _
    exact hkept.trans hfits.2.symm
  · intro _ _ _
    change Versions.mk (revert.installedVersion.getD w.row.installedVersion)
      (revert.previousVersion.getD w.row.previousVersion)
      (revert.targetVersion.getD w.row.targetVersion) = w.lockedAt i
    rw [hkept, hback, htarget, hfits.1.found]
    rfl

theorem steps_deploy {version : Option String} (h : Serial deploymentId w)
    (hphase : w.phase i = .locked d lock) (hversion : lock.targetVersion = some version) :
    Steps deploymentId w i
      { w with running := version
               phase := Function.update w.phase i (.deployed d lock) } := by
  have hin : (w.phase i).InProgress := by
    rw [hphase]
    trivial
  have hfits := h.fits i
  rw [hphase] at hfits
  refine ⟨serial_of_alone h rfl (alone_of_inProgress h hin) rfl (fun hnot => (hnot trivial).elim)
    ⟨hfits.1, ?_⟩, update_of_ne_all, ?_⟩
  · exact Option.some.inj (hversion.symm.trans hfits.1.target)
  · intro _ hnot _
    change ¬ (Function.update w.phase i (Phase.deployed d lock) i).InProgress at hnot
    rw [Function.update_self] at hnot
    exact (hnot trivial).elim

theorem steps_deployFailed (h : Serial deploymentId w) (hphase : w.phase i = .locked d lock) :
    Steps deploymentId w i { w with phase := Function.update w.phase i (.failed d lock) } := by
  have hin : (w.phase i).InProgress := by
    rw [hphase]
    trivial
  have hfits := h.fits i
  rw [hphase] at hfits
  refine ⟨serial_of_alone h rfl (alone_of_inProgress h hin) rfl (fun hnot => (hnot trivial).elim)
    hfits, update_of_ne_all, ?_⟩
  intro _ hnot _
  change ¬ (Function.update w.phase i (Phase.failed d lock) i).InProgress at hnot
  rw [Function.update_self] at hnot
  exact (hnot trivial).elim

theorem handle_eq_some {o : Op} {r : Ans o} (hw : w.handle i o r = some w') :
    ∃ b w₁, (w.phase i).next o r = some b ∧ w.answer i o r = some w₁ ∧
      w' = { w₁ with phase := Function.update w.phase i b } := by
  obtain ⟨b, hb, hanswer⟩ := Option.bind_eq_some_iff.mp hw
  obtain ⟨w₁, hw₁, heq⟩ := Option.map_eq_some_iff.mp hanswer
  exact ⟨b, w₁, hb, hw₁, heq.symm⟩

theorem answerUpdate_eq_some {set : Changes} {matched : Bool}
    (hw : w.answerUpdate i id guard set matched = some w') :
    (matched = false ∧ ¬ (w.row.id = id ∧ guard.holds w.row = true) ∧ w' = w) ∨
      (matched = true ∧ (w.row.id = id ∧ guard.holds w.row = true) ∧
        w' = { w with
          row := set.applyTo w.row
          lockedAt :=
            match w.phase i with
            | .read _ => Function.update w.lockedAt i w.row.versions
            | _ => w.lockedAt }) := by
  unfold World.answerUpdate at hw
  split at hw
  · rename_i hmatched
    split at hw
    · rename_i htrue
      refine .inr ⟨htrue, ?_, (Option.some.inj hw).symm⟩
      rw [htrue] at hmatched
      simpa using hmatched.symm
    · rename_i hfalse
      have hfalse' : matched = false := by simpa using hfalse
      refine .inl ⟨hfalse', ?_, (Option.some.inj hw).symm⟩
      rw [hfalse'] at hmatched
      intro hboth
      simp [hboth.1, hboth.2] at hmatched
  · cases hw

theorem steps_update {set : Changes} {matched : Bool} (h : Serial deploymentId w)
    (ho : AllowedUpdate deploymentId (w.phase i) id guard set)
    (hw : w.handle i (.update id guard set) (.ok matched) = some w')
    (hsettled : matched = true → ∀ d, w.phase i = .read d →
      w.row.targetVersion = w.row.installedVersion ∧
        set.targetVersion ≠ some w.row.installedVersion ∧
        w.row.previousVersion = d.previousVersion) : Steps deploymentId w i w' := by
  obtain ⟨b, w₁, hb, hw₁, rfl⟩ := handle_eq_some hw
  have hb' : (w.phase i).afterUpdate set matched = b := Option.some.inj hb
  obtain ⟨rfl, hset⟩ := ho
  rcases answerUpdate_eq_some hw₁ with ⟨rfl, hnot, rfl⟩ | ⟨rfl, ⟨-, hholds⟩, rfl⟩
  · cases hphase : w₁.phase i with
    | read d =>
      rw [hphase] at hb'
      subst hb'
      exact steps_quiet h (.inr ⟨not_false, by rw [hphase]; exact not_false⟩)
    | deployed d lock =>
      rw [hphase] at hset
      exact (hnot ⟨h.id, by rw [hset.1]; rfl⟩).elim
    | failed d lock =>
      rw [hphase] at hset
      exact (hnot ⟨h.id, by rw [hset.1]; rfl⟩).elim
    | _ =>
      rw [hphase] at hset
      exact hset.elim
  · cases hphase : w.phase i with
    | read d =>
      rw [hphase] at hb' hset
      subst hb'
      exact steps_lock h hset.1 hset.2.1 hset.2.2 hholds (hsettled rfl d hphase)
    | deployed d lock =>
      rw [hphase] at hb' hset
      subst hb'
      exact steps_finish h hphase hset.2.1
    | failed d lock =>
      rw [hphase] at hb' hset
      subst hb'
      exact steps_revert h hphase hset.2.1 hset.2.2.1 hset.2.2.2
    | _ =>
      rw [hphase] at hset
      exact hset.elim

theorem steps_of_same {o : Op} {r : Ans o} (h : Serial deploymentId w)
    (hw : w.handle i o r = some w') (hnext : (w.phase i).next o r = some (w.phase i))
    (hanswer : ∀ w₁, w.answer i o r = some w₁ → w₁ = w) : Steps deploymentId w i w' := by
  obtain ⟨b, w₁, hb, hw₁, rfl⟩ := handle_eq_some hw
  cases hanswer w₁ hw₁
  exact steps_quiet h (.inl (Option.some.inj (hb.symm.trans hnext)))

theorem steps_select {tenantId : String} {found : Option Deployment} (h : Serial deploymentId w)
    (hidle : w.phase i = .idle)
    (hw : w.handle i (.selectDeployment tenantId id) (.ok found) = some w') :
    Steps deploymentId w i w' := by
  obtain ⟨b, w₁, hb, hw₁, rfl⟩ := handle_eq_some hw
  cases (Option.ite_none_right_eq_some.mp hw₁).2
  refine steps_quiet h (.inr ⟨?_, by rw [hidle]; exact not_false⟩)
  cases found with
  | none =>
    cases hb
    rw [hidle]
    exact not_false
  | some d =>
    cases hb
    exact not_false

theorem steps_tenant {tenant : Option Tenant} (h : Serial deploymentId w)
    (hw : w.handle i (.selectTenant id) (.ok tenant) = some w')
    (htenant : ((tenant.bind Tenant.kubernetesNamespace).filter (· ≠ "")).isSome) :
    Steps deploymentId w i w' := by
  refine steps_of_same h hw (congrArg some ?_) fun _ hw₁ => (Option.some.inj hw₁).symm
  unfold Phase.afterTenant
  split
  · rename_i hphase
    rw [if_pos htenant, hphase]
  · rfl

end Worlds

/-! ## Every run -/

theorem handle_movesStages (deploymentId : String) :
    MovesStages (fun _ : Request => discipline deploymentId) World.phase World.handle := by
  intro _ w i o r w' hw
  obtain ⟨b, w₁, hb, -, rfl⟩ := handle_eq_some hw
  exact ⟨b, hb, rfl⟩

section Runs

variable {tenantId deploymentId : String} {s s' : State} {e : Step}

/-- An operation that its call may do, under the condition. -/
theorem steps_act {i : ℕ} {o : Op} {r : Ans o} {w' : World} (h : Serial deploymentId s.world)
    (ho : Allowed deploymentId (s.world.phase i) o) (hw : s.world.handle i o r = some w')
    (hsettled : Settled s (.act i o r) s') : Steps deploymentId s.world i w' := by
  cases o with
  | selectDeployment tenantId id =>
    cases r with
    | ok found => exact steps_select h ho hw
    | error err => cases hw
  | update id guard set =>
    cases r with
    | ok matched =>
      apply steps_update h ho hw
      rintro rfl
      exact hsettled
    | error err => cases hw
  | selectTenant id =>
    cases r with
    | ok tenant => exact steps_tenant h hw hsettled
    | error err => cases hw
  | deployCatalogEntry version input =>
    obtain ⟨d, lock, hphase, hversion⟩ := ho
    obtain ⟨b, w₁, hb, hw₁, rfl⟩ := handle_eq_some hw
    rw [hphase] at hb
    cases r with
    | ok _ =>
      cases hb
      cases hw₁
      exact steps_deploy h hphase hversion
    | error err =>
      cases hb
      cases hw₁
      exact steps_deployFailed h hphase
  | _ =>
    cases r with
    | ok _ => exact steps_of_same h hw rfl fun _ hw₁ => (Option.some.inj hw₁).symm
    | error err => cases hw

/-- What every step keeps: the calls are on course, and one is in progress at a time. -/
def Keeps (deploymentId : String) (s : State) : Prop :=
  Holds (Fresh World.phase .idle)
      (OnCourse (fun _ : Request => discipline deploymentId) World.phase
        (Ends (fun _ _ => True) fun _ => True)) s ∧
    Serial deploymentId s.world

theorem keeps_start (hs : Start s) : Keeps s.world.row.id s := by
  refine ⟨holds_of_start hs.procs hs.idle, rfl, ?_, ?_, ?_⟩
  · intro i j hi _
    rw [hs.idle i] at hi
    exact hi.elim
  · intro _
    exact hs.running.symm
  · intro i
    rw [hs.idle i]
    trivial

theorem keeps_step (h : Keeps deploymentId s)
    (hs : step (program tenantId deploymentId) World.handle s e = some s')
    (hsettled : Settled s e s') : Keeps deploymentId s' ∧ LeavesAsLocked s e s' := by
  obtain ⟨hcourse, hserial⟩ := h
  have hcourse' := onCourse_step (handle_movesStages deploymentId) (program_follows tenantId) hcourse hs
  rcases allowed_step hcourse hs with hworld | ⟨i, o, r, kind, next, rfl, -, ho, hw⟩
  · refine ⟨⟨hcourse', by rw [hworld]; exact hserial⟩, ?_⟩
    intro i hin hnot _
    rw [hworld] at hnot
    exact (hnot hin).elim
  · obtain ⟨hserial', hothers, hleaves⟩ := steps_act hserial ho hw hsettled
    refine ⟨⟨hcourse', hserial'⟩, ?_⟩
    intro j hin hnot hne
    by_cases hj : j = i
    · subst hj
      exact hleaves hin hnot hne
    · rw [hothers j hj] at hnot
      exact (hnot hin).elim

theorem version_changes_serialise (tenantId : String) {s s' : State} {es : List Step} (hs : Start s)
    (hsettled : Along (step (program tenantId s.world.row.id) World.handle) Settled s es)
    (h : exec (step (program tenantId s.world.row.id) World.handle) s es = some s') :
    AtMostOne s'.world ∧ Truthful s'.world ∧
      Along (step (program tenantId s.world.row.id) World.handle) LeavesAsLocked s es := by
  have hkeeps := keeps_start hs
  generalize s.world.row.id = deploymentId at hsettled h hkeeps ⊢
  clear hs
  induction es generalizing s with
  | nil =>
    cases h
    exact ⟨hkeeps.2.one, hkeeps.2.idle, trivial⟩
  | cons e es ih =>
    obtain ⟨m, hm, hrest⟩ := (exec_cons_eq_some _).mp h
    obtain ⟨hkeeps', hleaves⟩ := keeps_step hkeeps hm (hsettled m hm).1
    obtain ⟨hone, hidle, halong⟩ := ih (hsettled m hm).2 hrest hkeeps'
    exact ⟨hone, hidle, along_cons_of _ hm hleaves halong⟩

end Runs

/-! ### Two upgrades from one version -/

def anEntry : CatalogEntry where
  id := "e"
  code := "app"
  name := "App"
  type := "application"
  image := some "app"
  components := none
  volumes := none
  envVars := none
  networking := none
  resources := none
  multihost := none
  defaultVersion := none
  versionLockMode := some .open
  disabled := false
  removedFromSourceAt := false

def aVersion (version : String) : CatalogVersion where
  version := version
  components := none
  upgradeFrom := none
  volumes := none
  envVars := none

def aTenant : Tenant where
  id := "t"
  status := "active"
  kubernetesNamespace := some "tenant-t"
  nodeName := none
  storageTier := none
  timezone := none
  planId := "p"
  cpuSchedulingMode := .legacy
  cpuLimitOverride := none
  memoryLimitOverride := none
  cpuTierOverride := none
  maxApplicationsOverride := none

def aDeployment : Deployment where
  id := "d"
  tenantId := "t"
  catalogEntryId := some "e"
  source := .catalog
  name := "app"
  replicaCount := 1
  cpuRequest := "0.25"
  memoryRequest := "256Mi"
  configuration := none
  storagePath := none
  extraMounts := none
  installedVersion := some "1"
  targetVersion := some "1"
  previousVersion := none
  multihostEnabled := false
  lastError := none
  statusMessage := none
  currentNodeName := none
  deletedAt := false
  status := .running

def settledState : State where
  world :=
    { row := aDeployment
      running := some "1"
      phase := fun _ => .idle
      lockedAt := fun _ => aDeployment.versions }
  procs := []

theorem start_settledState : Start settledState where
  procs := rfl
  idle _ := rfl
  running := rfl

def untilLock (i : ℕ) (version : String) : List Step :=
  [.act i (.selectEntry "e") (.ok (some anEntry)),
    .act i (.selectVersion "e" version) (.ok (some (aVersion version))),
    .act i (.selectVersion "e" version) (.ok (some (aVersion version))),
    .act i (.update "d" (upgradeGuard aDeployment) (upgradeLock aDeployment version)) (.ok true)]

def anUpgrade : List Step :=
  [.spawn (.upgrade { targetVersion := "2", force := false }),
    .act 0 (.selectDeployment "t" "d") (.ok (some aDeployment))] ++ untilLock 0 "2" ++
  [.act 0 (.selectTenant "t") (.ok (some aTenant)),
    .act 0 .selectDiskLimits (.ok { appMb := 1024, databaseMb := 2048 }),
    .act 0 (.selectSiteRoutes "d") (.ok []),
    .act 0 (.deployCatalogEntry (some "2") (versionInput aDeployment anEntry (some aTenant) "tenant-t"
      (resolveConfig anEntry (some (aVersion "2"))) { appMb := 1024, databaseMb := 2048 } []))
      (.error (.error "no nodes")),
    .act 0 (.update "d" {} (upgradeRevert aDeployment "2" "no nodes")) (.ok true)]

/-- An upgrade whose deploy fails leaves the row as it was. -/
theorem failed_upgrade_serialises : ∃ s',
    exec (step (program "t" settledState.world.row.id) World.handle) settledState anUpgrade = some s' ∧
      AtMostOne s'.world ∧ Truthful s'.world ∧
      Along (step (program "t" settledState.world.row.id) World.handle) LeavesAsLocked settledState
        anUpgrade := by
  have hrun : (exec (step (program "t" settledState.world.row.id) World.handle) settledState
      anUpgrade).isSome = true := by rfl
  obtain ⟨s', hexec⟩ := Option.isSome_iff_exists.mp hrun
  exact ⟨s', hexec, version_changes_serialise "t" start_settledState (by decide) hexec⟩

def bothLock : List Step :=
  [.spawn (.upgrade { targetVersion := "2", force := false }),
    .spawn (.upgrade { targetVersion := "3", force := false }),
    .act 0 (.selectDeployment "t" "d") (.ok (some aDeployment)),
    .act 1 (.selectDeployment "t" "d") (.ok (some aDeployment))] ++ untilLock 0 "2" ++ untilLock 1 "3"

theorem both_upgrades_lock : ¬ ∀ (tenantId : String) (s s' : State) (es : List Step), Start s →
    (∀ i, .crash i ∉ es) →
    exec (step (program tenantId s.world.row.id) World.handle) s es = some s' →
    AtMostOne s'.world ∧ Truthful s'.world ∧
      Along (step (program tenantId s.world.row.id) World.handle) LeavesAsLocked s es := by
  intro hall
  have hrun : ((exec (step (program "t" settledState.world.row.id) World.handle) settledState
      bothLock).any fun s' => (s'.world.phase 0).InProgress && (s'.world.phase 1).InProgress) =
      true := by
    rfl
  obtain ⟨s', hexec, hboth⟩ := (Option.any_eq_true _ _).mp hrun
  obtain ⟨hfirst, hsecond⟩ := Bool.and_eq_true_iff.mp hboth
  have hone := (hall "t" settledState s' bothLock start_settledState
    (by simp [bothLock, untilLock]) hexec).1
  have hsame := hone 0 1 (of_decide_eq_true hfirst) (of_decide_eq_true hsecond)
  cases hsame

end Insula.Deployments
