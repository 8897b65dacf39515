import Insula.Redeploys
import Insula.VersionChangeRuns

/-!
# Edits of resources beside each other

The check of an edit reads a request with one parser and the cluster with another, and it is a
statement of its own. Where its sum covers what the cluster reads, and what it has read is still
stored, what an edit stores is within the plan.
-/

namespace Insula.ResourceEdits

open Program Concurrent Transition Quantities Deployments

structure Setting where
  arith : Arithmetic
  tenant : Tenant
  plan : Option Plan

inductive Request
  | edit (deploymentId : String) (input : ResourcesInput) (k8s : Bool)
  -- A write of something else, such as that of a custom deployment's projection.
  | write (deploymentId : String) (set : Changes)

abbrev Ans (o : Op) : Type := Except Thrown (Val o)

/-- What an edit has read; what comes after its write does not matter. -/
inductive Phase
  | idle
  | read (d : Deployment)
  | loaded (d : Deployment) (t : Tenant)
  | planned (d : Deployment) (t : Tenant) (p : Option Plan)
  | listed (d : Deployment) (t : Tenant) (p : Option Plan) (others : List Deployment)
  | stored

namespace Phase

def afterDeployment (d : Deployment) : Phase → Phase
  | .idle => .read d
  | b => b

def afterTenant (t : Tenant) : Phase → Phase
  | .read d => .loaded d t
  | b => b

def afterPlan (p : Option Plan) : Phase → Phase
  | .loaded d t => .planned d t p
  | b => b

def afterOthers (others : List Deployment) : Phase → Phase
  | .planned d t p => .listed d t p others
  | b => b

def afterUpdate : Phase → Phase
  | .listed _ _ _ _ => .stored
  | b => b

def next (b : Phase) : (o : Op) → Ans o → Option Phase
  | .selectDeployment _ _, .ok (some d) => some (b.afterDeployment d)
  | .selectTenant _, .ok (some t) => some (b.afterTenant t)
  | .selectPlan _, .ok p => some (b.afterPlan p)
  | .selectOthers _ _, .ok others => some (b.afterOthers others)
  | .update _ _ _, .ok _ => some b.afterUpdate
  | _, _ => some b

end Phase

structure World where
  rows : List Deployment
  phase : ℕ → Phase

namespace World

def live (w : World) (tenantId : String) : List Deployment :=
  w.rows.filter fun d => d.tenantId = tenantId && d.status ≠ .deleted

def others (w : World) (tenantId id : String) : List Deployment :=
  (w.live tenantId).filter fun d => d.id ≠ id

variable (S : Setting) (w : World)

def answer : (o : Op) → Ans o → Option World
  | .selectDeployment tenantId id, .ok d =>
    if d = w.rows.find? (fun r => r.id = id && r.tenantId = tenantId) then some w else none
  | .selectTenant id, .ok t => if t = (some S.tenant).filter (·.id = id) then some w else none
  | .selectPlan id, .ok p => if p = S.plan.filter (·.id = id) then some w else none
  | .selectOthers tenantId id, .ok l => if l.isPerm (w.others tenantId id) then some w else none
  | .update id guard set, .ok matched =>
    if matched = w.rows.any (fun r => r.id = id && guard.holds r) then
      some { w with
        rows := w.rows.map fun r => if r.id = id && guard.holds r then set.applyTo r else r }
    else none
  | _, _ => some w

def handle (i : ℕ) (o : Op) (r : Ans o) : Option World :=
  ((w.phase i).next o r).bind fun b =>
    (w.answer S o r).map fun w' => { w' with phase := Function.update w.phase i b }

end World

section Model

variable (S : Setting)

def program : Request → Program Op Ans (Except Thrown (Option Deployment))
  | .edit deploymentId input k8s =>
    (do
      let d ← updateDeploymentResources S.arith S.tenant.id deploymentId input k8s
      return some d : Deployments.Task (Option Deployment)).run
  | .write deploymentId set =>
    (do
      let _ ← ask (.update deploymentId {} set)
      return none : Deployments.Task (Option Deployment)).run

abbrev State := Config World Request Op Ans (Except Thrown (Option Deployment))

abbrev Step := Event Request Op Ans

abbrev step : State → Step → Option State := Concurrent.step (program S) (World.handle S)

/-! ## What a request asks for -/

def requestOf : ResourceUnit → Deployment → String
  | .cpu => Deployment.cpuRequest
  | .memory => Deployment.memoryRequest

def inputOf : ResourceUnit → ResourcesInput → Option String
  | .cpu => ResourcesInput.cpuRequest
  | .memory => ResourcesInput.memoryRequest

def baseUnits : ResourceUnit → ℚ
  | .cpu => 1
  | .memory => 2 ^ 30

def limitOf (t : Tenant) (p : Option Plan) : ResourceUnit → Number
  | .cpu => limitFigure S.arith t.cpuLimitOverride (p.map Plan.cpuLimit) "2"
  | .memory => limitFigure S.arith t.memoryLimitOverride (p.map Plan.memoryLimit) "4"

/-- What the cluster reads, if it is a quantity and not negative. -/
def quantityOf (request : String) : Option ℚ :=
  match parseK8sQuantity S.arith request.toList with
  | some (.fin q) => if 0 ≤ q then some q else none
  | _ => none

def quantity (request : String) : ℚ := (quantityOf S request).getD 0

def newRequest (unit : ResourceUnit) (d : Deployment) (input : ResourcesInput) : String :=
  (present (inputOf unit input)).getD (requestOf unit d)

/-- The requests of a resource are quantities, and together they do not exceed its limit. -/
structure FitsIn (w : World) (unit : ResourceUnit) : Prop where
  quantities : ∀ r ∈ (w.live S.tenant.id).map (requestOf unit), (quantityOf S r).isSome
  sum : ∃ limit, limitOf S S.tenant S.plan unit = .fin limit ∧
    (((w.live S.tenant.id).map (requestOf unit)).map (quantity S)).sum ≤ limit * baseUnits unit

def WithinPlan (w : World) : Prop := FitsIn S w .cpu ∧ FitsIn S w .memory

def editOf (s : State) (i : ℕ) : Option ResourcesInput :=
  match (s.procs[i]?).map Process.kind with
  | some (.edit _ input _) => some input
  | _ => none

/-- A write of an edit to the row with the id, with what the edit has read. -/
structure Store where
  id : String
  row : Deployment
  others : List Deployment
  input : ResourcesInput

def storeOf (s : State) : Step → Option Store
  | .act i (.update id _ _) (.ok true) =>
    match s.world.phase i, editOf s i with
    | .listed d _ _ others, some input =>
      some { id := id, row := d, others := others, input := input }
    | _, _ => none
  | _ => none

/-- After an edit has stored new values, the tenant is within its plan. -/
def StoresWithinPlan (s : State) (e : Step) (t : State) : Prop :=
  (storeOf s e).isSome → WithinPlan S t.world

/-! ## When an edit stores what fits -/

/-- The rounding that a check may have against it, in cores or GiB. -/
def margin : ℚ := 1 / 2 ^ 30

/-- The sum of a check is not below the exact one, or it is by a rounding that the limit has room
for. -/
def Covers (sum limit : Number) (q : ℚ) : Prop :=
  match sum, limit with
  | .fin a, .fin l => q ≤ a ∨ (q ≤ a + margin ∧ a + margin ≤ l)
  | .posInf, _ => True
  | _, _ => False

instance decidableCovers (q : ℚ) : ∀ sum limit, Decidable (Covers sum limit q)
  | .fin a, .fin l => inferInstanceAs (Decidable (q ≤ a ∨ (q ≤ a + margin ∧ a + margin ≤ l)))
  | .fin _, .posInf => isFalse id
  | .fin _, .negInf => isFalse id
  | .fin _, .nan => isFalse id
  | .posInf, _ => isTrue trivial
  | .negInf, _ => isFalse id
  | .nan, _ => isFalse id

section Condition

variable (w : World) (id : String) (d : Deployment) (others : List Deployment) (input : ResourcesInput)
  (unit : ResourceUnit)

def checkedSum : Number :=
  (requestFigure S.arith (inputOf unit input) (requestOf unit d) unit).add S.arith
    (sumFigures S.arith (others.map (requestOf unit)) unit)

/-- What the edit has read is still stored, every request is a quantity, and the sum of the check
covers what the cluster reads. -/
def Sure : Prop :=
  (∃ r ∈ w.rows, r.id = id ∧ r.tenantId = S.tenant.id ∧ requestOf unit r = requestOf unit d) ∧
  (others.map (requestOf unit)).Perm ((w.others S.tenant.id id).map (requestOf unit)) ∧
  (∀ r ∈ newRequest unit d input :: others.map (requestOf unit), (quantityOf S r).isSome) ∧
  Covers (checkedSum S d others input unit) (limitOf S S.tenant S.plan unit)
    (((newRequest unit d input :: others.map (requestOf unit)).map (quantity S)).sum / baseUnits unit)

instance decidableSure : Decidable (Sure S w id d others input unit) :=
  inferInstanceAs (Decidable (_ ∧ _ ∧ _ ∧ _))

end Condition

/-- An edit stores only when it is sure of both resources. -/
def StoresWhenSure (s : State) (e : Step) (_ : State) : Prop :=
  ∀ x ∈ storeOf s e, Sure S s.world x.id x.row x.others x.input .cpu ∧
    Sure S s.world x.id x.row x.others x.input .memory

instance decidableStoresWhenSure (s : State) (e : Step) (t : State) :
    Decidable (StoresWhenSure S s e t) :=
  inferInstanceAs (Decidable (∀ x ∈ storeOf s e, _ ∧ _))

/-- Nothing is in progress, and the tenant is not tiered. -/
structure Start (s : State) : Prop where
  procs : s.procs = []
  idle : ∀ i, s.world.phase i = .idle
  nodup : (s.world.rows.map Deployment.id).Nodup
  legacy : S.tenant.cpuSchedulingMode = .legacy
  plan : ∀ p ∈ S.plan, p.id = S.tenant.planId
  limits : ∀ unit, ∃ limit, limitOf S S.tenant S.plan unit = .fin limit

/-! ## What an edit does -/

def Accepts (d : Deployment) (input : ResourcesInput) (t : Tenant) (p : Option Plan)
    (others : List Deployment) : Prop :=
  (t.cpuSchedulingMode ≠ .tiered →
    (checkedSum S d others input .cpu).gt (limitOf S t p .cpu) = false) ∧
  (checkedSum S d others input .memory).gt (limitOf S t p .memory) = false

def Allowed : Request → Phase → Op → Prop
  | .edit _ input _, b, .update _ guard set =>
    ∀ d t p others, b = .listed d t p others →
      guard = {} ∧ set = resourceChanges (normalisedInput p t input) ∧
        Accepts S d (normalisedInput p t input) t p others
  | _, b, .selectPlan id => ∀ d t, b = .loaded d t → id = t.planId
  | .write _ _, b, .update _ _ _ => b = .idle
  | _, _, _ => True

def discipline (kind : Request) : Discipline Op Ans Phase where
  allowed := Allowed S kind
  next := Phase.next

end Model

section Follows

variable {S : Setting} {deploymentId : String} {input : ResourcesInput} {k8s : Bool} {b : Phase}
  {d : Deployment} {t : Tenant} {p : Option Plan} {others : List Deployment}

theorem next_stored {o : Op} {r : Ans o} (hb : Phase.next .stored o r = some b) : b = .stored := by
  unfold Phase.next at hb
  split at hb
  all_goals
    cases hb
    rfl

/-- What comes after the write is not restrained. -/
theorem follows_stored {α : Type} (x : Program Op Ans α) :
    Follows (discipline S (.edit deploymentId input k8s)) (fun _ _ => True) x .stored := by
  induction x with
  | pure a => trivial
  | call o next ih =>
    constructor
    · cases o with
      | update id guard set =>
        intro d t p others hb
        cases hb
      | selectPlan id =>
        intro d t hb
        cases hb
      | _ => trivial
    · intro r b' hb'
      cases next_stored hb'
      exact ih r

theorem ends_stored {α : Type} (x : Deployments.Task α) :
    Follows (discipline S (.edit deploymentId input k8s)) (Ends (fun _ _ => True) fun _ => True) x.run
      .stored := by
  apply follows_mono _ (follows_stored x.run)
  intro b' r _
  cases r with
  | ok a => trivial
  | error e => trivial

theorem checkLimits_ends {kind : Request} :
    Follows (discipline S kind) (Ends (fun b' _ => b' = b ∧ Accepts S d input t p others) fun _ => True)
      (checkLimits S.arith d input t p others).run b := by
  unfold checkLimits
  dsimp only
  split
  · exact ends_throw trivial
  · rename_i hcpu
    split
    · exact ends_throw trivial
    · rename_i hmemory
      refine ends_pure ⟨rfl, ?_, Bool.eq_false_iff.mpr hmemory⟩
      intro hlegacy
      exact Bool.eq_false_iff.mpr fun hgt => hcpu ⟨hlegacy, hgt⟩

theorem storeResources_ends (haccepts : Accepts S d (normalisedInput p t input) t p others) :
    Follows (discipline S (.edit deploymentId input k8s)) (Ends (fun _ _ => True) fun _ => True)
      (do
        storeResources d (normalisedInput p t input) k8s
        getDeploymentById S.tenant.id deploymentId : Deployments.Task Deployment).run
      (.listed d t p others) := by
  apply ends_bind (R := fun _ _ => True)
  · unfold storeResources
    split
    · split
      · apply ends_ask (o := .dispatchCustomResources _ _ _) trivial
        · intro _ _ _
          trivial
        · intro _ _ _
          trivial
      · exact ends_throw trivial
    · apply ends_bind (R := fun b' _ => b' = .stored)
      · apply ends_ask (o := .update d.id {} _)
        · intro d' t' p' others' hb
          cases hb
          exact ⟨rfl, rfl, haccepts⟩
        · intro _ b' hb'
          exact (Option.some.inj hb').symm
        · intro _ _ _
          trivial
      · rintro _ _ rfl
        exact ends_stored _
  · intro b' _ _
    apply ends_getDeploymentById trivial
    · intro _ _ _
      trivial
    · intro _ _ _
      trivial

theorem edit_ends :
    Follows (discipline S (.edit deploymentId input k8s)) (Ends (fun _ _ => True) fun _ => True)
      (updateDeploymentResources S.arith S.tenant.id deploymentId input k8s).run .idle := by
  unfold updateDeploymentResources
  apply ends_bind (R := fun b' d => b' = .read d)
  · apply ends_getDeploymentById trivial
    · intro d b' hb'
      exact (Option.some.inj hb').symm
    · intro _ _ _
      trivial
  rintro _ d rfl
  apply ends_bind (ends_refuseDeleted trivial)
  rintro _ _ ⟨rfl, -⟩
  apply ends_bind (R := fun b' t => b' = .loaded d t)
  · apply ends_loadTenant trivial
    · intro t b' hb'
      exact (Option.some.inj hb').symm
    · intro _ _ _
      trivial
  rintro _ t rfl
  apply ends_bind (R := fun b' p => b' = .planned d t p)
  · apply ends_ask (o := .selectPlan _)
    · intro d' t' hb
      cases hb
      rfl
    · intro p b' hb'
      exact (Option.some.inj hb').symm
    · intro _ _ _
      trivial
  rintro _ p rfl
  apply ends_bind (R := fun b' others => b' = .listed d t p others)
  · apply ends_ask (o := .selectOthers _ _) trivial
    · intro others b' hb'
      exact (Option.some.inj hb').symm
    · intro _ _ _
      trivial
  rintro _ others rfl
  apply ends_bind checkLimits_ends
  rintro _ _ ⟨rfl, haccepts⟩
  -- The room that is made for a tiered tenant does not decide what is stored.
  have hrest : Follows (discipline S (.edit deploymentId input k8s))
      (Ends (fun _ _ => True) fun _ => True)
      (if (present (normalisedInput p t input).cpuRequest).isNone = true ∧
          (present (normalisedInput p t input).memoryRequest).isNone = true then return d
        else do
          storeResources d (normalisedInput p t input) k8s
          getDeploymentById S.tenant.id deploymentId : Deployments.Task Deployment).run
      (.listed d t p others) := by
    split
    · exact ends_pure trivial
    · exact storeResources_ends haccepts
  dsimp only
  split
  · apply ends_bind (R := fun b' _ => b' = .listed d t p others)
    · apply ends_bestEffort trivial
      intro r b' hb'
      exact (Option.some.inj hb').symm
    · rintro _ _ rfl
      exact hrest
  · exact hrest

theorem program_follows (kind : Request) :
    Follows (discipline S kind) (Ends (fun _ _ => True) fun _ => True) (program S kind) .idle := by
  cases kind with
  | edit deploymentId input k8s =>
    apply ends_bind edit_ends
    intro _ _ _
    exact ends_pure trivial
  | write deploymentId set =>
    apply ends_bind (R := fun _ _ => True)
    · apply ends_ask (o := .update _ _ _) rfl
      · intro _ _ _
        trivial
      · intro _ _ _
        trivial
    · intro _ _ _
      exact ends_pure trivial

end Follows

/-! ## What is read is the tenant and its plan -/

def Phase.Knows (S : Setting) : Phase → Prop
  | .loaded _ t => t = S.tenant
  | .planned _ t p => t = S.tenant ∧ p = S.plan
  | .listed _ t p _ => t = S.tenant ∧ p = S.plan
  | _ => True

structure Kept (S : Setting) (w : World) : Prop where
  nodup : (w.rows.map Deployment.id).Nodup
  knows : ∀ i, (w.phase i).Knows S

section Kept

variable {S : Setting} {w w' : World} {i : ℕ} {o : Op} {r : Ans o} {b : Phase} {kind : Request}

theorem handle_eq_some (hw : w.handle S i o r = some w') :
    ∃ b m, (w.phase i).next o r = some b ∧ w.answer S o r = some m ∧
      w' = { m with phase := Function.update w.phase i b } := by
  obtain ⟨b, hb, hanswer⟩ := Option.bind_eq_some_iff.mp hw
  obtain ⟨m, hm, heq⟩ := Option.map_eq_some_iff.mp hanswer
  exact ⟨b, m, hb, hm, heq.symm⟩

theorem ids_answer {m : World} (hm : w.answer S o r = some m) :
    m.rows.map Deployment.id = w.rows.map Deployment.id := by
  unfold World.answer at hm
  split at hm
  case h_5 id guard set matched =>
    rw [← Option.some.inj (Option.ite_none_right_eq_some.mp hm).2, List.map_map]
    apply List.map_congr_left
    intro d _
    change (if d.id = id && guard.holds d then set.applyTo d else d).id = d.id
    split
    · rfl
    · rfl
  case h_6 => rw [← Option.some.inj hm]
  all_goals rw [← Option.some.inj (Option.ite_none_right_eq_some.mp hm).2]

theorem knows_next {m : World} (hplan : ∀ p ∈ S.plan, p.id = S.tenant.planId)
    (hallowed : Allowed S kind b o) (hb : b.Knows S) (hm : w.answer S o r = some m)
    {b' : Phase} (hb' : b.next o r = some b') : b'.Knows S := by
  unfold Phase.next at hb'
  split at hb'
  · cases hb'
    cases b with
    | idle => trivial
    | _ => exact hb
  · rename_i id t
    cases hb'
    have ht : some t = (some S.tenant).filter (·.id = id) := (Option.ite_none_right_eq_some.mp hm).1
    have heq : t = S.tenant := (Option.some.inj (Option.filter_eq_some_iff.mp ht.symm).1).symm
    cases b with
    | read d => exact heq
    | _ => exact hb
  · rename_i id p
    cases hb'
    have hp : p = S.plan.filter (·.id = id) := (Option.ite_none_right_eq_some.mp hm).1
    cases b with
    | loaded d t =>
      have ht : t = S.tenant := hb
      have hid : id = t.planId := by
        cases kind with
        | edit _ _ _ => exact hallowed d t rfl
        | write _ _ => exact hallowed d t rfl
      refine ⟨ht, hp.trans ?_⟩
      rw [hid, ht]
      cases hfound : S.plan with
      | none => rfl
      | some q => exact Option.filter_some_pos (decide_eq_true (hplan q hfound))
    | _ => exact hb
  · cases hb'
    cases b with
    | planned d t p => exact hb
    | _ => exact hb
  · cases hb'
    cases b with
    | listed d t p others => trivial
    | _ => exact hb
  · cases hb'
    exact hb

theorem kept_handle (hplan : ∀ p ∈ S.plan, p.id = S.tenant.planId)
    (hallowed : Allowed S kind (w.phase i) o) (h : Kept S w) (hw : w.handle S i o r = some w') :
    Kept S w' := by
  obtain ⟨b, m, hb, hm, rfl⟩ := handle_eq_some hw
  constructor
  · change (m.rows.map Deployment.id).Nodup
    rw [ids_answer hm]
    exact h.nodup
  · intro j
    change (Function.update w.phase i b j).Knows S
    by_cases hj : j = i
    · rw [hj, Function.update_self]
      exact knows_next hplan hallowed (h.knows i) hm hb
    · rw [Function.update_of_ne hj]
      exact h.knows j

end Kept

/-! ## What an edit stores -/

section Store

variable {S : Setting} {w : World} {id : String} {unit : ResourceUnit} {d r : Deployment}
  {others : List Deployment} {input : ResourcesInput}

theorem perm_of_mem {rows : List Deployment} (hnodup : (rows.map Deployment.id).Nodup)
    (hr : r ∈ rows) : ∃ rest, rows.Perm (r :: rest) ∧ ∀ x ∈ rest, x.id ≠ r.id := by
  obtain ⟨l₁, l₂, rfl⟩ := List.append_of_mem hr
  have hperm : (l₁ ++ r :: l₂).Perm (r :: (l₁ ++ l₂)) := List.perm_middle
  refine ⟨l₁ ++ l₂, hperm, ?_⟩
  have hids := (hperm.map Deployment.id).nodup_iff.mp hnodup
  intro x hx heq
  exact (List.nodup_cons.mp hids).1 (heq ▸ List.mem_map_of_mem hx)

def written (w : World) (id : String) (set : Changes) : List Deployment :=
  w.rows.map fun r => if r.id = id then set.applyTo r else r

theorem live_written (phase : ℕ → Phase) {set : Changes} {tenantId : String}
    (hnodup : (w.rows.map Deployment.id).Nodup) (hr : r ∈ w.rows)
    (htenant : r.tenantId = tenantId) (hset : set.status = some .pending) :
    (World.live { rows := written w r.id set, phase := phase } tenantId).Perm
      (set.applyTo r :: w.others tenantId r.id) := by
  obtain ⟨rest, hperm, hne⟩ := perm_of_mem hnodup hr
  have hrest : rest.map (fun x => if x.id = r.id then set.applyTo x else x) = rest := by
    apply (List.map_congr_left _).trans (List.map_id rest)
    intro x hx
    exact if_neg (hne x hx)
  have hlive : ((set.applyTo r).tenantId = tenantId && (set.applyTo r).status ≠ .deleted) = true := by
    have hstatus : (set.applyTo r).status = .pending := by
      change set.status.getD r.status = .pending
      rw [hset]
      rfl
    rw [hstatus]
    exact Bool.and_eq_true_iff.mpr ⟨decide_eq_true htenant, rfl⟩
  have hothers : (w.others tenantId r.id).Perm
      (rest.filter fun x => x.tenantId = tenantId && x.status ≠ .deleted) := by
    have hfilter := (hperm.filter fun x => x.tenantId = tenantId && x.status ≠ .deleted).filter
      fun x => x.id ≠ r.id
    apply hfilter.trans
    rw [List.filter_filter, List.filter_cons_of_neg (by simp)]
    apply List.Perm.of_eq
    apply List.filter_congr
    intro x hx
    simp [hne x hx]
  have hmap := hperm.map fun x => if x.id = r.id then set.applyTo x else x
  rw [List.map_cons, hrest, if_pos rfl] at hmap
  apply (hmap.filter _).trans
  have hcons : (set.applyTo r :: rest).filter
      (fun x => x.tenantId = tenantId && x.status ≠ .deleted) =
      set.applyTo r :: rest.filter fun x => x.tenantId = tenantId && x.status ≠ .deleted :=
    List.filter_cons_of_pos hlive
  rw [hcons]
  exact hothers.symm.cons _

theorem newRequest_eq (hr : requestOf unit r = requestOf unit d) :
    requestOf unit ((resourceChanges input).applyTo r) = newRequest unit d input := by
  unfold newRequest
  rw [← hr]
  cases unit with
  | cpu => rfl
  | memory => rfl

theorem le_of_covers {x : Number} {q limit : ℚ} (hcovers : Covers x (.fin limit) q)
    (hgt : x.gt (.fin limit) = false) : q ≤ limit := by
  cases x with
  | fin a =>
    have hle : a ≤ limit := not_lt.mp (of_decide_eq_false hgt)
    rcases hcovers with hbelow | ⟨hnear, hroom⟩
    · exact le_trans hbelow hle
    · exact le_trans hnear hroom
  | posInf => cases hgt
  | negInf => exact hcovers.elim
  | nan => exact hcovers.elim

theorem fitsIn_of_perm {limit : ℚ} {requests : List String}
    (hperm : ((w.live S.tenant.id).map (requestOf unit)).Perm requests)
    (hquantities : ∀ r ∈ requests, (quantityOf S r).isSome)
    (hlimit : limitOf S S.tenant S.plan unit = .fin limit)
    (hsum : (requests.map (quantity S)).sum / baseUnits unit ≤ limit) : FitsIn S w unit where
  quantities r hr := hquantities r (hperm.mem_iff.mp hr)
  sum := by
    refine ⟨limit, hlimit, ?_⟩
    rw [(hperm.map (quantity S)).sum_eq]
    have hunits : 0 < baseUnits unit := by
      cases unit with
      | cpu => exact zero_lt_one
      | memory => exact pow_pos two_pos 30
    exact (div_le_iff₀ hunits).mp hsum

theorem fitsIn_written {phase : ℕ → Phase} (hnodup : (w.rows.map Deployment.id).Nodup)
    (hlimits : ∀ unit, ∃ limit, limitOf S S.tenant S.plan unit = .fin limit)
    (hsure : Sure S w id d others input unit)
    (haccepts : (checkedSum S d others input unit).gt (limitOf S S.tenant S.plan unit) = false) :
    FitsIn S { rows := written w id (resourceChanges input), phase := phase } unit := by
  obtain ⟨⟨r, hr, rfl, htenant, hrequest⟩, hothers, hquantities, hcovers⟩ := hsure
  obtain ⟨limit, hlimit⟩ := hlimits unit
  rw [hlimit] at haccepts hcovers
  have hlive := (live_written phase hnodup hr htenant
    (rfl : (resourceChanges input).status = some .pending)).map (requestOf unit)
  rw [List.map_cons, newRequest_eq hrequest] at hlive
  exact fitsIn_of_perm (hlive.trans (hothers.symm.cons _)) hquantities hlimit
    (le_of_covers hcovers haccepts)

end Store

/-! ## Runs -/

section Run

variable {S : Setting} {s t : State} {e : Step}

def Good (S : Setting) (s : State) : Prop :=
  Holds (Fresh World.phase .idle)
    (OnCourse (discipline S) World.phase (Ends (fun _ _ => True) fun _ => True)) s ∧
    Kept S s.world

theorem handle_moves : MovesStages (discipline S) World.phase (World.handle S) := by
  intro kind w i o r w' h
  obtain ⟨b, m, hb, hm, rfl⟩ := handle_eq_some h
  refine ⟨b, hb, ?_⟩
  rfl

theorem good_of_start (h : Start S s) : Good S s := by
  refine ⟨holds_of_start h.procs h.idle, h.nodup, ?_⟩
  intro i
  rw [h.idle i]
  trivial

theorem good_step (hplan : ∀ p ∈ S.plan, p.id = S.tenant.planId) (h : Good S s)
    (hs : step S s e = some t) : Good S t := by
  refine ⟨onCourse_step handle_moves program_follows h.1 hs, ?_⟩
  rcases allowed_step h.1 hs with hsame | ⟨i, o, r, kind, next, -, -, hallowed, hw⟩
  · rw [hsame]
    exact h.2
  · exact kept_handle hplan hallowed h.2 hw

theorem allowed_store {id : String} {guard : Guard} {set : Changes} {kind : Request}
    {d : Deployment} {tenant : Tenant} {plan : Option Plan} {others : List Deployment}
    (hallowed : Allowed S kind (.listed d tenant plan others) (.update id guard set)) :
    ∃ deploymentId input k8s, kind = .edit deploymentId input k8s ∧ guard = {} ∧
      set = resourceChanges (normalisedInput plan tenant input) ∧
        Accepts S d (normalisedInput plan tenant input) tenant plan others := by
  cases kind with
  | edit deploymentId input k8s => exact ⟨deploymentId, input, k8s, rfl, hallowed _ _ _ _ rfl⟩
  | write deploymentId set => cases hallowed

/-- The rows after a write without a guard. -/
theorem rows_of_update {w m : World} {id : String} {set : Changes} {matched : Bool}
    (hm : w.answer S (.update id {} set) (.ok matched) = some m) : m.rows = written w id set := by
  rw [← Option.some.inj (Option.ite_none_right_eq_some.mp hm).2]
  apply List.map_congr_left
  intro d _
  change (if d.id = id && true then set.applyTo d else d) = _
  rw [Bool.and_true]
  simp only [decide_eq_true_eq]

/-- A write of an edit, by its process. -/
theorem storeOf_eq_some {x : Store} (hx : storeOf s e = some x) :
    ∃ i guard set t p, e = .act i (.update x.id guard set) (.ok true) ∧
      s.world.phase i = .listed x.row t p x.others ∧ editOf s i = some x.input := by
  unfold storeOf at hx
  split at hx
  · split at hx
    · rename_i i id guard set _ _ d t p others input hphase hedit
      cases hx
      exact ⟨i, guard, set, _, _, rfl, hphase, hedit⟩
    · cases hx
  · cases hx

theorem stores_step (h : Start S s) {m m' : State} (hgood : Good S m) (hs : step S m e = some m')
    (hsure : StoresWhenSure S m e m') : StoresWithinPlan S m e m' := by
  intro hstores
  obtain ⟨x, hx⟩ := Option.isSome_iff_exists.mp hstores
  obtain ⟨i, guard, set, tenant, plan, rfl, hphase, hedit⟩ := storeOf_eq_some hx
  rcases step_cases _ _ hs with ⟨kind, he, -⟩ | ⟨j, o, r, kind, next, w, he, hi, hw, rfl⟩ |
    ⟨j, o, kind, next, he, -, -⟩
  · cases he
  · cases he
    have hallowed := (hgood.1.2 i kind _ hi).1
    have hknows := hgood.2.knows i
    rw [hphase] at hallowed hknows
    obtain ⟨rfl, rfl⟩ := hknows
    obtain ⟨deploymentId, input, k8s, rfl, rfl, rfl, haccepts⟩ := allowed_store hallowed
    have hinput : normalisedInput S.plan S.tenant input = x.input := by
      unfold normalisedInput
      rw [h.legacy]
      unfold editOf at hedit
      rw [hi] at hedit
      exact Option.some.inj hedit
    rw [hinput] at haccepts hw
    obtain ⟨b, w', -, hanswer, rfl⟩ := handle_eq_some hw
    have hrows := rows_of_update hanswer
    have htiered : S.tenant.cpuSchedulingMode ≠ .tiered := by
      rw [h.legacy]
      exact nofun
    obtain ⟨hcpu, hmemory⟩ := hsure x hx
    unfold WithinPlan
    dsimp only
    rw [hrows]
    exact ⟨fitsIn_written hgood.2.nodup h.limits hcpu (haccepts.1 htiered),
      fitsIn_written hgood.2.nodup h.limits hmemory haccepts.2⟩
  · cases he

/-- In every run in which edits store only when they are sure, the tenant is within its plan after
every edit that has stored. -/
theorem edits_store_within_plan (S : Setting) {s : State} {es : List Step} (h : Start S s)
    (hsure : Along (step S) (StoresWhenSure S) s es) : Along (step S) (StoresWithinPlan S) s es := by
  have hfits : Along (step S) (fun m e m' => StoresWhenSure S m e m' → StoresWithinPlan S m e m')
    s es :=
    along_of_invariant (step S) (fun _ _ _ hgood hs => good_step h.plan hgood hs)
      (fun _ _ _ hgood hs => stores_step h hgood hs) (good_of_start h)
  apply along_mono (step S) _ (along_and (step S) hfits hsure)
  intro m e m' hboth
  exact hboth.1 hboth.2

end Run

/-! ## Samples -/

def aPlan : Plan where
  id := "p"
  cpuLimit := "2.00"
  memoryLimit := "4.00"
  cpuTier := none
  maxApplications := 5

def setting : Setting where
  arith := exactArithmetic
  tenant := aTenant
  plan := some aPlan

def one : State where
  world := { rows := [aDeployment], phase := fun _ => .idle }
  procs := []

def cpuOnly (cpuRequest : String) : ResourcesInput where
  cpuRequest := some cpuRequest
  memoryRequest := none

def checking (cpuRequest : String) : List Step :=
  [.spawn (.edit "d" (cpuOnly cpuRequest) false),
   .act 0 (.selectDeployment "t" "d") (.ok (some aDeployment)),
   .act 0 (.selectTenant "t") (.ok (some aTenant)),
   .act 0 (.selectPlan "p") (.ok (some aPlan)),
   .act 0 (.selectOthers "t" "d") (.ok [])]

def storing (cpuRequest : String) : Step :=
  .act 0 (.update "d" {} (resourceChanges (cpuOnly cpuRequest))) (.ok true)

def editing (cpuRequest : String) : List Step := checking cpuRequest ++ [storing cpuRequest]

/-- What the samples come to, when they are computed. -/
structure Computed : Prop where
  cpu : limitOf setting setting.tenant setting.plan .cpu = .fin 2
  memory : limitOf setting setting.tenant setting.plan .memory = .fin 4
  quantities : ∀ unit ∈ [ResourceUnit.cpu, .memory],
    ∀ r ∈ (one.world.live "t").map (requestOf unit), (quantityOf setting r).isSome
  sums : (((one.world.live "t").map (requestOf .cpu)).map (quantity setting)).sum ≤
      2 * baseUnits .cpu ∧
    (((one.world.live "t").map (requestOf .memory)).map (quantity setting)).sum ≤ 4 * baseUnits .memory
  halfCore : (exec (step setting) one (editing "500m")).isSome = true ∧
    Along (step setting) (StoresWhenSure setting) one (editing "500m")
  thousandCores : (exec (step setting) one (checking "1k")).map
      (fun m => ((storeOf m (storing "1k")).isSome,
        (step setting m (storing "1k")).map fun t => (t.world.live "t").map (requestOf .cpu))) =
      some (true, some ["1k"])
  tooMuch : ¬ ((["1k"].map (quantity setting)).sum ≤ 2 * baseUnits .cpu)

theorem computed : Computed where
  cpu := by decide +kernel
  memory := by decide +kernel
  quantities := by decide +kernel
  sums := by decide +kernel
  halfCore := by decide +kernel
  thousandCores := by decide +kernel
  tooMuch := by decide +kernel

theorem start_one : Start setting one where
  procs := rfl
  idle _ := rfl
  nodup := by decide
  legacy := rfl
  plan := by
    intro p hp
    cases hp
    rfl
  limits := by
    intro unit
    cases unit with
    | cpu => exact ⟨2, computed.cpu⟩
    | memory => exact ⟨4, computed.memory⟩

theorem half_core_stores : (exec (step setting) one (editing "500m")).isSome = true ∧
    Along (step setting) (StoresWithinPlan setting) one (editing "500m") :=
  ⟨computed.halfCore.1, edits_store_within_plan setting start_one computed.halfCore.2⟩

theorem withinPlan_one : WithinPlan setting one.world := by
  constructor
  · exact ⟨computed.quantities .cpu (by simp), 2, computed.cpu, computed.sums.1⟩
  · exact ⟨computed.quantities .memory (by simp), 4, computed.memory, computed.sums.2⟩

/-- The check reads `1k` as no number at all, and the cluster as a thousand cores. -/
theorem thousand_cores_store : ¬ ∀ (S : Setting) (s : State) (es : List Step), Start S s →
    WithinPlan S s.world → Along (step S) (StoresWithinPlan S) s es := by
  intro hall
  have halong := hall setting one (editing "1k") start_one withinPlan_one
  obtain ⟨m, hm, hpair⟩ := Option.map_eq_some_iff.mp computed.thousandCores
  obtain ⟨hstores, hafter⟩ := Prod.ext_iff.mp hpair
  obtain ⟨t, ht, hlive⟩ := Option.map_eq_some_iff.mp hafter
  have hwithin := ((along_append (step setting) halong hm).2 t ht).1 hstores
  obtain ⟨limit, hlimit, hsum⟩ := hwithin.1.sum
  have hrequests : (t.world.live setting.tenant.id).map (requestOf .cpu) = ["1k"] := hlive
  rw [hrequests] at hsum
  have htwo : limit = 2 := by
    rw [computed.cpu] at hlimit
    injection hlimit with heq
    exact heq.symm
  rw [htwo] at hsum
  exact computed.tooMuch hsum

end Insula.ResourceEdits
