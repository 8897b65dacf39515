import Insula.Quiesce

/-!
# Bringing a namespace back, read by read

The scale-ups of a snapshot are issued, each workload that was scaled is polled until it is
available, gone or refused or the deadline has passed, and the holds of those that are back or gone
are dropped. Every call to the API may fail. What a call answers, and what the Deployments are when
it is made, is the environment's.
-/

namespace Insula.Unquiesce

open Quiesce (Deployment Entry CronEntry QuiesceSnapshot DeploymentStatusView)

structure Status where
  available : ℕ
  replicaFailure : Option String
deriving DecidableEq

inductive Read (α : Type) where
  | view (v : α)
  | gone
  | threw (msg : String)
deriving DecidableEq

inductive Reply where
  | ok
  | gone
  | threw (msg : String)
deriving DecidableEq

structure Environment where
  /-- The Deployments of the namespace. -/
  deployment : String → Option Deployment
  /-- The error of the status read before a scale-up. -/
  readError : String → Option String
  /-- The error of a scale-up. -/
  scaleError : String → Option String
  poll : ℕ → String → Read Status
  /-- The round of the wait after which the deadline has passed. -/
  rounds : ℕ
  timeoutSeconds : ℕ
  deadlineRead : String → Read Status
  /-- Does dropping the hold land? -/
  releases : String → Bool
  unsuspend : String → Reply

variable (e : Environment)

/-! ## Scaling up -/

inductive Attempt where
  | scaled (t : Entry)
  | goneEarly
  | failed (replicas : ℕ) (msg : String)

def scaleDeployment (name : String) (replicas : ℕ) : Attempt :=
  if (e.deployment name).isNone then .goneEarly
  else
    match e.scaleError name with
    | none => .scaled ⟨name, replicas⟩
    | some msg => .failed replicas msg

def readCaught (name : String) : Option DeploymentStatusView :=
  if (e.readError name).isSome then none else (e.deployment name).map Deployment.view

def attempt (d : Entry) : Attempt :=
  if d.replicas ≤ 0 then
    match readCaught e d.name with
    | some view =>
      match view.preQuiesceReplicas with
      | some replicas => if view.held ∧ view.desired = 0 then scaleDeployment e d.name replicas else .goneEarly
      | none => .goneEarly
    | none => .goneEarly
  else scaleDeployment e d.name d.replicas

/-! ## Waiting -/

inductive Verdict where
  | restored
  | gone
  | failed (why : String)
deriving DecidableEq

/-- `availableReplicas` of what is asked for. -/
def fraction (available : ℕ) (t : Entry) : String := toString available ++ "/" ++ toString t.replicas ++ " available"

/-- What a poll says of a workload; `none` while it is pending. -/
def look (round : ℕ) (t : Entry) : Option Verdict :=
  match e.poll round t.name with
  | .threw msg => some (.failed ("status read failed: " ++ msg))
  | .gone => some .gone
  | .view v =>
    if t.replicas ≤ v.available then some .restored
    else v.replicaFailure.map fun why => .failed (fraction v.available t ++ " — " ++ why)

def deadlineFailure (t : Entry) : String :=
  match e.deadlineRead t.name with
  | .view v => fraction v.available t ++ " after " ++ toString e.timeoutSeconds ++ "s" ++
      (v.replicaFailure.map fun why => " — " ++ why).getD ""
  | _ => fraction 0 t ++ " after " ++ toString e.timeoutSeconds ++ "s"

structure Waited where
  restored : List String
  gone : List String
  failures : List (String × String)

def Waited.record (w : Waited) (t : Entry) : Verdict → Waited
  | .restored => { w with restored := w.restored ++ [t.name] }
  | .gone => { w with gone := w.gone ++ [t.name] }
  | .failed why => { w with failures := w.failures ++ [(t.name, why)] }

def pollRound (round : ℕ) (pending : List Entry) (w : Waited) : Waited × List Entry :=
  pending.foldl (fun (w, still) t =>
    match look e round t with
    | some v => (w.record t v, still)
    | none => (w, still ++ [t])) (w, [])

def waitLoop : ℕ → ℕ → List Entry → Waited → Waited
  | left, round, pending, w =>
    if pending = [] then w
    else
      let (w', still) := pollRound e round pending w
      match left with
      | 0 => still.foldl (fun w t => w.record t (.failed (deadlineFailure e t))) w'
      | left + 1 => waitLoop left (round + 1) still w'

def waitForRestored (targets : List Entry) : Waited :=
  waitLoop e e.rounds 0 (targets.filter fun t => 0 < t.replicas)
    ⟨(targets.filter fun t => t.replicas ≤ 0).map Entry.name, [], []⟩

/-! ## The whole call -/

inductive Failure where
  | scale (name : String) (replicas : ℕ) (msg : String)
  | notAvailable (name why : String)
  | cronJob (name msg : String)
deriving DecidableEq

def Failure.text : Failure → String
  | .scale name replicas msg => name ++ "->" ++ toString replicas ++ ": " ++ msg
  | .notAvailable name why => name ++ ": " ++ why
  | .cronJob name msg => "cronjob " ++ name ++ ": " ++ msg

structure Result where
  scaled : List Entry
  cleared : List String
  failures : List Failure

def scaledBy (snap : QuiesceSnapshot) : List Entry :=
  snap.deployments.filterMap fun d => match attempt e d with
    | .scaled t => some t
    | _ => none

def goneEarly (snap : QuiesceSnapshot) : List String :=
  snap.deployments.filterMap fun d => match attempt e d with
    | .goneEarly => some d.name
    | _ => none

def scaleFailures (snap : QuiesceSnapshot) : List Failure :=
  snap.deployments.filterMap fun d => match attempt e d with
    | .failed replicas msg => some (.scale d.name replicas msg)
    | _ => none

def unsuspendFailure (cj : CronEntry) : Option Failure :=
  if cj.wasSuspended then none
  else
    match e.unsuspend cj.name with
    | .threw msg => some (.cronJob cj.name msg)
    | _ => none

def unquiesce (snap : QuiesceSnapshot) : Result :=
  let waited := waitForRestored e (scaledBy e snap)
  let ok (d : Entry) : Bool :=
    d.name ∈ waited.restored || d.name ∈ waited.gone || d.name ∈ goneEarly e snap
  { scaled := scaledBy e snap
    cleared := (snap.deployments.filter fun d => ok d && e.releases d.name).map Entry.name
    failures := scaleFailures e snap ++ waited.failures.map (fun f => .notAvailable f.1 f.2) ++
      snap.cronJobs.filterMap (unsuspendFailure e) }

def message (ns : String) (r : Result) : Option String :=
  if r.failures = [] then none
  else some ("unquiesce: " ++ toString r.failures.length ++ " workload(s) in " ++ ns ++
    " could not be restored — the tenant is still scaled down: " ++ "; ".intercalate (r.failures.map Failure.text))

/-! ## One workload of the wait -/

section Wait

def verdict (t : Entry) : ℕ → ℕ → Verdict
  | left, round =>
    match look e round t with
    | some v => v
    | none =>
      match left with
      | 0 => .failed (deadlineFailure e t)
      | left + 1 => verdict t left (round + 1)

def reads (t : Entry) : ℕ → ℕ → List (Read Status)
  | left, round => e.poll round t.name ::
      if (look e round t).isSome then []
      else
        match left with
        | 0 => [e.deadlineRead t.name]
        | left + 1 => reads t left (round + 1)

def Waited.Says (w : Waited) (name : String) : Verdict → Prop
  | .restored => name ∈ w.restored
  | .gone => name ∈ w.gone
  | .failed why => (name, why) ∈ w.failures

variable {e} {w : Waited} {t : Entry} {name : String} {u v : Verdict}

theorem says_record : (w.record t v).Says name u ↔ w.Says name u ∨ (name = t.name ∧ u = v) := by
  cases v <;> cases u <;> simp [Waited.record, Waited.Says]

theorem says_foldl_record {l : List Entry} (f : Entry → Verdict) :
    (l.foldl (fun w t => w.record t (f t)) w).Says name u ↔
      w.Says name u ∨ ∃ t ∈ l, name = t.name ∧ u = f t := by
  induction l generalizing w with
  | nil => simp
  | cons t l ih =>
    rw [List.foldl_cons, ih, says_record, or_assoc]
    simp

theorem pollRound_spec (round : ℕ) (pending still : List Entry) (w : Waited) :
    let r := pending.foldl (fun (w, still) t =>
      match look e round t with
      | some v => (w.record t v, still)
      | none => (w, still ++ [t])) (w, still)
    (∀ name u, r.1.Says name u ↔ w.Says name u ∨ ∃ t ∈ pending, name = t.name ∧
      look e round t = some u) ∧
      r.2 = still ++ pending.filter fun t => (look e round t).isNone := by
  induction pending generalizing w still with
  | nil => simp
  | cons t pending ih =>
    dsimp only [List.foldl_cons]
    cases hlook : look e round t with
    | none =>
      obtain ⟨hverdicts, hstill⟩ := ih (still ++ [t]) w
      refine ⟨fun name u => ?_, ?_⟩
      · rw [hverdicts]
        simp [hlook]
      · rw [hstill]
        simp [hlook]
    | some v =>
      obtain ⟨hverdicts, hstill⟩ := ih still (w.record t v)
      refine ⟨fun name u => ?_, ?_⟩
      · rw [hverdicts, says_record, or_assoc]
        simp [hlook, eq_comm]
      · rw [hstill]
        simp [hlook]

theorem verdict_zero (t : Entry) (round : ℕ) :
    verdict e t 0 round = ((look e round t).getD (.failed (deadlineFailure e t))) := by
  unfold verdict
  cases look e round t <;> rfl

theorem verdict_succ (t : Entry) (left round : ℕ) :
    verdict e t (left + 1) round = ((look e round t).getD (verdict e t left (round + 1))) := by
  conv_lhs => unfold verdict
  cases look e round t <;> rfl

/-- A round settles what it has looked at, and leaves the rest to what comes after. -/
theorem settled_iff {pending : List Entry} {round : ℕ} (later : Entry → Verdict) :
    ((∃ t ∈ pending, name = t.name ∧ look e round t = some u) ∨
      ∃ t ∈ pending.filter (fun t => (look e round t).isNone), name = t.name ∧ u = later t) ↔
      ∃ t ∈ pending, name = t.name ∧ (look e round t).getD (later t) = u := by
  constructor
  · rintro (⟨t, ht, hname, hlook⟩ | ⟨t, ht, hname, rfl⟩)
    · exact ⟨t, ht, hname, by simp [hlook]⟩
    · obtain ⟨ht, hnone⟩ := List.mem_filter.mp ht
      exact ⟨t, ht, hname, by simp [Option.isNone_iff_eq_none.mp hnone]⟩
  · rintro ⟨t, ht, hname, hu⟩
    cases hlook : look e round t with
    | some v =>
      rw [hlook, Option.getD_some] at hu
      exact Or.inl ⟨t, ht, hname, by rw [hlook, hu]⟩
    | none =>
      rw [hlook, Option.getD_none] at hu
      exact Or.inr ⟨t, List.mem_filter.mpr ⟨ht, by simp [hlook]⟩, hname, hu.symm⟩

theorem waitLoop_verdict (left round : ℕ) (pending : List Entry) (w : Waited) :
    (waitLoop e left round pending w).Says name u ↔
      w.Says name u ∨ ∃ t ∈ pending, name = t.name ∧ verdict e t left round = u := by
  induction left generalizing round pending w with
  | zero =>
    obtain ⟨hverdicts, hstill⟩ := pollRound_spec (e := e) round pending [] w
    unfold waitLoop
    by_cases hempty : pending = []
    · simp [hempty]
    · simp only [verdict_zero]
      rw [if_neg hempty, ← settled_iff, ← or_assoc, ← hverdicts, says_foldl_record]
      unfold pollRound
      rw [hstill, List.nil_append]
  | succ left ih =>
    obtain ⟨hverdicts, hstill⟩ := pollRound_spec (e := e) round pending [] w
    unfold waitLoop
    by_cases hempty : pending = []
    · simp [hempty]
    · simp only [verdict_succ]
      rw [if_neg hempty, ← settled_iff, ← or_assoc, ← hverdicts]
      dsimp only
      rw [ih]
      unfold pollRound
      rw [hstill, List.nil_append]
      simp only [eq_comm (a := u)]

theorem waitForRestored_verdict {targets : List Entry} (hpos : ∀ t ∈ targets, 0 < t.replicas) :
    (waitForRestored e targets).Says name u ↔ ∃ t ∈ targets, name = t.name ∧
    verdict e t e.rounds 0 = u := by
  have hall : targets.filter (fun t => decide (0 < t.replicas)) = targets :=
    List.filter_eq_self.mpr fun t ht => decide_eq_true (hpos t ht)
  have hnone : targets.filter (fun t => decide (t.replicas ≤ 0)) = [] :=
    List.filter_eq_nil_iff.mpr fun t ht => by simpa using (hpos t ht).ne'
  unfold waitForRestored
  rw [waitLoop_verdict, hall, hnone]
  have hempty : ¬ (Waited.mk [] [] []).Says name u := by
    cases u <;> simp [Waited.Says]
  simp [hempty]

end Wait

end Insula.Unquiesce
