import Mathlib

/-!
# Quiescing a tenant namespace and bringing it back

`quiesce` captures the replica counts and the suspend flags, hands them to the caller to persist,
and only then marks every running Deployment as held and scales it to 0 and suspends the CronJobs.
It may be cut at any of these writes. `unquiesce` goes by such a snapshot. For an entry of 0 it goes
by what the Deployment itself records next to its hold.
-/

namespace Insula.Quiesce

structure Objects (α : Type) where
  names : List String
  nodup : names.Nodup
  spec : String → α

namespace Objects

variable {α : Type} (o : Objects α)

def modify (name : String) (f : α → α) : Objects α :=
  { o with spec := fun n => if n = name then f (o.spec n) else o.spec n }

@[simp] theorem modify_spec_self (name : String) (f : α → α) :
    (o.modify name f).spec name = f (o.spec name) := if_pos rfl

end Objects

structure Deployment where
  replicas : ℕ
  storageQuiesced : Option String
  preQuiesceReplicas : Option String
deriving DecidableEq

structure Namespace where
  deployments : Objects Deployment
  cronJobs : Objects Bool

/-! ## The writes -/

inductive Write where
  | hold (name : String) (replicas : ℕ)
  | release (name : String)
  | scale (name : String) (replicas : ℕ)
  | suspend (name : String) (flag : Bool)

def Namespace.apply (ns : Namespace) : Write → Namespace
  | .hold name replicas =>
    { ns with deployments := ns.deployments.modify name fun d =>
        { d with storageQuiesced := some "true", preQuiesceReplicas := some (toString replicas) } }
  | .release name =>
    { ns with deployments := ns.deployments.modify name fun d =>
        { d with storageQuiesced := none, preQuiesceReplicas := none } }
  | .scale name replicas =>
    { ns with deployments := ns.deployments.modify name fun d => { d with replicas := replicas } }
  | .suspend name flag => { ns with cronJobs := ns.cronJobs.modify name fun _ => flag }

/-! ## Quiescing -/

structure Entry where
  name : String
  replicas : ℕ

structure CronEntry where
  name : String
  wasSuspended : Bool

structure QuiesceSnapshot where
  deployments : List Entry
  cronJobs : List CronEntry

def capture (ns : Namespace) : QuiesceSnapshot where
  deployments := ns.deployments.names.map fun name => ⟨name, (ns.deployments.spec name).replicas⟩
  cronJobs := ns.cronJobs.names.map fun name => ⟨name, ns.cronJobs.spec name⟩

def holdWrites (d : Entry) : List Write :=
  if 0 < d.replicas then [.hold d.name d.replicas, .scale d.name 0] else []

def suspendWrites (cj : CronEntry) : List Write :=
  if cj.wasSuspended then [] else [.suspend cj.name true]

/-- What `quiesce` writes after the snapshot is persisted. -/
def quiesceWrites (snap : QuiesceSnapshot) : List Write :=
  snap.deployments.flatMap holdWrites ++ snap.cronJobs.flatMap suspendWrites

def quiesce (landed : ℕ) (ns : Namespace) : Namespace × QuiesceSnapshot :=
  (((quiesceWrites (capture ns)).take landed).foldl Namespace.apply ns, capture ns)

def Completes (landed : ℕ) (ns : Namespace) : Prop := (quiesceWrites (capture ns)).length ≤ landed

instance (landed : ℕ) (ns : Namespace) : Decidable (Completes landed ns) :=
  inferInstanceAs (Decidable (_ ≤ _))

/-! ## Bringing the namespace back -/

/-- The answer to a write to an existing object; a call that throws may have landed. -/
inductive Reply where
  | ok
  | failed (landed : Bool) (msg : String)

inductive Outcome where
  | restored
  | gone
  | failed (why : String)

structure Cluster where
  statusAnswers : String → Bool
  scale : String → Reply
  outcome : String → Outcome
  releases : String → Bool
  unsuspend : String → Reply

inductive Failure where
  | scale (name : String) (replicas : ℕ) (msg : String)
  | notAvailable (name : String) (why : String)
  | cronJob (name : String) (msg : String)
deriving DecidableEq

structure DeploymentStatusView where
  desired : ℕ
  held : Bool
  preQuiesceReplicas : Option ℕ

/-- `/^[0-9]{1,4}$/`, and a count above 0. -/
def parseReplicas (raw : String) : Option ℕ :=
  if 1 ≤ raw.toList.length ∧ raw.toList.length ≤ 4 ∧ raw.toList.all Char.isDigit then
    some (Nat.ofDigitChars 10 raw.toList 0) |>.filter (0 < ·)
  else none

def Deployment.view (d : Deployment) : DeploymentStatusView where
  desired := d.replicas
  held := d.storageQuiesced = some "true"
  preQuiesceReplicas := d.preQuiesceReplicas.bind parseReplicas

def readDeploymentStatus (c : Cluster) (ns : Namespace) (name : String) :
    Option DeploymentStatusView :=
  if c.statusAnswers name ∧ name ∈ ns.deployments.names then
    some (ns.deployments.spec name).view
  else none

structure Progress where
  ns : Namespace
  scaled : List Entry
  goneEarly : List String
  failures : List Failure

def scaleUp (c : Cluster) (p : Progress) (name : String) (replicas : ℕ) : Progress :=
  if name ∈ p.ns.deployments.names then
    match c.scale name with
    | .ok =>
      { p with
        ns := p.ns.apply (.scale name replicas)
        scaled := p.scaled ++ [⟨name, replicas⟩] }
    | .failed landed msg =>
      { p with
        ns := if landed then p.ns.apply (.scale name replicas) else p.ns
        failures := p.failures ++ [.scale name replicas msg] }
  else { p with goneEarly := p.goneEarly ++ [name] }

def staleCount (c : Cluster) (ns : Namespace) (name : String) : Option ℕ :=
  (readDeploymentStatus c ns name).bind fun view =>
    if view.held ∧ view.desired = 0 then view.preQuiesceReplicas else none

def scaleUpEntry (c : Cluster) (p : Progress) (d : Entry) : Progress :=
  if d.replicas ≤ 0 then
    match staleCount c p.ns d.name with
    | some count => scaleUp c p d.name count
    | none => { p with goneEarly := p.goneEarly ++ [d.name] }
  else scaleUp c p d.name d.replicas

def scaleUps (c : Cluster) (ns : Namespace) (entries : List Entry) : Progress :=
  entries.foldl (scaleUpEntry c) ⟨ns, [], [], []⟩

def waitFailure (c : Cluster) (t : Entry) : Option Failure :=
  if t.replicas ≤ 0 then none
  else
    match c.outcome t.name with
    | .failed why => some (.notAvailable t.name why)
    | _ => none

def dropHold (c : Cluster) (p : Progress) (ns : Namespace) (d : Entry) : Namespace :=
  let ok := d.name ∈ p.goneEarly ∨ ∃ t ∈ p.scaled, t.name = d.name ∧ waitFailure c t = none
  if ok ∧ c.releases d.name then ns.apply (.release d.name) else ns

def unsuspend (c : Cluster) (state : Namespace × List Failure) (cj : CronEntry) :
    Namespace × List Failure :=
  if cj.wasSuspended ∨ cj.name ∉ state.1.cronJobs.names then state
  else
    match c.unsuspend cj.name with
    | .ok => (state.1.apply (.suspend cj.name false), state.2)
    | .failed landed msg =>
      (if landed then state.1.apply (.suspend cj.name false) else state.1,
        state.2 ++ [.cronJob cj.name msg])

/-- The namespace that `unquiesce` leaves and its failures; it throws when there are any. -/
def unquiesce (c : Cluster) (ns : Namespace) (snap : QuiesceSnapshot) : Namespace × List Failure :=
  let p := scaleUps c ns snap.deployments
  let failures := p.failures ++ p.scaled.filterMap (waitFailure c)
  let released := snap.deployments.foldl (dropHold c p) p.ns
  snap.cronJobs.foldl (unsuspend c) (released, failures)

end Insula.Quiesce
