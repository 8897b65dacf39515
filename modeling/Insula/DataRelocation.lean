import Insula.Program
import Mathlib.Data.Int.Basic

/-!
# Moving the data of a tenant

A relocation is a ticket on the attachment of a volume, with its start time beside it. A start
writes it under one key, over an earlier one; a pass of the placement reconciler drops the tickets
whose copy has finished or run out of time.
-/

namespace Insula.Relocations

open Program

structure ReplicaFact where
  volumeName : String
  nodeId : Option String
  running : Bool
  failed : Bool
  deriving DecidableEq, Repr

structure RelocationVolume where
  volumeName : String
  namespaceName : Option String
  pvcRefLostAt : Option String
  inUse : Bool
  replicaCount : ℕ
  relocatingTo : Option String
  otherTickets : Bool

inductive SkipReason
  | haTier | alreadyLocal | inUse
  deriving DecidableEq, Repr

structure Skipped where
  volumeName : String
  reason : SkipReason
  deriving DecidableEq, Repr

def planVolume (replicas : List ReplicaFact) (target : String) (storageTier : Option String)
    (v : RelocationVolume) : String ⊕ Skipped :=
  if storageTier = some "ha" ∨ 1 < v.replicaCount then .inr ⟨v.volumeName, .haTier⟩
  else
    let copies := replicas.filter fun r => r.volumeName = v.volumeName ∧ r.failed = false
    if (copies.any fun r => r.nodeId = some target) ∧ v.relocatingTo = none then
      .inr ⟨v.volumeName, .alreadyLocal⟩
    else if v.inUse ∧ ¬ (v.relocatingTo ≠ none ∧ v.otherTickets = false) then
      .inr ⟨v.volumeName, .inUse⟩
    else .inl v.volumeName

def nonEmpty (s : Option String) : Bool := s.any fun s => s ≠ ""

def planRelocation (volumes : List RelocationVolume) (replicas : List ReplicaFact)
    (namespaceName target : String) (storageTier : Option String) : List String × List Skipped :=
  let plans := (volumes.filter fun v =>
    v.namespaceName = some namespaceName ∧ nonEmpty v.pvcRefLostAt = false).map
      (planVolume replicas target storageTier)
  (plans.filterMap Sum.getLeft?, plans.filterMap Sum.getRight?)

inductive Verdict
  | done | waiting | timedOut
  deriving DecidableEq, Repr

def relocateMaxMs : ℤ := 4 * 60 * 60000

def relocationVerdict (replicas : List ReplicaFact) (volumeName target : String)
    (startedAt : Option ℤ) (now : ℤ) : Verdict :=
  let copies := replicas.filter fun r => r.volumeName = volumeName ∧ r.failed = false
  let isLocal := copies.any fun r => r.nodeId = some target ∧ r.running
  let remote := copies.any fun r => r.nodeId ≠ some target
  if isLocal ∧ remote = false then .done
  else if startedAt.all fun started => relocateMaxMs < now - started then .timedOut
  else .waiting

/-! ## What Longhorn lists -/

structure VolumeRaw where
  name : Option String
  numberOfReplicas : Option ℕ
  state : Option String
  currentNodeID : Option String
  namespaceName : Option String
  lastPVCRefAt : Option String
  deriving DecidableEq

structure ReplicaRaw where
  volumeName : Option String
  nodeID : Option String
  failedAt : Option String
  currentState : Option String
  deriving DecidableEq

structure Attachment where
  name : String
  relocate : Option String
  startedAt : Option ℤ
  others : List String
  deriving DecidableEq

def toFact (names : List String) (r : ReplicaRaw) : Option ReplicaFact :=
  match r.volumeName with
  | none => none
  | some volumeName =>
    if volumeName ≠ "" ∧ volumeName ∈ names then
      some
        { volumeName := volumeName
          nodeId := if nonEmpty r.nodeID then r.nodeID else none
          running := r.currentState = some "running"
          failed := nonEmpty r.failedAt || r.currentState = some "error" }
    else none

def toVolume (attachments : List Attachment) (namespaceName : String) (v : VolumeRaw) :
    Option RelocationVolume :=
  match v.name with
  | none => none
  | some name =>
    if v.namespaceName = some namespaceName ∧ name ≠ "" then
      -- Of two entries of one name a map keeps the later.
      let attachment := attachments.reverse.find? fun a => a.name = name
      some
        { volumeName := name
          namespaceName := some namespaceName
          pvcRefLostAt := if nonEmpty v.lastPVCRefAt then v.lastPVCRefAt else none
          inUse := nonEmpty v.currentNodeID || v.state.any fun state => state ≠ "detached"
          replicaCount := v.numberOfReplicas.getD 1
          relocatingTo := attachment.bind Attachment.relocate
          otherTickets := attachment.any fun a => a.others ≠ [] }
    else none

/-! ## The calls -/

inductive Op
  | listVolumes
  | listReplicas
  | listAttachments
  | patchTicket (volumeName target : String) (startedAt : ℤ)
  | releaseTicket (volumeName : String)
  | change (volumes : List VolumeRaw) (replicas : List ReplicaRaw)
  deriving DecidableEq

abbrev Val : Op → Type
  | .listVolumes => List VolumeRaw
  | .listReplicas => List ReplicaRaw
  | .listAttachments => List Attachment
  | _ => Unit

/-- A call that failed; the caller does not learn whether it was carried out. -/
structure Failure where
  message : String
  carriedOut : Bool
  deriving DecidableEq

abbrev Task (α : Type) := Attempt Failure Op Val α

def ask (o : Op) : Task (Val o) := request o

/-- The order in which the three lists of one `Promise.all` are read. -/
inductive ReadOrder
  | vra | var | rva | rav | avr | arv
  deriving DecidableEq

abbrev Lists : Type := List VolumeRaw × List ReplicaRaw × List Attachment

def readLists : ReadOrder → Task Lists
  | .vra => do
    let vols ← ask .listVolumes
    let reps ← ask .listReplicas
    let vas ← ask .listAttachments
    return (vols, reps, vas)
  | .var => do
    let vols ← ask .listVolumes
    let vas ← ask .listAttachments
    let reps ← ask .listReplicas
    return (vols, reps, vas)
  | .rva => do
    let reps ← ask .listReplicas
    let vols ← ask .listVolumes
    let vas ← ask .listAttachments
    return (vols, reps, vas)
  | .rav => do
    let reps ← ask .listReplicas
    let vas ← ask .listAttachments
    let vols ← ask .listVolumes
    return (vols, reps, vas)
  | .avr => do
    let vas ← ask .listAttachments
    let vols ← ask .listVolumes
    let reps ← ask .listReplicas
    return (vols, reps, vas)
  | .arv => do
    let vas ← ask .listAttachments
    let reps ← ask .listReplicas
    let vols ← ask .listVolumes
    return (vols, reps, vas)

def readVolumes (order : ReadOrder) (namespaceName : String) :
    Task (List RelocationVolume × List ReplicaFact) := do
  let (vols, reps, vas) ← readLists order
  let volumes := vols.filterMap (toVolume vas namespaceName)
  return (volumes, reps.filterMap (toFact (volumes.map RelocationVolume.volumeName)))

structure Plan where
  started : List String
  skipped : List Skipped
  error : Option String

def attachOne (target : String) (now : ℤ) (volumeName : String) : Task (String ⊕ String) :=
  tryCatch (do ask (.patchTicket volumeName target now); return .inl volumeName)
    fun err => return .inr (volumeName ++ ": " ++ err.message)

def attachAll (target : String) (now : ℤ) : List String → Task (List String × List String)
  | [] => return ([], [])
  | volumeName :: rest => do
    let outcome ← attachOne target now volumeName
    let (started, errors) ← attachAll target now rest
    match outcome with
    | .inl volumeName => return (volumeName :: started, errors)
    | .inr error => return (started, error :: errors)

def planFor (order : ReadOrder) (namespaceName target : String) (storageTier : Option String) :
    Task (Except String (List String × List Skipped)) :=
  tryCatch (do
    let (volumes, replicas) ← readVolumes order namespaceName
    return .ok (planRelocation volumes replicas namespaceName target storageTier))
    fun err => return .error err.message

def startPlanned (target : String) (now : ℤ) :
    Except String (List String × List Skipped) → Task Plan
  | .error message => return { started := [], skipped := [], error := some message }
  | .ok (attach, skipped) => do
    let (started, errors) ← attachAll target now attach
    return { started := started, skipped := skipped
             error := if errors = [] then none else some ("; ".intercalate errors) }

def startDataRelocation (order : ReadOrder) (namespaceName target : String)
    (storageTier : Option String) (now : ℤ) : Task Plan := do
  let plan ← planFor order namespaceName target storageTier
  startPlanned target now plan

structure Released where
  volumeName : String
  node : String
  verdict : Verdict

def verdictOf (replicas : List ReplicaFact) (now : ℤ) (va : Attachment) : Option (String × Verdict) :=
  if va.name = "" then none
  else
    match va.relocate with
    | none => none
    | some node =>
      if node = "" then none
      else some (node, relocationVerdict replicas va.name node va.startedAt now)

def finishOne (replicas : List ReplicaFact) (now : ℤ) (va : Attachment) : Task (List Released) :=
  match verdictOf replicas now va with
  | none => return []
  | some (node, verdict) =>
    if verdict = .waiting then return []
    else do
      ask (.releaseTicket va.name)
      return [{ volumeName := va.name, node := node, verdict := verdict }]

def finishAll (replicas : List ReplicaFact) (now : ℤ) : List Attachment → Task (List Released)
  | [] => return []
  | va :: rest => do
    let released ← finishOne replicas now va
    let others ← finishAll replicas now rest
    return released ++ others

def finishDataRelocations (replicas : List ReplicaFact) (now : ℤ) : Task (List Released) := do
  let list ← ask .listAttachments
  finishAll replicas now list

/-! ## The verdict -/

def CopyAlone (replicas : List ReplicaFact) (volumeName target : String) : Prop :=
  (∃ r ∈ replicas, r.volumeName = volumeName ∧ r.failed = false ∧ r.nodeId = some target ∧
    r.running = true) ∧
  ∀ r ∈ replicas, r.volumeName = volumeName → r.failed = false → r.nodeId = some target

theorem relocationVerdict_ne_waiting {replicas : List ReplicaFact} {volumeName target : String}
    {startedAt : Option ℤ} {now : ℤ} :
    relocationVerdict replicas volumeName target startedAt now ≠ .waiting ↔
      CopyAlone replicas volumeName target ∨ ∀ started ∈ startedAt, relocateMaxMs < now - started := by
  unfold relocationVerdict
  dsimp only
  have halone : ((replicas.filter fun r => r.volumeName = volumeName ∧ r.failed = false).any
        fun r => r.nodeId = some target ∧ r.running) = true ∧
      ((replicas.filter fun r => r.volumeName = volumeName ∧ r.failed = false).any
        fun r => r.nodeId ≠ some target) = false ↔ CopyAlone replicas volumeName target := by
    unfold CopyAlone
    rw [List.any_eq_true, List.any_eq_false]
    simp only [List.mem_filter, decide_eq_true_eq, not_not]
    constructor
    · rintro ⟨⟨r, ⟨hr, hname, hfailed⟩, hnode, hrunning⟩, hall⟩
      exact ⟨⟨r, hr, hname, hfailed, hnode, hrunning⟩,
        fun r' hr' hname' hfailed' => hall r' ⟨hr', hname', hfailed'⟩⟩
    · rintro ⟨⟨r, hr, hname, hfailed, hnode, hrunning⟩, hall⟩
      exact ⟨⟨r, ⟨hr, hname, hfailed⟩, hnode, hrunning⟩,
        fun r' hr' => hall r' hr'.1 hr'.2.1 hr'.2.2⟩
  have hexpired : (startedAt.all fun started => relocateMaxMs < now - started) = true ↔
      ∀ started ∈ startedAt, relocateMaxMs < now - started := by
    cases startedAt with
    | none => simp
    | some started => simp
  rw [← halone, ← hexpired]
  split
  · exact iff_of_true (by decide) (.inl ‹_›)
  · split
    · exact iff_of_true (by decide) (.inr ‹_›)
    · exact iff_of_false (fun h => h rfl) (fun h => h.elim ‹_› ‹_›)

end Insula.Relocations
