import Insula.DataRelocation
import Insula.Stages
import Mathlib.Data.List.Nodup

/-!
# Starts and passes, interleaved

A pass judges the tickets that it listed and drops by key what is there by then. When a start has
written the ticket of a volume in between, the pass drops a ticket that it has not judged.
-/

namespace Insula.Relocations

open Program Concurrent Transition

inductive Kind
  | start (order : ReadOrder) (namespaceName target : String) (storageTier : Option String) (now : ℤ)
  | finish (replicas : List ReplicaFact) (now : ℤ)
  | cluster (volumes : List VolumeRaw) (replicas : List ReplicaRaw)
  deriving DecidableEq

abbrev Ans (o : Op) : Type := Except Failure (Val o)

inductive Outcome
  | planned (plan : Plan)
  | released (list : List Released)
  | changed

abbrev Result : Type := Except Failure Outcome

def calls : Kind → Task Outcome
  | .start order namespaceName target storageTier now => do
    let plan ← startDataRelocation order namespaceName target storageTier now
    return .planned plan
  | .finish replicas now => do
    let list ← finishDataRelocations replicas now
    return .released list
  | .cluster volumes replicas => do
    ask (.change volumes replicas)
    return .changed

def program (kind : Kind) : Program Op Ans Result := (calls kind).run

/-- `writes` counts how often a start has written the ticket of a volume, and `writesAt` is that
count when a call listed the attachments. -/
structure World where
  volumes : List VolumeRaw
  replicas : List ReplicaRaw
  attachments : List Attachment
  writes : String → ℕ
  writesAt : ℕ → String → ℕ
  /-- The attachments that a call has listed. -/
  stage : ℕ → Option (List Attachment)

namespace World

variable (w : World)

def written (volumeName target : String) (startedAt : ℤ) : World :=
  { w with
    attachments := w.attachments.map fun a =>
      if a.name = volumeName then { a with relocate := some target, startedAt := some startedAt } else a
    writes := Function.update w.writes volumeName (w.writes volumeName + 1) }

def released (volumeName : String) : World :=
  { w with
    attachments := w.attachments.map fun a =>
      if a.name = volumeName then { a with relocate := none, startedAt := none } else a }

def patched (volumeName : String) (w' : World) : Option World :=
  if w.attachments.any fun a => a.name = volumeName then some w' else none

def readVolumes (list : List VolumeRaw) : Option World := if list = w.volumes then some w else none

def readReplicas (list : List ReplicaRaw) : Option World := if list = w.replicas then some w else none

def readAttachments (i : ℕ) (list : List Attachment) : Option World :=
  if list = w.attachments then some { w with writesAt := Function.update w.writesAt i w.writes }
  else none

def respond (i : ℕ) : (o : Op) → Ans o → Option World
  | .listVolumes, .ok list => w.readVolumes list
  | .listReplicas, .ok list => w.readReplicas list
  | .listAttachments, .ok list => w.readAttachments i list
  | .patchTicket volumeName target startedAt, .ok _ =>
    w.patched volumeName (w.written volumeName target startedAt)
  | .patchTicket volumeName target startedAt, .error failure =>
    some (if failure.carriedOut then w.written volumeName target startedAt else w)
  | .releaseTicket volumeName, .ok _ => w.patched volumeName (w.released volumeName)
  | .releaseTicket volumeName, .error failure =>
    some (if failure.carriedOut then w.released volumeName else w)
  | .change volumes replicas, .ok _ => some { w with volumes := volumes, replicas := replicas }
  | _, .error _ => some w

end World

def listed (b : Option (List Attachment)) : (o : Op) → Ans o → Option (List Attachment)
  | .listAttachments, .ok list => some list
  | _, _ => b

def handle (w : World) (i : ℕ) (o : Op) (r : Ans o) : Option World :=
  (w.respond i o r).map fun m => { m with stage := Function.update w.stage i (listed (w.stage i) o r) }

abbrev Calls := Config World Kind Op Ans Result

abbrev Happening := Event Kind Op Ans

abbrev step : Calls → Happening → Option Calls := Concurrent.step program handle

/-! ## What a pass drops -/

/-- The copy on the ticket's own target was the only one, or the ticket is too old. -/
def OwnReason (replicas : List ReplicaFact) (now : ℤ) (a : Attachment) : Prop :=
  (∃ node ∈ a.relocate, CopyAlone replicas a.name node) ∨
    ∃ started ∈ a.startedAt, relocateMaxMs < now - started

def Dropped (w : World) (a : Attachment) : Prop :=
  a.relocate ≠ none ∧ ∃ a' ∈ w.attachments, a'.name = a.name ∧ a'.relocate = none

def DropsForOwnReason (s : Calls) (e : Happening) (t : Calls) : Prop :=
  ∀ i o r replicas now rest, e = .act i o r → s.procs[i]? = some ⟨.finish replicas now, rest⟩ →
    ∀ a ∈ s.world.attachments, Dropped t.world a → OwnReason replicas now a

/-- What a pass releases has not been written since the pass listed it. -/
def Unwritten (s : Calls) : Happening → Calls → Prop
  | .act i (.releaseTicket volumeName) _, _ =>
    s.world.writes volumeName = s.world.writesAt i volumeName
  | _, _ => True

/-- Volumes have one attachment each, a ticket has its start time, and no call has begun. -/
structure Start (s : Calls) : Prop where
  procs : s.procs = []
  stage : ∀ i, s.world.stage i = none
  nodup : (s.world.attachments.map Attachment.name).Nodup
  dated : ∀ a ∈ s.world.attachments, a.relocate ≠ none → a.startedAt ≠ none

/-! ## What the programs do -/

def MayRelease : Kind → Option (List Attachment) → String → Prop
  | .finish replicas now, b, volumeName => ∃ list ∈ b, ∃ va ∈ list, va.name = volumeName ∧
      ∃ node ∈ va.relocate, relocationVerdict replicas va.name node va.startedAt now ≠ .waiting
  | _, _, _ => False

def Allowed (kind : Kind) (b : Option (List Attachment)) : Op → Prop
  | .releaseTicket volumeName => MayRelease kind b volumeName
  | .patchTicket _ _ _ => ∀ replicas now, kind ≠ .finish replicas now
  | _ => True

def discipline (kind : Kind) : Discipline Op Ans (Option (List Attachment)) where
  allowed := Allowed kind
  next b o r := some (listed b o r)

section Follows

variable {kind : Kind} {b : Option (List Attachment)} {replicas : List ReplicaFact} {now : ℤ}

theorem verdictOf_eq_some {va : Attachment} {node : String} {verdict : Verdict}
    (h : verdictOf replicas now va = some (node, verdict)) :
    va.relocate = some node ∧ relocationVerdict replicas va.name node va.startedAt now = verdict := by
  unfold verdictOf at h
  split at h
  · cases h
  · split at h
    · cases h
    · rename_i hrelocate
      split at h
      · cases h
      · cases h
        exact ⟨hrelocate, rfl⟩

theorem finishOne_follows {list : List Attachment} {va : Attachment} (hva : va ∈ list) :
    Follows (discipline (.finish replicas now)) (fun b _ => b = some list)
      (finishOne replicas now va).run (some list) := by
  unfold finishOne
  split
  · rfl
  · rename_i node verdict hverdict
    obtain ⟨hnode, hjudged⟩ := verdictOf_eq_some hverdict
    by_cases hwaiting : verdict = .waiting
    · rw [if_pos hwaiting]
      rfl
    · rw [if_neg hwaiting]
      refine follows_run_bind.mpr (follows_run_request.mpr ⟨?_, ?_, ?_⟩)
      · exact ⟨list, rfl, va, hva, rfl, node, hnode, hjudged ▸ hwaiting⟩
      · intro a b hb
        cases hb
        rfl
      · intro e b hb
        cases hb
        rfl

theorem finishAll_follows {list rest : List Attachment} (hrest : rest ⊆ list) :
    Follows (discipline (.finish replicas now)) (fun b _ => b = some list)
      (finishAll replicas now rest).run (some list) := by
  induction rest with
  | nil => rfl
  | cons va rest ih =>
    have hva := hrest List.mem_cons_self
    refine follows_run_bind.mpr (follows_mono ?_ (finishOne_follows hva))
    rintro b r rfl
    cases r with
    | error e => rfl
    | ok released =>
      have ih := ih fun a ha => hrest (List.mem_cons_of_mem va ha)
      refine follows_run_bind.mpr (follows_mono ?_ ih)
      rintro b r rfl
      cases r with
      | error e => rfl
      | ok others => rfl

/-- A start reads and writes tickets in whatever state it is. -/
theorem ask_follows (kind : Kind) (o : Op) (ho : ∀ b, Allowed kind b o) {b : Option (List Attachment)} :
    Follows (discipline kind) (fun _ _ => True) (ask o).run b :=
  follows_run_request.mpr ⟨ho b, fun _ _ _ => trivial, fun _ _ _ => trivial⟩

theorem bind_follows {α β : Type} {x : Task α} {f : α → Task β}
    (hx : ∀ b, Follows (discipline kind) (fun _ _ => True) x.run b)
    (hf : ∀ a b, Follows (discipline kind) (fun _ _ => True) (f a).run b) :
    Follows (discipline kind) (fun _ _ => True) (x >>= f).run b := by
  refine follows_run_bind.mpr (follows_mono ?_ (hx b))
  rintro b r -
  cases r with
  | ok a => exact hf a b
  | error e => trivial

theorem tryCatch_follows {α : Type} {x : Task α} {g : Failure → Task α}
    (hx : ∀ b, Follows (discipline kind) (fun _ _ => True) x.run b)
    (hg : ∀ e b, Follows (discipline kind) (fun _ _ => True) (g e).run b) :
    Follows (discipline kind) (fun _ _ => True) (tryCatch x g).run b := by
  refine follows_run_tryCatch.mpr (follows_mono ?_ (hx b))
  rintro b r -
  cases r with
  | ok a => trivial
  | error e => exact hg e b

theorem readLists_follows (order : ReadOrder) :
    Follows (discipline kind) (fun _ _ => True) (readLists order).run b := by
  have hvols : ∀ b, Follows (discipline kind) (fun _ _ => True) (ask .listVolumes).run b :=
    fun b => ask_follows kind .listVolumes fun _ => trivial
  have hreps : ∀ b, Follows (discipline kind) (fun _ _ => True) (ask .listReplicas).run b :=
    fun b => ask_follows kind .listReplicas fun _ => trivial
  have hvas : ∀ b, Follows (discipline kind) (fun _ _ => True) (ask .listAttachments).run b :=
    fun b => ask_follows kind .listAttachments fun _ => trivial
  cases order with
  | vra => exact bind_follows hvols fun _ _ => bind_follows hreps fun _ _ =>
    bind_follows hvas fun _ _ => trivial
  | var => exact bind_follows hvols fun _ _ => bind_follows hvas fun _ _ =>
    bind_follows hreps fun _ _ => trivial
  | rva => exact bind_follows hreps fun _ _ => bind_follows hvols fun _ _ =>
    bind_follows hvas fun _ _ => trivial
  | rav => exact bind_follows hreps fun _ _ => bind_follows hvas fun _ _ =>
    bind_follows hvols fun _ _ => trivial
  | avr => exact bind_follows hvas fun _ _ => bind_follows hvols fun _ _ =>
    bind_follows hreps fun _ _ => trivial
  | arv => exact bind_follows hvas fun _ _ => bind_follows hreps fun _ _ =>
    bind_follows hvols fun _ _ => trivial

theorem attachAll_follows (hkind : ∀ replicas now, kind ≠ .finish replicas now) (target : String)
    (now : ℤ) (attach : List String) :
    Follows (discipline kind) (fun _ _ => True) (attachAll target now attach).run b := by
  induction attach generalizing b with
  | nil => trivial
  | cons volumeName rest ih =>
    apply bind_follows
    · intro b
      refine tryCatch_follows ?_ fun _ _ => trivial
      exact fun b => bind_follows
        (fun b => ask_follows kind (.patchTicket volumeName target now) fun _ => hkind) fun _ _ =>
        trivial
    · intro outcome b
      apply bind_follows (fun b => ih)
      rintro ⟨started, errors⟩ b
      cases outcome with
      | inl volumeName => trivial
      | inr error => trivial

theorem startDataRelocation_follows (hkind : ∀ replicas now, kind ≠ .finish replicas now)
    (order : ReadOrder) (namespaceName target : String) (storageTier : Option String) (now : ℤ) :
    Follows (discipline kind) (fun _ _ => True)
      (startDataRelocation order namespaceName target storageTier now).run b := by
  apply bind_follows
  · intro b
    refine tryCatch_follows ?_ fun _ _ => trivial
    intro b
    refine bind_follows (fun b => bind_follows (fun b => readLists_follows order) ?_) ?_
    · rintro ⟨vols, reps, vas⟩ b
      trivial
    · rintro ⟨volumes, replicas⟩ b
      trivial
  · intro plan b
    cases plan with
    | error message => trivial
    | ok plan =>
      obtain ⟨attach, skipped⟩ := plan
      apply bind_follows (fun b => attachAll_follows hkind target now attach)
      rintro ⟨started, errors⟩ b
      trivial

theorem program_follows (kind : Kind) :
    Follows (discipline kind) (fun _ _ => True) (program kind) none := by
  cases kind with
  | start order namespaceName target storageTier now =>
    refine bind_follows (fun b => ?_) fun _ _ => trivial
    refine startDataRelocation_follows ?_ order namespaceName target storageTier now
    intro _ _ h
    cases h
  | finish replicas now =>
    refine follows_run_bind.mpr (follows_run_bind.mpr (follows_run_request.mpr ⟨trivial, ?_, ?_⟩))
    · intro list b hb
      cases hb
      refine follows_mono ?_ (finishAll_follows (List.Subset.refl list))
      rintro b r -
      cases r with
      | ok released => trivial
      | error e => trivial
    · exact fun _ _ _ => trivial
  | cluster volumes replicas =>
    exact bind_follows (fun b => ask_follows _ (.change volumes replicas) fun _ => trivial)
      fun _ _ => trivial

end Follows

/-! ## Runs -/

variable {w : World} {i : ℕ} {o : Op} {r : Ans o} {s : Calls}

theorem handle_eq_some {w' : World} :
    handle w i o r = some w' ↔ ∃ m, w.respond i o r = some m ∧
      w' = { m with stage := Function.update w.stage i (listed (w.stage i) o r) } := by
  unfold handle
  rw [Option.map_eq_some_iff]
  simp only [eq_comm]

theorem movesStages : MovesStages discipline World.stage handle := by
  intro kind w i o r w' h
  obtain ⟨m, -, rfl⟩ := handle_eq_some.mp h
  exact ⟨_, rfl, rfl⟩

theorem respond_cases {m : World} (h : w.respond i o r = some m) :
    (m.attachments = w.attachments ∧ m.writes = w.writes ∧ m.writesAt = w.writesAt ∧
      listed (w.stage i) o r = w.stage i) ∨
    (m = { w with writesAt := Function.update w.writesAt i w.writes } ∧
      listed (w.stage i) o r = some w.attachments) ∨
    (∃ volumeName target startedAt, o = .patchTicket volumeName target startedAt ∧
      m = w.written volumeName target startedAt ∧ listed (w.stage i) o r = w.stage i) ∨
    ∃ volumeName, o = .releaseTicket volumeName ∧ m = w.released volumeName ∧
      listed (w.stage i) o r = w.stage i := by
  have hsame : m = w → listed (w.stage i) o r = w.stage i →
      m.attachments = w.attachments ∧ m.writes = w.writes ∧ m.writesAt = w.writesAt ∧
        listed (w.stage i) o r = w.stage i := by
    rintro rfl hlisted
    exact ⟨rfl, rfl, rfl, hlisted⟩
  cases o with
  | listVolumes =>
    cases r with
    | ok list => exact .inl (hsame (Option.some.inj (Option.ite_none_right_eq_some.mp h).2).symm rfl)
    | error e => exact .inl (hsame (Option.some.inj h).symm rfl)
  | listReplicas =>
    cases r with
    | ok list => exact .inl (hsame (Option.some.inj (Option.ite_none_right_eq_some.mp h).2).symm rfl)
    | error e => exact .inl (hsame (Option.some.inj h).symm rfl)
  | listAttachments =>
    cases r with
    | ok list =>
      obtain ⟨rfl, hm⟩ := Option.ite_none_right_eq_some.mp h
      exact .inr (.inl ⟨(Option.some.inj hm).symm, rfl⟩)
    | error e => exact .inl (hsame (Option.some.inj h).symm rfl)
  | patchTicket volumeName target startedAt =>
    cases r with
    | ok _ =>
      have hm := (Option.ite_none_right_eq_some.mp h).2
      exact .inr (.inr (.inl ⟨_, _, _, rfl, (Option.some.inj hm).symm, rfl⟩))
    | error e =>
      have hm : (if e.carriedOut then w.written volumeName target startedAt else w) = m :=
        Option.some.inj h
      by_cases hdone : e.carriedOut = true
      · rw [if_pos hdone] at hm
        exact .inr (.inr (.inl ⟨_, _, _, rfl, hm.symm, rfl⟩))
      · rw [if_neg hdone] at hm
        exact .inl (hsame hm.symm rfl)
  | releaseTicket volumeName =>
    cases r with
    | ok _ =>
      have hm := (Option.ite_none_right_eq_some.mp h).2
      exact .inr (.inr (.inr ⟨_, rfl, (Option.some.inj hm).symm, rfl⟩))
    | error e =>
      have hm : (if e.carriedOut then w.released volumeName else w) = m := Option.some.inj h
      by_cases hdone : e.carriedOut = true
      · rw [if_pos hdone] at hm
        exact .inr (.inr (.inr ⟨_, rfl, hm.symm, rfl⟩))
      · rw [if_neg hdone] at hm
        exact .inl (hsame hm.symm rfl)
  | change volumes replicas =>
    cases r with
    | ok _ =>
      cases h
      exact .inl ⟨rfl, rfl, rfl, rfl⟩
    | error e => exact .inl (hsame (Option.some.inj h).symm rfl)

/-- A listed ticket is still there or gone, as long as no start has written it since. -/
def Current (w : World) (i : ℕ) : Prop :=
  ∀ list ∈ w.stage i, ∀ a ∈ list, ∀ b ∈ w.attachments, b.name = a.name →
    w.writes a.name = w.writesAt i a.name →
      b.relocate = none ∨ b.relocate = a.relocate ∧ b.startedAt = a.startedAt

structure Kept (w : World) : Prop where
  nodup : (w.attachments.map Attachment.name).Nodup
  dated : ∀ a ∈ w.attachments, a.relocate ≠ none → a.startedAt ≠ none
  behind : ∀ i, ∀ _ ∈ w.stage i, ∀ v, w.writesAt i v ≤ w.writes v
  current : ∀ i, Current w i

theorem kept_of_start (h : Start s) : Kept s.world where
  nodup := h.nodup
  dated := h.dated
  behind := by
    intro i list hlist
    rw [h.stage i] at hlist
    cases hlist
  current := by
    intro i list hlist
    rw [h.stage i] at hlist
    cases hlist

theorem names_map (attachments : List Attachment) (volumeName : String) (f : Attachment → Attachment)
    (hf : ∀ a, (f a).name = a.name) :
    (attachments.map fun a => if a.name = volumeName then f a else a).map Attachment.name =
      attachments.map Attachment.name := by
  rw [List.map_map]
  apply List.map_congr_left
  intro a _
  change (if a.name = volumeName then f a else a).name = a.name
  split
  · exact hf a
  · rfl

theorem eq_of_name_eq {attachments : List Attachment} (h : (attachments.map Attachment.name).Nodup)
    {a b : Attachment} (ha : a ∈ attachments) (hb : b ∈ attachments) (hname : a.name = b.name) :
    a = b := List.inj_on_of_nodup_map h ha hb hname

/-- A write counts, and what was listed of the other volumes stays current. -/
theorem kept_written (h : Kept w) (volumeName target : String) (startedAt : ℤ) :
    Kept (w.written volumeName target startedAt) where
  nodup := by
    have hnames := names_map w.attachments volumeName
      (fun a => { a with relocate := some target, startedAt := some startedAt }) fun _ => rfl
    exact hnames.symm ▸ h.nodup
  dated := by
    intro a ha hrelocate
    obtain ⟨a, hmem, rfl⟩ := List.mem_map.mp ha
    split_ifs at hrelocate ⊢
    · exact Option.some_ne_none startedAt
    · exact h.dated a hmem hrelocate
  behind := by
    intro i list hlist v
    have := h.behind i list hlist v
    by_cases hv : v = volumeName
    · subst hv
      change w.writesAt i v ≤ Function.update w.writes v (w.writes v + 1) v
      rw [Function.update_self]
      omega
    · change w.writesAt i v ≤ Function.update w.writes volumeName (w.writes volumeName + 1) v
      rw [Function.update_of_ne hv]
      exact this
  current := by
    intro i list hlist a ha b hb hname hwrites
    obtain ⟨b, hmem, rfl⟩ := List.mem_map.mp hb
    have hcount : Function.update w.writes volumeName (w.writes volumeName + 1) a.name =
        w.writesAt i a.name := hwrites
    have hne : a.name ≠ volumeName := by
      intro heq
      have := h.behind i list hlist a.name
      rw [heq, Function.update_self] at hcount
      rw [heq] at this
      omega
    rw [Function.update_of_ne hne] at hcount
    have hbname : b.name = a.name := by
      split_ifs at hname
      · exact hname
      · exact hname
    rw [if_neg (hbname ▸ hne)]
    exact h.current i list hlist a ha b hmem hbname hcount

theorem kept_released (h : Kept w) (volumeName : String) :
    Kept (w.released volumeName) where
  nodup := by
    have hnames := names_map w.attachments volumeName
      (fun a => { a with relocate := none, startedAt := none }) fun _ => rfl
    exact hnames.symm ▸ h.nodup
  dated := by
    intro a ha hrelocate
    obtain ⟨a, hmem, rfl⟩ := List.mem_map.mp ha
    split_ifs at hrelocate ⊢
    · exact absurd rfl hrelocate
    · exact h.dated a hmem hrelocate
  behind := h.behind
  current := by
    intro i list hlist a ha b hb hname hwrites
    obtain ⟨b, hmem, rfl⟩ := List.mem_map.mp hb
    split_ifs at hname ⊢
    · exact .inl rfl
    · exact h.current i list hlist a ha b hmem hname hwrites

theorem kept_listed (h : Kept w) (i : ℕ) :
    Kept { w with
      writesAt := Function.update w.writesAt i w.writes
      stage := Function.update w.stage i (some w.attachments) } where
  nodup := h.nodup
  dated := h.dated
  behind := by
    intro j list hlist v
    dsimp only at hlist ⊢
    by_cases hj : j = i
    · rw [hj, Function.update_self]
    · rw [Function.update_of_ne hj] at hlist ⊢
      exact h.behind j list hlist v
  current := by
    intro j list hlist a ha b hb hname hwrites
    dsimp only at hlist hb hwrites
    by_cases hj : j = i
    · rw [hj, Function.update_self] at hlist
      cases hlist
      exact .inr ⟨congrArg _ (eq_of_name_eq h.nodup hb ha hname),
        congrArg _ (eq_of_name_eq h.nodup hb ha hname)⟩
    · rw [Function.update_of_ne hj] at hlist hwrites
      exact h.current j list hlist a ha b hb hname hwrites

theorem kept_handle {w' : World} (h : Kept w) (hw : handle w i o r = some w') : Kept w' := by
  obtain ⟨m, hm, rfl⟩ := handle_eq_some.mp hw
  have hback : ∀ {m : World}, m.stage = w.stage → listed (w.stage i) o r = w.stage i → Kept m →
      Kept { m with stage := Function.update w.stage i (listed (w.stage i) o r) } := by
    intro m hstage hlisted hkept
    rw [hlisted, Function.update_eq_self, ← hstage]
    exact hkept
  rcases respond_cases hm with ⟨hattachments, hwrites, hwritesAt, hlisted⟩ | ⟨rfl, hlisted⟩ |
    ⟨volumeName, target, startedAt, -, rfl, hlisted⟩ | ⟨volumeName, -, rfl, hlisted⟩
  · rw [hlisted, Function.update_eq_self]
    obtain ⟨volumes, replicas, attachments, writes, writesAt, stage⟩ := m
    cases hattachments
    cases hwrites
    cases hwritesAt
    exact ⟨h.nodup, h.dated, h.behind, h.current⟩
  · rw [hlisted]
    exact kept_listed h i
  · exact hback rfl hlisted (kept_written h volumeName target startedAt)
  · exact hback rfl hlisted (kept_released h volumeName)

def Good (s : Calls) : Prop :=
  Holds (Fresh World.stage none) (OnCourse discipline World.stage fun _ _ => True) s ∧ Kept s.world

theorem good_of_start (h : Start s) : Good s :=
  ⟨holds_of_start h.procs h.stage, kept_of_start h⟩

theorem good_step {t : Calls} {e : Happening} (h : Good s) (hs : step s e = some t) : Good t := by
  refine ⟨onCourse_step movesStages program_follows h.1 hs, ?_⟩
  rcases allowed_step h.1 hs with hsame | ⟨i, o, r, kind, next, rfl, hi, -, hw⟩
  · rw [hsame]
    exact h.2
  · exact kept_handle h.2 hw

/-- What a pass drops is what it listed, if no start has written it since. -/
theorem drops_step {t : Calls} {e : Happening} (h : Good s) (hs : step s e = some t)
    (hcond : Unwritten s e t) : DropsForOwnReason s e t := by
  rintro i o r replicas now rest rfl hi a ha ⟨hticket, a', ha', hname, hgone⟩
  rcases allowed_step h.1 hs with hsame | ⟨i', o', r', kind, next, he, hi', hallowed, hw⟩
  · rw [hsame] at ha'
    rw [eq_of_name_eq h.2.nodup ha' ha hname] at hgone
    exact absurd hgone hticket
  · cases he
    rw [hi] at hi'
    cases hi'
    obtain ⟨m, hm, hworld⟩ := handle_eq_some.mp hw
    have hattachments : t.world.attachments = m.attachments := by rw [hworld]
    rw [hattachments] at ha'
    have hstays : m.attachments = s.world.attachments → a.relocate = none := by
      intro heq
      rw [heq] at ha'
      rwa [eq_of_name_eq h.2.nodup ha' ha hname] at hgone
    rcases respond_cases hm with ⟨heq, -⟩ | ⟨rfl, -⟩ | ⟨volumeName, target, startedAt, rfl, -⟩ |
      ⟨volumeName, rfl, rfl, -⟩
    · exact absurd (hstays heq) hticket
    · exact absurd (hstays rfl) hticket
    · exact absurd rfl (hallowed replicas now)
    · obtain ⟨b, hb, rfl⟩ := List.mem_map.mp ha'
      have hb' : b = a := by
        apply eq_of_name_eq h.2.nodup hb ha
        split_ifs at hname
        · exact hname
        · exact hname
      subst hb'
      by_cases hvolume : b.name = volumeName
      · obtain ⟨list, hlist, va, hva, rfl, node, hnode, hverdict⟩ := hallowed
        have hsame := h.2.current i list hlist va hva b hb hvolume hcond
        obtain ⟨hrelocate, hstarted⟩ := hsame.resolve_left hticket
        rcases relocationVerdict_ne_waiting.mp hverdict with halone | hexpired
        · refine .inl ⟨node, hrelocate ▸ hnode, ?_⟩
          rw [hvolume]
          exact halone
        · obtain ⟨started, hdate⟩ := Option.ne_none_iff_exists'.mp (h.2.dated b hb hticket)
          refine .inr ⟨started, hdate, hexpired started ?_⟩
          rw [← hstarted]
          exact hdate
      · rw [if_neg hvolume] at hgone
        exact absurd hgone hticket

/-- In a run in which no start writes a ticket between a pass's listing of it and its release, every
ticket that a pass drops is dropped for its own reason. -/
theorem passes_drop_for_own_reason {s : Calls} {es : List Happening} (hstart : Start s)
    (hcond : Along step Unwritten s es) : Along step DropsForOwnReason s es := by
  have hgood := good_of_start hstart
  clear hstart
  induction es generalizing s with
  | nil => trivial
  | cons e es ih =>
    intro t ht
    exact ⟨drops_step hgood ht (hcond t ht).1, ih (hcond t ht).2 (good_step hgood ht)⟩

/-! ### A move to a second node -/

def moved : VolumeRaw where
  name := some "v1"
  numberOfReplicas := some 1
  state := some "attached"
  currentNodeID := some "n1"
  namespaceName := some "tenant"
  lastPVCRefAt := none

def replicaAt (node : String) : ReplicaRaw where
  volumeName := some "v1"
  nodeID := some node
  failedAt := none
  currentState := some "running"

def factAt (node : String) : ReplicaFact where
  volumeName := "v1"
  nodeId := some node
  running := true
  failed := false

/-- The ticket of a move to `n1`, which the copy has reached. -/
def ticketed : Attachment := { name := "v1", relocate := some "n1", startedAt := some 0, others := [] }

def afterFirstMove : Calls where
  world :=
    { volumes := [moved], replicas := [replicaAt "n1"], attachments := [ticketed]
      writes := fun _ => 1, writesAt := fun _ _ => 0, stage := fun _ => none }
  procs := []

theorem start_afterFirstMove : Start afterFirstMove where
  procs := rfl
  stage := fun _ => rfl
  nodup := List.nodup_singleton _
  dated := by
    intro a ha _
    rw [List.mem_singleton.mp ha]
    exact Option.some_ne_none _

def passOnly : List Happening :=
  [.spawn (.finish [factAt "n1"] 20), .act 0 .listAttachments (.ok [ticketed]),
    .act 0 (.releaseTicket "v1") (.ok ())]

/-- A pass that nothing disturbs drops the ticket of the finished move. -/
theorem pass_drops_finished : Along step DropsForOwnReason afterFirstMove passOnly ∧
    ∃ t, exec step afterFirstMove passOnly = some t ∧ Dropped t.world ticketed := by
  have hrun : ∃ s₁ s₂ s₃, step afterFirstMove (.spawn (.finish [factAt "n1"] 20)) = some s₁ ∧
      step s₁ (.act 0 .listAttachments (.ok [ticketed])) = some s₂ ∧
      step s₂ (.act 0 (.releaseTicket "v1") (.ok ())) = some s₃ ∧
      s₂.world.writes "v1" = s₂.world.writesAt 0 "v1" ∧
      Dropped s₃.world ticketed :=
    ⟨_, _, _, rfl, rfl, rfl, rfl, Option.some_ne_none _, _, List.mem_singleton.mpr rfl, rfl, rfl⟩
  obtain ⟨s₁, s₂, s₃, h₁, h₂, h₃, hunwritten, hdropped⟩ := hrun
  have hcond : Along step Unwritten afterFirstMove passOnly :=
    along_cons_of step h₁ trivial (along_cons_of step h₂ trivial
      (along_cons_of step h₃ hunwritten trivial))
  refine ⟨passes_drop_for_own_reason start_afterFirstMove hcond, s₃, ?_, hdropped⟩
  exact (exec_cons_eq_some step).mpr ⟨s₁, h₁, (exec_cons_eq_some step).mpr ⟨s₂, h₂,
    (exec_cons_eq_some step).mpr ⟨s₃, h₃, rfl⟩⟩⟩

/-- The pass lists the ticket to `n1`; then a second move writes one to `n2`. -/
def secondMove : List Happening :=
  [.spawn (.start .vra "tenant" "n2" none 10), .spawn (.finish [factAt "n1"] 20),
    .act 1 .listAttachments (.ok [ticketed]), .act 0 .listVolumes (.ok [moved]),
    .act 0 .listReplicas (.ok [replicaAt "n1"]), .act 0 .listAttachments (.ok [ticketed]),
    .act 0 (.patchTicket "v1" "n2" 10) (.ok ())]

/-- The pass drops the ticket to `n2` on the verdict about the one to `n1`. -/
theorem second_move_dropped : ¬ ∀ (s : Calls) (es : List Happening), Start s →
    Along step DropsForOwnReason s es := by
  intro hall
  have hrun : ∃ m t rest, exec step afterFirstMove secondMove = some m ∧
      step m (.act 1 (.releaseTicket "v1") (.ok ())) = some t ∧
      m.procs[1]? = some ⟨.finish [factAt "n1"] 20, rest⟩ ∧
      ⟨"v1", some "n2", some 10, []⟩ ∈ m.world.attachments ∧
      Dropped t.world ⟨"v1", some "n2", some 10, []⟩ :=
    ⟨_, _, _, rfl, rfl, rfl, List.mem_singleton.mpr rfl, Option.some_ne_none _, _,
      List.mem_singleton.mpr rfl, rfl, rfl⟩
  obtain ⟨m, t, rest, hexec, hstep, hproc, hmem, hdropped⟩ := hrun
  have halong := hall afterFirstMove (secondMove ++ [.act 1 (.releaseTicket "v1") (.ok ())])
    start_afterFirstMove
  have hlast := ((along_append step halong hexec).2 t hstep).1
  rcases hlast 1 _ _ _ _ rest rfl hproc _ hmem hdropped with ⟨node, hnode, hcopy, -⟩ | hexpired
  · cases hnode
    obtain ⟨r, hr, -, -, hnodeId, -⟩ := hcopy
    rw [List.mem_singleton.mp hr] at hnodeId
    revert hnodeId
    decide
  · obtain ⟨started, hstarted, hlt⟩ := hexpired
    cases hstarted
    revert hlt
    decide

end Insula.Relocations
