import Insula.LifecycleInvariant

/-!
# The transitions of one tenant

A tenant goes through transitions one after the other, and the tick of the scheduler finishes the
ones that were cut off and retries hooks that failed. A pick-up looks for a later transition under
the tenant's lock, which not every starter of a transition takes. A retry looks at the tenant's
status, and only for an archive.
-/

namespace Insula.Lifecycle

open Transition

inductive TenantStatus where
  | active | suspended | archived
deriving DecidableEq

structure TransitionRow where
  kind : Kind
  startedAt : Time
  run : Run

structure Tenant where
  status : TenantStatus
  transitions : List TransitionRow

namespace Tenant

variable (s : Tenant)

def superseded (t : TransitionRow) : Bool := s.transitions.any fun n => t.startedAt < n.startedAt

def tickIdle : Bool := s.transitions.all fun t => t.run.tickIdle

def drive (i : ℕ) (f : TransitionRow → Option Run) : Option Tenant :=
  s.transitions[i]?.bind fun t =>
    (f t).map fun run => { s with transitions := s.transitions.set i { t with run := run } }

end Tenant

/-! ## Pick-ups -/

structure Look where
  ownerFailed : Bool
  hardDelete : Bool
  tooOld : Bool
  resumes : ℕ
  ns : Option String
  tenantExists : Bool

inductive NotFinished where
  | superseded | ownerFailed | decommission | tooOld | resumes | nsUnknown | tenantGone
deriving DecidableEq

def transitionMaxResumes : ℕ := 3

def whyNotFinished (kind : Kind) (superseded : Bool) (look : Look) : Option NotFinished :=
  if superseded then some .superseded
  else if look.ownerFailed then some .ownerFailed
  else if kind = .deleted ∧ look.hardDelete = false then some .decommission
  else if look.tooOld then some .tooOld
  else if transitionMaxResumes ≤ look.resumes then some .resumes
  else if look.ns.all (· = "") then some .nsUnknown
  else if look.tenantExists = false ∧ kind ≠ .deleted then some .tenantGone
  else none

def finishTransition (hs : HookList) (s : Tenant) (look : Look) (t : TransitionRow) : Option Run :=
  match whyNotFinished t.kind (s.superseded t) look with
  | some _ => closeInterruptedTransition t.run
  | none => resumeTransition hs (look.hardDelete && look.tenantExists) t.run

/-! ## Steps -/

inductive TenantEvent where
  /-- A transition begins; some starters hold the tenant's lock. -/
  | starts (kind : Kind) (startedAt : Time) (holdOpen underLock : Bool)
  /-- A hook stamps the tenant's status. -/
  | stamps (status : TenantStatus)
  | pickUp (i : ℕ) (look : Look)
  | requeues (i : ℕ) (now : Time)
  | takes (i : ℕ) (name : String) (now : Time) (breakerOpen : Bool)
  /-- Any other step of a transition's drivers. -/
  | drives (i : ℕ) (e : Event)

def Event.opens : Event → Bool
  | .begins _ | .resume _ | .close | .requeue _ | .take _ _ _ _ => true
  | _ => false

def Tenant.step (registry : Kind → HookList) (s : Tenant) : TenantEvent → Option Tenant
  | .starts kind startedAt holdOpen underLock =>
    if underLock && s.transitions.any fun t => t.run.resuming then none
    else (beginTransition (registry kind) holdOpen .fresh).map fun run =>
      { s with transitions := s.transitions ++ [⟨kind, startedAt, run⟩] }
  | .stamps status => some { s with status := status }
  | .pickUp i look =>
    if s.tickIdle then s.drive i fun t => finishTransition (registry t.kind) s look t else none
  | .requeues i now =>
    if s.tickIdle then s.drive i fun t => t.run.step (registry t.kind) t.kind (.requeue now) else none
  | .takes i name now breakerOpen =>
    if s.tickIdle then
      s.drive i fun t => t.run.step (registry t.kind) t.kind
        (.take name now breakerOpen (s.status = .archived))
    else none
  | .drives i e =>
    if e.opens then none else s.drive i fun t => t.run.step (registry t.kind) t.kind e

/-! ## What has a hook in hand -/

def Run.taken (w : Run) : Bool :=
  match w.retry with
  | some (.taken _ _ _) => true
  | _ => false

section Steps

variable {hs : HookList} {kind : Kind} {w w' : Run} {e : Event} {now : Time}

/-- What a step of one transition does to who has a hook in hand: only a take brings a retry to a
hook, only a resume brings a pick-up, and a call is made by whoever had the hook in hand. -/
structure Follows (w : Run) (e : Event) (w' : Run) : Prop where
  taken : w'.taken = true → w.taken = true ∨
    ∃ name now breakerOpen stillArchived, e = .take name now breakerOpen stillArchived
  resuming : w'.resuming = true → w.resuming = true ∨ ∃ holdOpen, e = .resume holdOpen
  invoked : ∀ caller n, w'.calls = .invoked caller n :: w.calls →
    caller = .dispatcher ∨ caller = .retryTick ∧ w.taken = true ∨
      caller = .pickUp ∧ w.resuming = true

/-- A step that calls no hook and brings nobody to one. -/
theorem Follows.quiet (htaken : w'.taken = true → w.taken = true)
    (hresuming : w'.resuming = true → w.resuming = true)
    (hcalls : w'.calls = w.calls ∨ ∃ n, w'.calls = .recorded n :: w.calls) : Follows w e w' where
  taken h := .inl (htaken h)
  resuming h := .inl (hresuming h)
  invoked caller n h := by
    obtain hsame | ⟨k, hk⟩ := hcalls
    · exact absurd (hsame.symm.trans h).symm (List.cons_ne_self _ _)
    · rw [hk] at h
      cases h

theorem dispatchNext_follows (hstep : dispatchNext now w = some w') : Follows w (.next now) w' := by
  unfold dispatchNext at hstep
  split at hstep
  · rename_i l hd
    have hresuming : w.resuming = l.resuming := by simp [Run.resuming, hd]
    split at hstep
    · split at hstep <;> cases hstep
      · exact .quiet id (fun h => by cases h) (.inl rfl)
      · exact .quiet id (fun h => by cases h) (.inl rfl)
    · dsimp only at hstep
      split at hstep
      · cases hstep
        exact .quiet id (fun h => hresuming.trans h) (.inl rfl)
      · split at hstep
        · cases hstep
          exact .quiet id (fun h => hresuming.trans h) (.inl rfl)
        · split at hstep
          · cases hstep
            exact .quiet id (fun h => hresuming.trans h) (.inl rfl)
          · split at hstep <;> cases hstep
            · exact .quiet id (fun h => hresuming.trans h) (.inl rfl)
            · refine ⟨fun h => .inl h, fun h => .inl (hresuming.trans h), fun caller n h => ?_⟩
              obtain ⟨hcaller, -⟩ := Call.invoked.inj (List.head_eq_of_cons_eq h)
              split at hcaller
              · rename_i htrue
                exact .inr (.inr ⟨hcaller.symm, hresuming.trans htrue⟩)
              · exact .inl hcaller.symm
  · cases hstep

theorem dispatchReturns_follows {result : HookResult}
    (hstep : dispatchReturns result now w = some w') : Follows w (.returns result now) w' := by
  unfold dispatchReturns at hstep
  split at hstep
  · rename_i l hook attempt hd
    have hresuming : w.resuming = l.resuming := by simp [Run.resuming, hd]
    dsimp only at hstep
    split at hstep
    · rename_i hended
      rw [Run.record, if_pos hended] at hstep
      cases hstep
      exact .quiet id (fun h => hresuming.trans h) (.inr ⟨_, rfl⟩)
    · cases hstep
      exact .quiet id (fun h => hresuming.trans h) (.inl rfl)
  · cases hstep

theorem retryReturns_follows {result : HookResult} (hstep : retryReturns result now w = some w') :
    Follows w (.retryReturns result now) w' := by
  unfold retryReturns at hstep
  split at hstep
  · dsimp only at hstep
    split at hstep
    · rename_i hended
      rw [Run.record, if_pos hended] at hstep
      cases hstep
      exact .quiet (fun h => by cases h) id (.inr ⟨_, rfl⟩)
    · cases hstep
      exact .quiet (fun h => by cases h) id (.inl rfl)
  · cases hstep

theorem callRetry_follows (hstep : callRetry now w = some w') : Follows w (.callRetry now) w' := by
  unfold callRetry at hstep
  split at hstep
  · rename_i hook attempts maxAttempts hr
    cases hstep
    refine ⟨fun h => (by cases h), fun h => .inl h, fun caller n h => .inr (.inl ?_)⟩
    obtain ⟨hcaller, -⟩ := Call.invoked.inj (List.head_eq_of_cons_eq h)
    exact ⟨hcaller.symm, by simp [Run.taken, hr]⟩
  · cases hstep

theorem reevaluate_follows (hstep : reevaluate hs w = some w') : Follows w .reevaluate w' := by
  unfold reevaluate at hstep
  (repeat' split at hstep) <;> cases hstep <;> exact .quiet (fun h => by cases h) id (.inl rfl)

theorem takeCandidate_follows {hook : Hook} {name : String} {breakerOpen stillArchived : Bool}
    (hstep : takeCandidate kind hook now breakerOpen stillArchived w = some w') :
    Follows w (.take name now breakerOpen stillArchived) w' := by
  have hcalls : w'.calls = w.calls ∧ w'.resuming = w.resuming := by
    unfold takeCandidate at hstep
    (repeat' split at hstep) <;> cases hstep <;> exact ⟨rfl, rfl⟩
  refine ⟨fun _ => .inr ⟨name, now, breakerOpen, stillArchived, rfl⟩, fun h => .inl (hcalls.2 ▸ h),
    fun caller n h => ?_⟩
  exact absurd (hcalls.1.symm.trans h).symm (List.cons_ne_self _ _)

theorem step_follows (hstep : w.step hs kind e = some w') : Follows w e w' := by
  cases e with
  | begins holdOpen =>
    simp only [Run.step, beginTransition] at hstep
    split at hstep <;> cases hstep
    exact .quiet id (fun h => by cases h) (.inl rfl)
  | insert =>
    simp only [Run.step, insertPending] at hstep
    split at hstep <;> cases hstep
    · exact .quiet id (fun h => by cases h) (.inl rfl)
    · exact .quiet id (fun h => by cases h) (.inl rfl)
  | next now => exact dispatchNext_follows hstep
  | returns result now => exact dispatchReturns_follows hstep
  | ends =>
    simp only [Run.step, endTransition] at hstep
    split at hstep <;> cases hstep
    exact .quiet id (fun h => by cases h) (.inl rfl)
  | dies =>
    simp only [Run.step, dispatcherDies] at hstep
    split at hstep <;> cases hstep
    exact .quiet id (fun h => by cases h) (.inl rfl)
  | resume holdOpen =>
    simp only [Run.step, resumeTransition] at hstep
    split at hstep <;> cases hstep
    refine ⟨fun h => .inl h, fun _ => .inr ⟨holdOpen, rfl⟩, fun caller n h => ?_⟩
    exact absurd h.symm (List.cons_ne_self _ _)
  | close =>
    simp only [Run.step, closeInterruptedTransition] at hstep
    split at hstep <;> cases hstep
    exact .quiet id id (.inl rfl)
  | requeue now =>
    simp only [Run.step, requeueInterruptedRetries] at hstep
    split at hstep <;> cases hstep
    exact .quiet id id (.inl rfl)
  | take name now breakerOpen stillArchived =>
    obtain ⟨hook, -, htake⟩ := Option.bind_eq_some_iff.1 hstep
    exact takeCandidate_follows htake
  | callRetry now => exact callRetry_follows hstep
  | retryReturns result now => exact retryReturns_follows hstep
  | reevaluate => exact reevaluate_follows hstep
  | tickDies =>
    simp only [Run.step, tickDies] at hstep
    split at hstep <;> cases hstep
    exact .quiet (fun h => by cases h) id (.inl rfl)
  | requestRetry name now =>
    simp only [Run.step, requestRetry] at hstep
    (repeat' split at hstep) <;> cases hstep
    exact .quiet id id (.inl rfl)

end Steps

/-! ## Superseded transitions -/

/-- A hook that a retry or a pick-up calls is one of the tenant's latest transition. -/
def CallsCurrent (s s' : Tenant) : Prop :=
  ∀ (i : ℕ) t t', s.transitions[i]? = some t → s'.transitions[i]? = some t' →
    ∀ caller n, caller ≠ .dispatcher → t'.run.calls = .invoked caller n :: t.run.calls →
      s.superseded t = false

def TenantEvent.Prudent (s : Tenant) : TenantEvent → Prop
  | .takes i _ _ breakerOpen =>
    ∀ t ∈ s.transitions[i]?, breakerOpen = true ∨ (t.kind = .archived ∧ s.status ≠ .archived) ∨
      s.superseded t = false
  | .starts _ startedAt _ _ =>
    ∀ t ∈ s.transitions, t.startedAt < startedAt → t.run.taken = false ∧ t.run.resuming = false
  | _ => True

instance decidablePrudent (s : Tenant) : (e : TenantEvent) → Decidable (e.Prudent s)
  | .takes i _ _ _ => inferInstanceAs (Decidable (∀ t ∈ s.transitions[i]?, _))
  | .starts _ _ _ _ => inferInstanceAs (Decidable (∀ t ∈ s.transitions, _))
  | .stamps _ | .pickUp _ _ | .requeues _ _ | .drives _ _ => isTrue trivial

/-- Whoever has a hook in hand has one of the latest transition. -/
def Current (s : Tenant) : Prop :=
  ∀ t ∈ s.transitions, t.run.taken = true ∨ t.run.resuming = true → s.superseded t = false

section Tenant

variable {registry : Kind → HookList} {s s' : Tenant} {i : ℕ} {t : TransitionRow} {run : Run}
  {hs : HookList} {look : Look}

theorem drive_eq_some {f : TransitionRow → Option Run} (h : s.drive i f = some s') :
    ∃ t run, s.transitions[i]? = some t ∧ f t = some run ∧
      s' = { s with transitions := s.transitions.set i { t with run := run } } := by
  obtain ⟨t, ht, hmap⟩ := Option.bind_eq_some_iff.1 h
  obtain ⟨run, hrun, rfl⟩ := Option.map_eq_some_iff.1 hmap
  exact ⟨t, run, ht, hrun, rfl⟩

/-- A step of one transition changes nobody's place in the history. -/
theorem superseded_drive {u : TransitionRow} (ht : s.transitions[i]? = some t) :
    Tenant.superseded { s with transitions := s.transitions.set i { t with run := run } } u =
      s.superseded u := by
  have hmap : (s.transitions.set i { t with run := run }).map TransitionRow.startedAt =
      s.transitions.map TransitionRow.startedAt := by
    obtain ⟨hlt, rfl⟩ := List.getElem?_eq_some_iff.1 ht
    apply List.ext_getElem (by simp)
    intro j hj hj'
    by_cases hij : i = j
    · subst hij
      simp
    · simp [List.getElem_set_ne hij]
  have hany : ∀ l : List TransitionRow, (l.any fun n => u.startedAt < n.startedAt) =
      (l.map TransitionRow.startedAt).any fun n => u.startedAt < n := by
    intro l
    rw [List.any_map]
    rfl
  unfold Tenant.superseded
  rw [hany, hany, hmap]

/-- A step of one transition keeps the invariant, and calls hooks of a current transition only, when
it brings nobody to a superseded one. -/
theorem drive_current {e : Event} (h : Current s) (ht : s.transitions[i]? = some t)
    (hf : Follows t.run e run)
    (htake : run.taken = true → t.run.taken = true ∨ s.superseded t = false)
    (hresume : run.resuming = true → t.run.resuming = true ∨ s.superseded t = false) :
    Current { s with transitions := s.transitions.set i { t with run := run } } ∧
      CallsCurrent s { s with transitions := s.transitions.set i { t with run := run } } := by
  have hmem := List.mem_of_getElem? ht
  constructor
  · intro u hu hhand
    rw [superseded_drive ht]
    obtain hu | rfl := List.mem_or_eq_of_mem_set hu
    · exact h u hu hhand
    · change s.superseded t = false
      obtain htaken | hresuming := hhand
      · exact (htake htaken).elim (fun hold => h t hmem (.inl hold)) id
      · exact (hresume hresuming).elim (fun hold => h t hmem (.inr hold)) id
  · intro j u u' hu hu' caller n hcaller hcalls
    by_cases hij : i = j
    · subst hij
      rw [ht] at hu
      obtain rfl := Option.some.inj hu
      rw [List.getElem?_set_self (List.getElem?_eq_some_iff.1 ht).1] at hu'
      obtain rfl := Option.some.inj hu'
      obtain hd | ⟨-, htaken⟩ | ⟨-, hresuming⟩ := hf.invoked caller n hcalls
      · exact absurd hd hcaller
      · exact h t hmem (.inl htaken)
      · exact h t hmem (.inr hresuming)
    · rw [List.getElem?_set_ne hij, hu] at hu'
      obtain rfl := Option.some.inj hu'
      exact absurd hcalls.symm (List.cons_ne_self _ _)

theorem finishTransition_resuming (hstep : finishTransition hs s look t = some run)
    (h : run.resuming = true) : t.run.resuming = true ∨ s.superseded t = false := by
  unfold finishTransition at hstep
  split at hstep
  · unfold closeInterruptedTransition at hstep
    split at hstep <;> cases hstep
    exact .inl h
  · rename_i hwhy
    right
    by_contra hsup
    rw [eq_true_of_ne_false hsup] at hwhy
    cases hwhy

theorem finishTransition_follows (hstep : finishTransition hs s look t = some run) :
    ∃ e, Follows t.run e run := by
  unfold finishTransition at hstep
  split at hstep
  · have hclose : t.run.step hs t.kind .close = some run := hstep
    exact ⟨.close, step_follows hclose⟩
  · have hresume : t.run.step hs t.kind (.resume (look.hardDelete && look.tenantExists)) =
        some run := hstep
    exact ⟨_, step_follows hresume⟩

theorem finishTransition_taken (hstep : finishTransition hs s look t = some run)
    (h : run.taken = true) : t.run.taken = true := by
  unfold finishTransition at hstep
  split at hstep
  · unfold closeInterruptedTransition at hstep
    split at hstep <;> cases hstep
    exact h
  · unfold resumeTransition at hstep
    split at hstep <;> cases hstep
    exact h

theorem takes_current {name : String} {now : Time} {breakerOpen : Bool}
    (hprudent : breakerOpen = true ∨
      (t.kind = .archived ∧ s.status ≠ .archived) ∨ s.superseded t = false)
    (hstep : t.run.step hs t.kind (.take name now breakerOpen (s.status = .archived)) = some run)
    (h : run.taken = true) : t.run.taken = true ∨ s.superseded t = false := by
  obtain ⟨hook, -, htake⟩ := Option.bind_eq_some_iff.1 hstep
  unfold takeCandidate at htake
  split at htake
  · split at htake
    · rename_i hgo
      obtain hopen | ⟨hkind, hstatus⟩ | hcurrent := hprudent
      · rw [hgo.2.2] at hopen
        cases hopen
      · rw [if_pos ⟨hkind, by simp [hstatus]⟩] at htake
        cases htake
        exact .inl h
      · exact .inr hcurrent
    · cases htake
  · cases htake

theorem starts_current {kind : Kind} {startedAt : Time} (h : Current s)
    (hprudent : ∀ t ∈ s.transitions, t.startedAt < startedAt →
      t.run.taken = false ∧ t.run.resuming = false)
    (hnew : run.taken = false ∧ run.resuming = false) :
    Current { s with transitions := s.transitions ++ [⟨kind, startedAt, run⟩] } := by
  intro u hu hhand
  obtain hu | hu := List.mem_append.1 hu
  · have hcurrent := h u hu hhand
    have hlate : ¬ u.startedAt < startedAt := by
      intro hlt
      have hfree := hprudent u hu hlt
      obtain htaken | hresuming := hhand
      · rw [hfree.1] at htaken
        cases htaken
      · rw [hfree.2] at hresuming
        cases hresuming
    simp only [Tenant.superseded] at hcurrent ⊢
    rw [List.any_append, hcurrent]
    simpa using hlate
  · rw [List.mem_singleton.1 hu] at hhand
    rw [hnew.1, hnew.2] at hhand
    simp at hhand

/-- A prudent step keeps the invariant and calls hooks of a current transition only. -/
theorem step_current {e : TenantEvent} (h : Current s) (hstep : s.step registry e = some s')
    (hprudent : e.Prudent s) : Current s' ∧ CallsCurrent s s' := by
  cases e with
  | starts kind startedAt holdOpen underLock =>
    simp only [Tenant.step] at hstep
    split at hstep
    · cases hstep
    · obtain ⟨run, hrun, rfl⟩ := Option.map_eq_some_iff.1 hstep
      have hnew : run.taken = false ∧ run.resuming = false := by
        cases hrun
        exact ⟨rfl, rfl⟩
      refine ⟨starts_current h hprudent hnew, ?_⟩
      intro i t t' ht ht' caller n _ hcalls
      have hlt := (List.getElem?_eq_some_iff.1 ht).1
      rw [List.getElem?_append_left hlt, ht] at ht'
      obtain rfl := Option.some.inj ht'
      exact absurd hcalls.symm (List.cons_ne_self _ _)
  | stamps status =>
    cases hstep
    refine ⟨h, ?_⟩
    intro i t t' ht ht' caller n _ hcalls
    have ht' : s.transitions[i]? = some t' := ht'
    rw [ht] at ht'
    obtain rfl := Option.some.inj ht'
    exact absurd hcalls.symm (List.cons_ne_self _ _)
  | pickUp i look =>
    simp only [Tenant.step] at hstep
    split at hstep
    · obtain ⟨t, run, ht, hfinish, rfl⟩ := drive_eq_some hstep
      obtain ⟨e, hf⟩ := finishTransition_follows hfinish
      exact drive_current h ht hf (fun htaken => .inl (finishTransition_taken hfinish htaken))
        fun hresuming => finishTransition_resuming hfinish hresuming
    · cases hstep
  | requeues i now =>
    simp only [Tenant.step] at hstep
    split at hstep
    · obtain ⟨t, run, ht, hrun, rfl⟩ := drive_eq_some hstep
      have hf := step_follows hrun
      exact drive_current h ht hf
        (fun htaken => .inl ((hf.taken htaken).elim id fun ⟨_, _, _, _, heq⟩ => nomatch heq))
        fun hresuming => .inl ((hf.resuming hresuming).elim id fun ⟨_, heq⟩ => nomatch heq)
    · cases hstep
  | takes i name now breakerOpen =>
    simp only [Tenant.step] at hstep
    split at hstep
    · obtain ⟨t, run, ht, hrun, rfl⟩ := drive_eq_some hstep
      have hf := step_follows hrun
      exact drive_current h ht hf (takes_current (hprudent t ht) hrun)
        fun hresuming => .inl ((hf.resuming hresuming).elim id fun ⟨_, heq⟩ => nomatch heq)
    · cases hstep
  | drives i e =>
    simp only [Tenant.step] at hstep
    split at hstep
    · cases hstep
    · rename_i hopens
      obtain ⟨t, run, ht, hrun, rfl⟩ := drive_eq_some hstep
      have hf := step_follows hrun
      refine drive_current h ht hf (fun htaken => .inl ((hf.taken htaken).elim id ?_))
        fun hresuming => .inl ((hf.resuming hresuming).elim id ?_)
      · rintro ⟨_, _, _, _, rfl⟩
        exact absurd rfl hopens
      · rintro ⟨_, rfl⟩
        exact absurd rfl hopens

end Tenant

/-- In a run whose ticks come to rows of the latest transition only, and in which no transition
begins between a take or a pick-up of an earlier one and its calls, retries and pick-ups call hooks
of the latest transition only. -/
theorem retries_and_pickUps_current (registry : Kind → HookList) (status : TenantStatus)
    (events : List TenantEvent)
    (hprudent : Along (Tenant.step registry) (fun s e _ => e.Prudent s) ⟨status, []⟩ events) :
    Along (Tenant.step registry) (fun s _ s' => CallsCurrent s s') ⟨status, []⟩ events := by
  have hstart : Current ⟨status, []⟩ := fun t ht => by cases ht
  exact along_of_invariant_along (Tenant.step registry)
    (fun _ _ _ h hstep hP => (step_current h hstep hP).1)
    (fun _ _ _ h hstep hP => (step_current h hstep hP).2) hstart hprudent

/-! ## A suspension that is over -/

def ingressOnly (_ : Kind) : HookList where
  hooks := [⟨"ingress-suspend", .continues, none, none⟩]
  nodup := by decide

def oneHook (i : ℕ) (kind : Kind) (now : Time) (result : HookResult) : List TenantEvent :=
  [.starts kind now false true, .drives i .insert, .drives i .insert, .drives i (.next now),
    .drives i (.returns result now), .drives i (.next now)]

def suspendedTwice : List TenantEvent :=
  oneHook 0 .suspended 1 .ok ++ oneHook 1 .suspended 2 .retry ++ [.takes 1 "ingress-suspend" 9000 false]

def afterTake : Tenant := (exec (Tenant.step ingressOnly) ⟨.active, []⟩ suspendedTwice).getD
    ⟨.active, []⟩

theorem retries_and_pickUps_current_retry :
    afterTake.transitions[1]?.map afterTake.superseded = some false := by
  have halong := retries_and_pickUps_current ingressOnly .active
    (suspendedTwice ++ [.drives 1 (.callRetry 9000)]) (by decide)
  have hlast := (along_append (Tenant.step ingressOnly) halong
    (show exec (Tenant.step ingressOnly) _ suspendedTwice = some afterTake from rfl)).2 _ rfl
  exact congrArg some (hlast.1 1 _ _ rfl rfl .retryTick "ingress-suspend" (by decide) rfl)

def suspendedThenActive : List TenantEvent :=
  oneHook 0 .suspended 1 .retry ++ oneHook 1 .active 2 .ok ++
    [.stamps .active, .takes 0 "ingress-suspend" 9000 false]

def resumedTenant : Tenant :=
  (exec (Tenant.step ingressOnly) ⟨.active, []⟩ suspendedThenActive).getD ⟨.active, []⟩

theorem suspension_retried_after_resume :
    ¬ ∀ (registry : Kind → HookList) (status : TenantStatus) (events : List TenantEvent),
      Along (Tenant.step registry) (fun s _ s' => CallsCurrent s s') ⟨status, []⟩ events := by
  intro h
  have hlast := (along_append (Tenant.step ingressOnly)
    (h ingressOnly .active (suspendedThenActive ++ [.drives 0 (.callRetry 9000)]))
    (show exec (Tenant.step ingressOnly) _ suspendedThenActive = some resumedTenant from rfl)).2 _ rfl
  have hcurrent := hlast.1 0 _ _ rfl rfl .retryTick "ingress-suspend" (by decide) rfl
  revert hcurrent
  decide

end Insula.Lifecycle
