import Insula.LifecycleHooks

/-!
# What the drivers of a transition know of its rows

The dispatcher knows that the hooks behind it ended well, unless it counted a failure, and that the
hooks before it are pending. The retry scheduler knows the state of the row that it has in hand. The
rows that ended well stay as they are. This module follows the dispatcher.
-/

namespace Insula.Lifecycle

variable {hs : HookList} {kind : Kind} {w w' : Run} {n m : String} {s : RunState}

/-! ## Rows -/

/-- The hook has a recorded run that ended well. -/
def Run.EndedAt (w : Run) (n : String) : Prop := ∃ s, w.rowState n = some s ∧ s.Ended

def AllEnded (hs : HookList) (w : Run) : Prop := ∀ h ∈ hs.hooks, w.EndedAt h.name

/-- The row of a name goes to a state, and every other row keeps its own. -/
def Sets (w w' : Run) (n : String) (s : RunState) : Prop :=
  ∀ m, w'.rowState m = if m = n then some s else w.rowState m

theorem not_ended (h : w.rowState n = some s) (hs : ¬ s.Ended) : ¬ w.EndedAt n := by
  intro hended
  obtain ⟨t, ht, hended⟩ := hended
  rw [h] at ht
  exact hs (Option.some.inj ht ▸ hended)

theorem sets_modifyRow {t : RunState} {f : HookRun → HookRun} (h : w.rowState n = some t)
    (hf : ∀ r, (f r).state = s) : Sets w (w.modifyRow n f) n s := by
  intro m
  obtain ⟨r, hr, -⟩ := Option.map_eq_some_iff.1 h
  by_cases hm : m = n
  · simp [Run.rowState, Run.modifyRow, hm, hr, hf]
  · simp [Run.rowState, Run.modifyRow, hm]

theorem Sets.self (h : Sets w w' n s) : w'.rowState n = some s := by
  rw [h, if_pos rfl]

theorem Sets.other (h : Sets w w' n s) (hm : m ≠ n) : w'.rowState m = w.rowState m := by
  rw [h, if_neg hm]

theorem Sets.ended (h : Sets w w' n s) (hopen : ¬ w.EndedAt n) (hm : w.EndedAt m) :
    w'.EndedAt m := by
  have hne : m ≠ n := fun heq => hopen (heq ▸ hm)
  obtain ⟨t, ht, hended⟩ := hm
  exact ⟨t, by rw [h.other hne, ht], hended⟩

theorem Sets.of_state {t : RunState} (h : Sets w w' n s) (hn : w.rowState n ≠ some t)
    (hm : w.rowState m = some t) : w'.rowState m = some t := by
  have hne : m ≠ n := by
    rintro rfl
    exact hn hm
  rw [h.other hne, hm]

theorem Sets.present (h : Sets w w' n s) (hm : w.rowState m ≠ none) : w'.rowState m ≠ none := by
  rw [h]
  split
  · exact Option.some_ne_none s
  · exact hm

/-! ## The invariant -/

def NeverAgain : List Call → Prop
  | [] => True
  | .recorded _ :: before => NeverAgain before
  | .invoked _ n :: before => .recorded n ∉ before ∧ NeverAgain before

/-- What the loop has gone through ended well, unless it counted a failure. -/
structure LoopInv (w : Run) (l : Loop) (past : List Hook) : Prop where
  aborted : l.aborted = true → 0 < l.hooksFailed
  past : l.hooksFailed = 0 → ∀ h ∈ past, w.EndedAt h.name
  rest : l.resuming = false → ∀ h ∈ l.rest, w.rowState h.name = some .pending
  alone : l.resuming = true → w.retry = none

def DispatcherInv (hs : HookList) (w : Run) : Dispatcher → Prop
  | .inserting _ rest =>
    w.state = some .running ∧ w.retry = none ∧ ∃ past, hs.hooks = past ++ rest ∧
      (∀ h ∈ past, w.rowState h.name = some .pending) ∧ ∀ h ∈ rest, w.rowState h.name = none
  | .looping l => w.state = some .running ∧ ∃ past, hs.hooks = past ++ l.rest ∧ LoopInv w l past
  | .calling l hook _ =>
    w.state = some .running ∧ w.rowState hook.name = some .running ∧
      (∀ h attempt maxAttempts, w.retry = some (.calling h attempt maxAttempts) →
        h.name ≠ hook.name) ∧
      ∃ past, hs.hooks = past ++ hook :: l.rest ∧ LoopInv w l past
  | .held endsAs => w.state ≠ none ∧ (endsAs = .completed → AllEnded hs w)

def Calm (hs : HookList) (w : Run) : Prop :=
  w.dispatching = false ∧ ∀ h ∈ hs.hooks, w.rowState h.name ≠ some .running

def RetryInv (hs : HookList) (w : Run) : Retry → Prop
  | .taken hook _ _ => w.rowState hook.name = some .failed
  | .calling hook _ _ => w.rowState hook.name = some .running
  | .recorded => True
  | .noneFailed calm =>
    calm = true → Calm hs w ∧ ∀ h ∈ hs.hooks, w.rowState h.name ≠ some .failed
  | .nonePending calm =>
    calm = true → Calm hs w ∧ (∀ h ∈ hs.hooks, w.rowState h.name ≠ some .failed) ∧
      ∀ h ∈ hs.hooks, w.rowState h.name ≠ some .pending

def Dispatcher.isInserting : Dispatcher → Bool
  | .inserting _ _ => true
  | _ => false

structure Inv (hs : HookList) (w : Run) : Prop where
  unstarted : w.state = none → w.dispatcher = none ∧ w.retry = none ∧ ∀ n, w.rowState n = none
  present : w.state ≠ none → w.dispatcher.any Dispatcher.isInserting = false →
    ∀ h ∈ hs.hooks, w.rowState h.name ≠ none
  dispatcher : ∀ d, w.dispatcher = some d → DispatcherInv hs w d
  retry : ∀ r, w.retry = some r → RetryInv hs w r
  completed : w.state = some .completed → AllEnded hs w
  recorded : ∀ n, .recorded n ∈ w.calls → w.EndedAt n
  again : NeverAgain w.calls

/-- A retry is about to complete the transition, and began to look for what is left when a
dispatcher was at the hooks or one of them was running. -/
def Retry.rash : Retry → Bool
  | .nonePending calm => !calm
  | _ => false

/-- The condition on a step: the dispatcher does not die while it inserts the rows, a retry that
completes the transition began to look for what is left when no hook was running, and a resumed run
does not overlap a retry. -/
def Event.Careful (w : Run) : Event → Prop
  | .dies => w.dispatcher.any Dispatcher.isInserting = false
  | .reevaluate => w.retry.any Retry.rash = false
  | .resume _ => w.retry.isSome = false
  | .take _ _ _ _ => w.resuming = false
  | _ => True

instance decidableCareful (w : Run) : (e : Event) → Decidable (e.Careful w)
  | .dies | .reevaluate | .resume _ | .take _ _ _ _ => inferInstanceAs (Decidable (_ = false))
  | .begins _ | .insert | .next _ | .returns _ _ | .ends | .close | .requeue _ | .callRetry _
  | .retryReturns _ _ | .tickDies | .requestRetry _ _ => isTrue trivial

section Parts

variable {l : Loop} {past : List Hook}

theorem LoopInv.frame (h : LoopInv w l past) (hended : ∀ m, w.EndedAt m → w'.EndedAt m)
    (hpending : ∀ m, w.rowState m = some .pending → w'.rowState m = some .pending)
    (hretry : l.resuming = true → w'.retry = none) : LoopInv w' l past where
  aborted := h.aborted
  past hzero k hk := hended k.name (h.past hzero k hk)
  rest hnew k hk := hpending k.name (h.rest hnew k hk)
  alone := hretry

theorem LoopInv.withDispatcher (h : LoopInv w l past) (d : Option Dispatcher) :
    LoopInv { w with dispatcher := d } l past := h.frame (fun _ hm => hm) (fun _ hm => hm) h.alone

theorem AllEnded.frame (h : AllEnded hs w) (hended : ∀ m, w.EndedAt m → w'.EndedAt m) :
    AllEnded hs w' := fun k hk => hended k.name (h k hk)

theorem LoopInv.finalState (h : LoopInv w l past) (hdone : l.finalState = .completed) :
    ∀ k ∈ past, w.EndedAt k.name := by
  unfold Loop.finalState at hdone
  split_ifs at hdone
  exact h.past (by omega)

theorem LoopInv.failedAt (h : LoopInv w l past) (hook : Hook) :
    LoopInv w (l.failedAt hook) (past ++ [hook]) where
  aborted _ := Nat.succ_pos _
  past hzero := absurd hzero (Nat.succ_ne_zero _)
  rest := h.rest
  alone := h.alone

theorem LoopInv.ended (h : LoopInv w l past) {hook : Hook} (hook_ended : w.EndedAt hook.name) :
    LoopInv w { l with hooksOk := l.hooksOk + 1 } (past ++ [hook]) where
  aborted := h.aborted
  past hzero k hk := by
    obtain hk | hk := List.mem_append.1 hk
    · exact h.past hzero k hk
    · rw [List.mem_singleton.1 hk]
      exact hook_ended
  rest := h.rest
  alone := h.alone

def Retry.hook : Retry → Option Hook
  | .taken hook _ _ | .calling hook _ _ => some hook
  | _ => none

theorem RetryInv.frame {r : Retry} (h : RetryInv hs w r) (hnow : w.dispatching = true)
    (hrow : ∀ k, r.hook = some k → w'.rowState k.name = w.rowState k.name) : RetryInv hs w' r := by
  cases r with
  | taken hook attempts maxAttempts => exact (hrow hook rfl).trans h
  | calling hook attempt maxAttempts => exact (hrow hook rfl).trans h
  | recorded => trivial
  | noneFailed calm => exact fun hcalm => absurd (h hcalm).1.1 (by simp [hnow])
  | nonePending calm => exact fun hcalm => absurd (h hcalm).1.1 (by simp [hnow])

theorem ne_of_mem_rest {hook h : Hook} {rest : List Hook} (hsplit : hs.hooks = past ++ hook :: rest)
    (hmem : h ∈ rest) : h.name ≠ hook.name := by
  have hnodup := hs.nodup
  rw [hsplit, List.map_append, List.map_cons] at hnodup
  have hcons := (List.nodup_cons.1 hnodup.of_append_right).1
  intro heq
  exact hcons (heq ▸ List.mem_map_of_mem hmem)

end Parts

/-! ## The dispatcher's steps -/

section DispatcherSteps

variable {d : Dispatcher} {l : Loop} {past : List Hook} {hook : Hook}

theorem Inv.started (h : Inv hs w) (hd : w.dispatcher = some d) : w.state ≠ none := by
  intro hnone
  rw [(h.unstarted hnone).1] at hd
  cases hd

theorem Inv.begins {holdOpen : Bool} (h : Inv hs w)
    (hstep : beginTransition hs holdOpen w = some w') : Inv hs w' := by
  unfold beginTransition at hstep
  split_ifs at hstep with hnone
  obtain ⟨-, hretry, hrows⟩ := h.unstarted hnone
  rw [← Option.some.inj hstep]
  exact {
    unstarted := fun hstate => by cases hstate
    present := fun _ hins => by cases hins
    dispatcher := by
      rintro d ⟨⟩
      exact ⟨rfl, hretry, [], rfl, by simp, fun k _ => hrows k.name⟩
    retry := fun r hr => by
      rw [hretry] at hr
      cases hr
    completed := fun hstate => by cases hstate
    recorded := h.recorded
    again := h.again }

theorem rowState_insertRow (row : HookRun) :
    (w.insertRow n row).rowState m = if m = n then some row.state else w.rowState m := by
  by_cases hm : m = n <;> simp [Run.rowState, Run.insertRow, hm]

theorem Inv.insert (h : Inv hs w) (hstep : insertPending hs w = some w') : Inv hs w' := by
  unfold insertPending at hstep
  split at hstep
  · rename_i holdOpen k rest hd
    obtain ⟨hstate, hretry, past, hsplit, hpast, hrest⟩ := h.dispatcher _ hd
    have hsets : Sets w (w.insertRow k.name (pendingRun k)) k.name .pending :=
      fun m => rowState_insertRow _
    have hopen : ¬ w.EndedAt k.name := by
      rintro ⟨s, hs, -⟩
      rw [hrest k (by simp)] at hs
      cases hs
    rw [← Option.some.inj hstep]
    exact {
      unstarted := fun hnone => absurd hnone (by simp [Run.insertRow, hstate])
      present := fun _ hins => by cases hins
      dispatcher := by
        rintro d ⟨⟩
        refine ⟨hstate, hretry, past ++ [k], by simp [hsplit], ?_, ?_⟩
        · intro j hj
          obtain hj | hj := List.mem_append.1 hj
          · exact hsets.of_state (by simp [hrest k (by simp)]) (hpast j hj)
          · rw [List.mem_singleton.1 hj]
            exact hsets.self
        · intro j hj
          rw [← hrest j (by simp [hj])]
          exact hsets.other (ne_of_mem_rest hsplit hj)
      retry := fun r hr => by
        rw [show w.retry = some r from hr] at hretry
        cases hretry
      completed := fun hdone => by
        rw [show w.state = some .completed from hdone] at hstate
        cases hstate
      recorded := fun j hj => hsets.ended hopen (h.recorded j hj)
      again := h.again }
  · rename_i holdOpen hd
    obtain ⟨hstate, hretry, past, hsplit, hpast, -⟩ := h.dispatcher _ hd
    rw [List.append_nil] at hsplit
    rw [← Option.some.inj hstep]
    exact {
      unstarted := fun hnone => absurd hnone (by simp [hstate])
      present := fun _ _ k hk => by
        have hpending := hpast k (hsplit ▸ hk)
        change w.rowState k.name ≠ none
        rw [hpending]
        exact Option.some_ne_none _
      dispatcher := by
        rintro d ⟨⟩
        exact ⟨hstate, [], rfl, {
          aborted := fun hab => by cases hab
          past := fun _ k hk => by cases hk
          rest := fun _ k hk => hpast k (hsplit ▸ hk)
          alone := fun hres => by cases hres }⟩
      retry := fun r hr => by
        rw [show w.retry = some r from hr] at hretry
        cases hretry
      completed := fun hdone => by
        rw [show w.state = some .completed from hdone] at hstate
        cases hstate
      recorded := h.recorded
      again := h.again }
  · cases hstep

/-- A step of the dispatcher alone, which leaves the transition's row and the hooks' rows. -/
theorem Inv.move (h : Inv hs w) (hd : w.dispatcher = some d) (hnow : w.dispatching = true)
    (hins : d.isInserting = false) {d' : Dispatcher}
    (hnew : DispatcherInv hs { w with dispatcher := some d' } d') :
    Inv hs { w with dispatcher := some d' } where
  unstarted hnone := absurd hnone (h.started hd)
  present hstate _ := h.present hstate (by simp [hd, hins])
  dispatcher e he := by
    obtain rfl : d' = e := Option.some.inj he
    exact hnew
  retry r hr := (h.retry r hr).frame hnow fun _ _ => rfl
  completed := h.completed
  recorded := h.recorded
  again := h.again

theorem LoopInv.tail {rest : List Hook} (h : LoopInv w l past) (hrest : l.rest = hook :: rest) :
    LoopInv w { l with rest := rest } past where
  aborted := h.aborted
  past := h.past
  rest hnew k hk := h.rest hnew k (by simp [hrest, hk])
  alone := h.alone

theorem LoopInv.skip (h : LoopInv w l past) (hab : l.aborted = true) (hook : Hook) :
    LoopInv w l (past ++ [hook]) where
  aborted := h.aborted
  past hzero := absurd (h.aborted hab) (by omega)
  rest := h.rest
  alone := h.alone

/-- A row that the dispatcher sets on its way: what the others know of their rows stays. -/
theorem Inv.dispatcherSets (h : Inv hs w) (hd : w.dispatcher = some d)
    (hins : d.isInserting = false) {n : String} {s : RunState} (hopen : ¬ w.EndedAt n)
    (hsets : Sets w w' n s) (hstate : w'.state = w.state) (hretry : w'.retry = w.retry)
    (hapart : ∀ r, w.retry = some r → RetryInv hs w r → RetryInv hs w' r)
    (hcalls : ∀ m, .recorded m ∈ w'.calls → w'.EndedAt m) (hagain : NeverAgain w'.calls)
    (hnew : ∀ d', w'.dispatcher = some d' → d'.isInserting = false ∧ DispatcherInv hs w' d') :
    Inv hs w' where
  unstarted hnone := absurd (hstate ▸ hnone) (h.started hd)
  present hstarted _ k hk :=
    hsets.present (h.present (hstate ▸ hstarted) (by simp [hd, hins]) k hk)
  dispatcher d' hd' := (hnew d' hd').2
  retry r hr := hapart r (hretry ▸ hr) (h.retry r (hretry ▸ hr))
  completed hdone := (h.completed (hstate ▸ hdone)).frame fun _ => hsets.ended hopen
  recorded := hcalls
  again := hagain

theorem Inv.ends_loop (h : Inv hs w) (hd : w.dispatcher = some (.looping l))
    (hsplit : hs.hooks = past) (hloop : LoopInv w l past) :
    Inv hs { w with state := some l.finalState, dispatcher := none } where
  unstarted hnone := nomatch hnone
  present _ _ := h.present (h.started hd) (by simp [hd, Dispatcher.isInserting])
  dispatcher d' hd' := nomatch hd'
  retry r hr := (h.retry r hr).frame (by simp [Run.dispatching, hd]) fun _ _ => rfl
  completed hdone := by
    have hfinal := hloop.finalState (Option.some.inj hdone)
    exact fun k hk => hfinal k (hsplit ▸ hk)
  recorded := h.recorded
  again := h.again

theorem never_recorded (h : Inv hs w) (hopen : ¬ w.EndedAt n) : .recorded n ∉ w.calls :=
  fun hmem => hopen (h.recorded n hmem)

theorem Inv.marks {rest : List Hook} {row : HookRun} (h : Inv hs w)
    (hd : w.dispatcher = some (.looping l)) (hstate : w.state = some .running)
    (hsplit : hs.hooks = past ++ hook :: rest) (hloop : LoopInv w { l with rest := rest } past)
    (hnew : l.resuming = false → w.rowState hook.name = some .pending)
    (hrow : w.rows hook.name = some row) (hopen : ¬ row.state.Ended) (f : HookRun → HookRun)
    (hf : ∀ r, (f r).state = .running) (caller : Caller) (attempt : ℕ) :
    Inv hs { (w.modifyRow hook.name f).call caller hook.name with
      dispatcher := some (.calling { l with rest := rest } hook attempt) } := by
  have hrowState : w.rowState hook.name = some row.state := by simp [Run.rowState, hrow]
  have hopen' : ¬ w.EndedAt hook.name := not_ended hrowState hopen
  have hsets : Sets w { (w.modifyRow hook.name f).call caller hook.name with
      dispatcher := some (.calling { l with rest := rest } hook attempt) } hook.name .running :=
    sets_modifyRow hrowState hf
  have hnow : w.dispatching = true := by simp [Run.dispatching, hd]
  have hrest : l.resuming = false → ∀ k ∈ rest, w.rowState k.name = some .pending := hloop.rest
  apply h.dispatcherSets hd rfl hopen' hsets rfl rfl
  · intro r hr hinv
    cases hresuming : l.resuming with
    | true =>
      rw [hloop.alone hresuming] at hr
      cases hr
    | false =>
      refine hinv.frame hnow fun k hk => hsets.other ?_
      intro hname
      have hpending := hnew hresuming
      rw [← hname] at hpending
      cases r with
      | taken j attempts maxAttempts =>
        obtain rfl := Option.some.inj hk
        rw [hinv] at hpending
        cases hpending
      | calling j attempt maxAttempts =>
        obtain rfl := Option.some.inj hk
        rw [hinv] at hpending
        cases hpending
      | recorded => cases hk
      | noneFailed calm => cases hk
      | nonePending calm => cases hk
  · intro m hm
    obtain hm | hm := List.mem_cons.1 hm
    · cases hm
    · exact hsets.ended hopen' (h.recorded m hm)
  · have hnever := never_recorded h hopen'
    exact ⟨hnever, h.again⟩
  · rintro d' ⟨⟩
    refine ⟨rfl, hstate, hsets.self, ?_, past, hsplit, ?_⟩
    · intro k attempts maxAttempts hr hname
      have hr : w.retry = some (.calling k attempts maxAttempts) := hr
      have hrunning : w.rowState k.name = some .running := h.retry _ hr
      cases hresuming : l.resuming with
      | true =>
        rw [hloop.alone hresuming] at hr
        cases hr
      | false =>
        rw [hname, hnew hresuming] at hrunning
        cases hrunning
    · exact {
        aborted := hloop.aborted
        past := fun hzero k hk => hsets.ended hopen' (hloop.past hzero k hk)
        rest := fun hfalse k hk => by
          rw [hsets.other (ne_of_mem_rest hsplit hk)]
          exact hrest hfalse k hk
        alone := hloop.alone }

theorem Inv.next {now : Time} (h : Inv hs w) (hstep : dispatchNext now w = some w') : Inv hs w' := by
  unfold dispatchNext at hstep
  split at hstep
  · rename_i l hd
    obtain ⟨hstate, past, hsplit, hloop⟩ := h.dispatcher _ hd
    have hnow : w.dispatching = true := by simp [Run.dispatching, hd]
    split at hstep
    · rename_i hrest
      rw [hrest, List.append_nil] at hsplit
      split_ifs at hstep
      · rw [← Option.some.inj hstep]
        refine h.move hd hnow rfl ⟨by simp [hstate], fun hdone k hk => ?_⟩
        exact hloop.finalState hdone k (hsplit ▸ hk)
      · rw [← Option.some.inj hstep]
        exact h.ends_loop hd hsplit hloop
    · rename_i hook rest hrest
      rw [hrest] at hsplit
      have htail := hloop.tail hrest
      have hsplit' : hs.hooks = (past ++ [hook]) ++ rest := by simp [hsplit]
      have hmem : hook ∈ hs.hooks := by simp [hsplit]
      dsimp only at hstep
      split at hstep
      · rename_i hnone
        have hpresent := h.present (h.started hd) (by simp [hd, Dispatcher.isInserting]) hook hmem
        exact absurd (by simp [Run.rowState, hnone]) hpresent
      · rename_i row hrow
        have hrowState : w.rowState hook.name = some row.state := by simp [Run.rowState, hrow]
        by_cases hskip : l.resuming = true ∧ row.state.Ended
        · rw [if_pos hskip] at hstep
          rw [← Option.some.inj hstep]
          exact h.move hd hnow rfl ⟨hstate, past ++ [hook], hsplit',
            (htail.ended ⟨row.state, hrowState, hskip.2⟩).withDispatcher _⟩
        · rw [if_neg hskip] at hstep
          by_cases hfail : l.resuming = true ∧ row.state = .failed
          · rw [if_pos hfail] at hstep
            rw [← Option.some.inj hstep]
            exact h.move hd hnow rfl
              ⟨hstate, past ++ [hook], hsplit', (htail.failedAt hook).withDispatcher _⟩
          · rw [if_neg hfail] at hstep
            by_cases hab : l.aborted = true
            · rw [if_pos hab] at hstep
              rw [← Option.some.inj hstep]
              exact h.move hd hnow rfl
                ⟨hstate, past ++ [hook], hsplit', (htail.skip hab hook).withDispatcher _⟩
            · rw [if_neg hab] at hstep
              rw [← Option.some.inj hstep]
              have hopen : ¬ row.state.Ended := by
                intro hended
                cases hresuming : l.resuming with
                | true => exact hskip ⟨hresuming, hended⟩
                | false =>
                  have hpending := hloop.rest hresuming hook (by simp [hrest])
                  rw [hrowState] at hpending
                  rw [Option.some.inj hpending] at hended
                  simp [RunState.Ended] at hended
              exact h.marks hd hstate hsplit htail
                (fun hfalse => hloop.rest hfalse hook (by simp [hrest])) hrow hopen _ (fun _ => rfl)
                _ _
  · cases hstep

theorem Inv.writes {l' : Loop} {attempt : ℕ} {s : RunState} (h : Inv hs w)
    (hd : w.dispatcher = some (.calling l hook attempt)) (hsets : Sets w w' hook.name s)
    (hstate : w'.state = w.state) (hretry : w'.retry = w.retry)
    (hcalls : ∀ m, .recorded m ∈ w'.calls → w'.EndedAt m) (hagain : NeverAgain w'.calls)
    (hd' : w'.dispatcher = some (.looping l')) (hnew : DispatcherInv hs w' (.looping l')) :
    Inv hs w' := by
  obtain ⟨-, hrunning, hapart, -⟩ := h.dispatcher _ hd
  have hnow : w.dispatching = true := by simp [Run.dispatching, hd]
  apply h.dispatcherSets hd rfl (not_ended hrunning (by decide)) hsets hstate hretry _ hcalls hagain
  · intro d hdd
    rw [hd'] at hdd
    obtain rfl := Option.some.inj hdd
    exact ⟨rfl, hnew⟩
  · intro r hr hinv
    refine hinv.frame hnow fun k hk => hsets.other ?_
    cases r with
    | taken j attempts maxAttempts =>
      obtain rfl := Option.some.inj hk
      intro hname
      rw [← hname, show w.rowState j.name = some .failed from hinv] at hrunning
      cases hrunning
    | calling j attempts maxAttempts =>
      obtain rfl := Option.some.inj hk
      exact hapart j attempts maxAttempts hr
    | recorded => cases hk
    | noneFailed calm => cases hk
    | nonePending calm => cases hk

theorem Inv.returns {result : HookResult} {now : Time} (h : Inv hs w)
    (hstep : dispatchReturns result now w = some w') : Inv hs w' := by
  unfold dispatchReturns at hstep
  split at hstep
  · rename_i l hook attempt hd
    obtain ⟨hstate, hrunning, hapart, past, hsplit, hloop⟩ := h.dispatcher _ hd
    have hopen : ¬ w.EndedAt hook.name := not_ended hrunning (by decide)
    have hsplit' : hs.hooks = (past ++ [hook]) ++ l.rest := by simp [hsplit]
    have hloop' : ∀ {v : Run} {s : RunState}, Sets w v hook.name s → v.retry = w.retry →
        LoopInv v l past := by
      intro v s hsets hretry
      exact {
        aborted := hloop.aborted
        past := fun hzero k hk => hsets.ended hopen (hloop.past hzero k hk)
        rest := fun hfalse k hk => by
          rw [hsets.other (ne_of_mem_rest hsplit hk)]
          exact hloop.rest hfalse k hk
        alone := fun hres => hretry.trans (hloop.alone hres) }
    dsimp only at hstep
    split at hstep
    · rename_i hended
      rw [Run.record, if_pos hended] at hstep
      have hw := Option.some.inj hstep
      have hsets : Sets w w' hook.name result.recorded := by
        rw [← hw]
        exact sets_modifyRow hrunning fun _ => rfl
      have hcalls : w'.calls = .recorded hook.name :: w.calls := by rw [← hw]; rfl
      have hretry : w'.retry = w.retry := by rw [← hw]; rfl
      have hrecorded : w'.EndedAt hook.name := ⟨result.recorded, hsets.self, hended⟩
      apply h.writes hd hsets (by rw [← hw]; rfl) hretry _ (by rw [hcalls]; exact h.again)
        (by rw [← hw])
      · exact ⟨by rw [← hw]; exact hstate, past ++ [hook], hsplit',
          (hloop' hsets hretry).ended hrecorded⟩
      · intro m hm
        rw [hcalls] at hm
        obtain hm | hm := List.mem_cons.1 hm
        · cases hm
          exact hrecorded
        · exact hsets.ended hopen (h.recorded m hm)
    · have hw := Option.some.inj hstep
      have hsets : Sets w w' hook.name .failed := by
        rw [← hw]
        exact sets_modifyRow hrunning fun _ => rfl
      have hcalls : w'.calls = w.calls := by rw [← hw]; rfl
      have hretry : w'.retry = w.retry := by rw [← hw]; rfl
      apply h.writes hd hsets (by rw [← hw]; rfl) hretry _ (by rw [hcalls]; exact h.again)
        (by rw [← hw])
      · exact ⟨by rw [← hw]; exact hstate, past ++ [hook], hsplit',
          (hloop' hsets hretry).failedAt hook⟩
      · intro m hm
        rw [hcalls] at hm
        exact hsets.ended hopen (h.recorded m hm)
  · cases hstep

theorem Inv.leaves (h : Inv hs w) (hins : w.dispatcher.any Dispatcher.isInserting = false)
    {state : Option TransitionState} (hnone : state = none ↔ w.state = none)
    (hdone : state = some .completed → AllEnded hs w) :
    Inv hs { w with state := state, dispatcher := none } where
  unstarted hstate := ⟨rfl, (h.unstarted (hnone.1 hstate)).2⟩
  present hstate _ := h.present (fun hw => hstate (hnone.2 hw)) hins
  dispatcher d hd := nomatch hd
  retry r hr := by
    have hinv := h.retry r hr
    cases r with
    | taken hook attempts maxAttempts => exact hinv
    | calling hook attempt maxAttempts => exact hinv
    | recorded => trivial
    | noneFailed calm => exact fun hcalm => ⟨⟨rfl, (hinv hcalm).1.2⟩, (hinv hcalm).2⟩
    | nonePending calm => exact fun hcalm => ⟨⟨rfl, (hinv hcalm).1.2⟩, (hinv hcalm).2⟩
  completed hstate := hdone hstate
  recorded := h.recorded
  again := h.again

theorem Inv.ends (h : Inv hs w) (hstep : endTransition w = some w') : Inv hs w' := by
  unfold endTransition at hstep
  split at hstep
  · rename_i endsAs hd
    obtain ⟨hstarted, hall⟩ := h.dispatcher _ hd
    rw [← Option.some.inj hstep]
    apply h.leaves (by simp [hd, Dispatcher.isInserting])
    · split
      · simp [hstarted]
      · exact Iff.rfl
    · split
      · exact fun hdone => hall (Option.some.inj hdone)
      · exact h.completed
  · cases hstep

theorem Inv.dies (h : Inv hs w) (hins : w.dispatcher.any Dispatcher.isInserting = false)
    (hstep : dispatcherDies w = some w') : Inv hs w' := by
  unfold dispatcherDies at hstep
  split_ifs at hstep
  rw [← Option.some.inj hstep]
  exact h.leaves hins Iff.rfl h.completed

end DispatcherSteps

end Insula.Lifecycle
