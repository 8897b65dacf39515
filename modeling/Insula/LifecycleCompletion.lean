import Insula.LifecycleInvariant

/-!
# A completed transition ran every hook

A row that ends well stays so, and no hook is called again after. A transition that reads completed
has such a row for every hook as long as the dispatcher does not die among the inserts of its rows,
no retry completes the transition beside a hook that is running, and no resumed run overlaps a
retry.
-/

namespace Insula.Lifecycle

open Transition

variable {hs : HookList} {kind : Kind} {w w' : Run} {n : String}

/-! ## The tick's steps -/

section TickSteps

theorem Inv.resume {holdOpen : Bool} (h : Inv hs w) (hcareful : w.retry.isSome = false)
    (hstep : resumeTransition hs holdOpen w = some w') : Inv hs w' := by
  unfold resumeTransition at hstep
  split_ifs at hstep with hgo
  obtain ⟨hgone, hstate⟩ := hgo
  have hretry : w.retry = none := by simpa using hcareful
  have hgone : w.dispatcher = none := by simpa using hgone
  rw [← Option.some.inj hstep]
  exact {
    unstarted := fun hnone => absurd hnone (by simp [hstate])
    present := fun hstarted _ => h.present hstarted (by simp [hgone])
    dispatcher := by
      rintro d ⟨⟩
      exact ⟨hstate, [], rfl, {
        aborted := fun hab => by cases hab
        past := fun _ k hk => by cases hk
        rest := fun hfalse => by cases hfalse
        alone := fun _ => hretry }⟩
    retry := fun r hr => by
      rw [show w.retry = some r from hr] at hretry
      cases hretry
    completed := h.completed
    recorded := h.recorded
    again := h.again }

/-- A statement over all the hooks' rows that leaves the ended ones, when no retry is in progress
and no dispatcher is at the hooks. -/
theorem Inv.sweeps (h : Inv hs w) (hretry : w.retry = none) (hidle : w.dispatching = false)
    {f : HookRun → HookRun} (hf : ∀ r, r.state.Ended → (f r).state = r.state)
    {state : Option TransitionState} (hnone : state = none ↔ w.state = none)
    (hdone : state = some .completed → AllEnded hs w) :
    Inv hs { w with state := state, rows := fun n => (w.rows n).map f } := by
  have hrows : ∀ m, ((w.rows m).map f).map HookRun.state = none ↔ w.rowState m = none := by
    intro m
    simp [Run.rowState]
  have hended : ∀ m, w.EndedAt m →
      Run.EndedAt { w with state := state, rows := fun n => (w.rows n).map f } m := by
    rintro m ⟨s, hs, hend⟩
    obtain ⟨r, hr, rfl⟩ := Option.map_eq_some_iff.1 hs
    exact ⟨r.state, by simp [Run.rowState, hr, hf r hend], hend⟩
  exact {
    unstarted := fun hstate => by
      obtain ⟨hd, hr, hall⟩ := h.unstarted (hnone.1 hstate)
      exact ⟨hd, hr, fun n => (hrows n).2 (hall n)⟩
    present := fun hstate hins k hk hk' =>
      h.present (fun hw => hstate (hnone.2 hw)) hins k hk ((hrows k.name).1 hk')
    dispatcher := fun d hd => by
      have hinv := h.dispatcher d hd
      have hd : w.dispatcher = some d := hd
      cases d with
      | inserting holdOpen rest => simp [Run.dispatching, hd] at hidle
      | looping l => simp [Run.dispatching, hd] at hidle
      | calling l hook attempt => simp [Run.dispatching, hd] at hidle
      | held endsAs =>
        exact ⟨fun hstate => hinv.1 (hnone.1 hstate), fun hends => (hinv.2 hends).frame hended⟩
    retry := fun r hr => by
      rw [show w.retry = some r from hr] at hretry
      cases hretry
    completed := fun hstate => (hdone hstate).frame hended
    recorded := fun m hm => hended m (h.recorded m hm)
    again := h.again }

theorem Inv.close (h : Inv hs w) (hstep : closeInterruptedTransition w = some w') : Inv hs w' := by
  unfold closeInterruptedTransition at hstep
  split_ifs at hstep with hgo
  obtain ⟨hgone, ⟨hretry, -⟩, hstate⟩ := hgo
  have hgone : w.dispatcher = none := by simpa using hgone
  rw [← Option.some.inj hstep]
  apply h.sweeps hretry (by simp [Run.dispatching, hgone])
  · intro r hended
    rw [if_neg]
    rintro (hpending | hrunning)
    · rw [hpending] at hended
      exact absurd hended (by decide)
    · rw [hrunning] at hended
      exact absurd hended (by decide)
  · simp [hstate]
  · exact fun hdone => by cases hdone

theorem Inv.running (h : Inv hs w) (hnow : w.dispatching = true) : w.state = some .running := by
  cases hd : w.dispatcher with
  | none => simp [Run.dispatching, hd] at hnow
  | some d =>
    have hinv := h.dispatcher d hd
    cases d with
    | inserting holdOpen rest => exact hinv.1
    | looping l => exact hinv.1
    | calling l hook attempt => exact hinv.1
    | held endsAs => simp [Run.dispatching, hd] at hnow

variable {now : Time}

theorem Inv.requeue (h : Inv hs w) (hstep : requeueInterruptedRetries now w = some w') :
    Inv hs w' := by
  unfold requeueInterruptedRetries at hstep
  split at hstep
  · rename_i hgo
    obtain ⟨⟨hretry, -⟩, -, hstate⟩ := hgo
    have hidle : w.dispatching = false := by
      by_contra hnow
      exact hstate (h.running (eq_true_of_ne_false hnow))
    rw [← Option.some.inj hstep]
    apply h.sweeps hretry hidle _ Iff.rfl h.completed
    intro r hended
    rw [if_neg]
    rintro ⟨hrunning, -⟩
    rw [hrunning] at hended
    exact absurd hended (by decide)
  · cases hstep

theorem Inv.keeps (h : Inv hs w) {f : HookRun → HookRun} (hf : ∀ r, w.rows n = some r →
    (f r).state = r.state) : Inv hs (w.modifyRow n f) := by
  have hrows : (w.modifyRow n f).rowState = w.rowState := by
    funext m
    by_cases hm : m = n
    · subst hm
      cases hr : w.rows m with
      | none => simp [Run.rowState, Run.modifyRow, hr]
      | some r => simp [Run.rowState, Run.modifyRow, hr, hf r hr]
    · simp [Run.rowState, Run.modifyRow, hm]
  have hended : ∀ m, w.EndedAt m → (w.modifyRow n f).EndedAt m := by
    rintro m ⟨s, hs, hend⟩
    exact ⟨s, by rw [hrows, hs], hend⟩
  exact {
    unstarted := fun hnone => by rw [hrows]; exact h.unstarted hnone
    present := fun hstate hins => by rw [hrows]; exact h.present hstate hins
    dispatcher := fun d hd => by
      have hinv := h.dispatcher d hd
      cases d with
      | inserting holdOpen rest =>
        obtain ⟨hstate, hretry, past, hsplit, hpast, hrest⟩ := hinv
        exact ⟨hstate, hretry, past, hsplit, by rw [hrows]; exact hpast, by rw [hrows]; exact hrest⟩
      | looping l =>
        obtain ⟨hstate, past, hsplit, hloop⟩ := hinv
        exact ⟨hstate, past, hsplit, hloop.frame hended
          (by rw [hrows]; exact fun _ hm => hm) hloop.alone⟩
      | calling l hook attempt =>
        obtain ⟨hstate, hrunning, hapart, past, hsplit, hloop⟩ := hinv
        exact ⟨hstate, by rw [hrows]; exact hrunning, hapart, past, hsplit,
          hloop.frame hended (by rw [hrows]; exact fun _ hm => hm) hloop.alone⟩
      | held endsAs => exact ⟨hinv.1, fun hends => (hinv.2 hends).frame hended⟩
    retry := fun r hr => by
      have hinv := h.retry r hr
      unfold RetryInv Calm at *
      rw [hrows]
      exact hinv
    completed := fun hdone => (h.completed hdone).frame hended
    recorded := fun m hm => hended m (h.recorded m hm)
    again := h.again }

theorem Inv.turns (h : Inv hs w) {r : Option Retry}
    (hfree : r ≠ none → w.state ≠ none ∧ w.dispatcher.any Dispatcher.isInserting = false ∧
      w.resuming = false)
    (hcall : ∀ hook attempt maxAttempts, r ≠ some (.calling hook attempt maxAttempts))
    (hnew : ∀ x, r = some x → RetryInv hs w x) : Inv hs { w with retry := r } where
  unstarted hnone := by
    obtain ⟨hd, -, hrows⟩ := h.unstarted hnone
    refine ⟨hd, ?_, hrows⟩
    by_contra hr
    exact (hfree hr).1 hnone
  present := h.present
  dispatcher d hd := by
    have hinv := h.dispatcher d hd
    have hd : w.dispatcher = some d := hd
    cases d with
    | inserting holdOpen rest =>
      obtain ⟨hstate, -, hpast⟩ := hinv
      refine ⟨hstate, ?_, hpast⟩
      by_contra hr
      have hins := (hfree hr).2.1
      simp [hd, Dispatcher.isInserting] at hins
    | looping l =>
      obtain ⟨hstate, past, hsplit, hloop⟩ := hinv
      refine ⟨hstate, past, hsplit, hloop.frame (fun _ hm => hm) (fun _ hm => hm) ?_⟩
      intro hresuming
      by_contra hr
      have hfalse := (hfree hr).2.2
      simp [Run.resuming, hd, hresuming] at hfalse
    | calling l hook attempt =>
      obtain ⟨hstate, hrunning, -, past, hsplit, hloop⟩ := hinv
      refine ⟨hstate, hrunning, fun k a b hr => absurd hr (hcall k a b), past, hsplit,
        hloop.frame (fun _ hm => hm) (fun _ hm => hm) ?_⟩
      intro hresuming
      by_contra hr
      have hfalse := (hfree hr).2.2
      simp [Run.resuming, hd, hresuming] at hfalse
    | held endsAs => exact hinv
  retry x hx := by
    have hinv := hnew x hx
    cases x <;> exact hinv
  completed := h.completed
  recorded := h.recorded
  again := h.again

/-- While the tick is at one of the transition's rows, no dispatcher inserts rows or resumes. -/
theorem Inv.free (h : Inv hs w) {r : Retry} (hr : w.retry = some r) :
    w.state ≠ none ∧ w.dispatcher.any Dispatcher.isInserting = false ∧ w.resuming = false := by
  refine ⟨fun hnone => ?_, ?_, ?_⟩
  · rw [(h.unstarted hnone).2.1] at hr
    cases hr
  all_goals
    cases hd : w.dispatcher with
    | none => simp [Run.resuming, hd]
    | some d =>
      have hinv := h.dispatcher d hd
      cases d with
      | inserting holdOpen rest => simp [hinv.2.1] at hr
      | looping l =>
        obtain ⟨-, past, -, hloop⟩ := hinv
        cases hresuming : l.resuming with
        | true => simp [hloop.alone hresuming] at hr
        | false => simp [Run.resuming, hd, hresuming, Dispatcher.isInserting]
      | calling l hook attempt =>
        obtain ⟨-, -, -, past, -, hloop⟩ := hinv
        cases hresuming : l.resuming with
        | true => simp [hloop.alone hresuming] at hr
        | false => simp [Run.resuming, hd, hresuming, Dispatcher.isInserting]
      | held endsAs => simp [Run.resuming, hd, Dispatcher.isInserting]

theorem Inv.take {hook : Hook} {breakerOpen stillArchived : Bool} (h : Inv hs w)
    (hmem : hook ∈ hs.hooks) (hresuming : w.resuming = false)
    (hstep : takeCandidate kind hook now breakerOpen stillArchived w = some w') : Inv hs w' := by
  unfold takeCandidate at hstep
  split at hstep
  · rename_i row hrow
    split at hstep
    · rename_i hgo
      obtain ⟨-, hdue, -⟩ := hgo
      have hfailed : row.state = .failed := by
        simp only [HookRun.due, Bool.and_eq_true, decide_eq_true_eq] at hdue
        exact hdue.1.1
      have hrowState : w.rowState hook.name = some .failed := by
        simp [Run.rowState, hrow, hfailed]
      split at hstep
      · rw [← Option.some.inj hstep]
        refine h.keeps fun r hr => ?_
        rw [hrow] at hr
        exact Option.some.inj hr ▸ hfailed.symm
      · rw [← Option.some.inj hstep]
        apply h.turns
        · intro _
          refine ⟨fun hnone => ?_, ?_, hresuming⟩
          · rw [(h.unstarted hnone).2.2] at hrowState
            cases hrowState
          · cases hd : w.dispatcher with
            | none => rfl
            | some d =>
              cases d with
              | inserting holdOpen rest =>
                obtain ⟨-, -, past, hsplit, hpast, hrest⟩ := h.dispatcher _ hd
                rw [hsplit] at hmem
                obtain hmem | hmem := List.mem_append.1 hmem
                · rw [hpast hook hmem] at hrowState
                  cases hrowState
                · rw [hrest hook hmem] at hrowState
                  cases hrowState
              | looping l => rfl
              | calling l k attempt => rfl
              | held endsAs => rfl
        · exact fun _ _ _ hr => by cases hr
        · rintro x ⟨⟩
          exact hrowState
    · cases hstep
  · cases hstep

/-- A row that the tick sets: what the dispatcher knows of its rows stays. -/
theorem Inv.retrySets (h : Inv hs w) {r : Retry} (hr : w.retry = some r) {s : RunState}
    (hopen : ¬ w.EndedAt n) (hpending : w.rowState n ≠ some .pending) (hsets : Sets w w' n s)
    (hstate : w'.state = w.state) (hd : w'.dispatcher = w.dispatcher)
    (hapart : ∀ l k a, w.dispatcher = some (.calling l k a) → k.name ≠ n)
    (hcall : ∀ k a b, w'.retry = some (.calling k a b) → k.name = n)
    (hnew : ∀ x, w'.retry = some x → RetryInv hs w' x)
    (hcalls : ∀ m, .recorded m ∈ w'.calls → w'.EndedAt m) (hagain : NeverAgain w'.calls) :
    Inv hs w' := by
  obtain ⟨hstarted, hins, hresuming⟩ := h.free hr
  have hended : ∀ m, w.EndedAt m → w'.EndedAt m := fun _ => hsets.ended hopen
  have hkept : ∀ m, w.rowState m = some .pending → w'.rowState m = some .pending :=
    fun _ => hsets.of_state hpending
  exact {
    unstarted := fun hnone => absurd (hstate ▸ hnone) hstarted
    present := fun hs' hins' k hk => hsets.present (h.present (hstate ▸ hs') (hd ▸ hins') k hk)
    dispatcher := fun d hdd => by
      rw [hd] at hdd
      have hinv := h.dispatcher d hdd
      cases d with
      | inserting holdOpen rest => simp [hdd, Dispatcher.isInserting] at hins
      | looping l =>
        obtain ⟨hrun, past, hsplit, hloop⟩ := hinv
        refine ⟨hstate.trans hrun, past, hsplit, hloop.frame hended hkept fun hres => ?_⟩
        simp [Run.resuming, hdd, hres] at hresuming
      | calling l k attempt =>
        obtain ⟨hrun, hrunning, -, past, hsplit, hloop⟩ := hinv
        have hne := hapart l k attempt hdd
        refine ⟨hstate.trans hrun, (hsets.other hne).trans hrunning, ?_, past, hsplit,
          hloop.frame hended hkept fun hres => ?_⟩
        · intro j a b hj hname
          exact hne (hname ▸ hcall j a b hj)
        · simp [Run.resuming, hdd, hres] at hresuming
      | held endsAs => exact ⟨hstate ▸ hinv.1, fun hends => (hinv.2 hends).frame hended⟩
    retry := hnew
    completed := fun hdone => (h.completed (hstate ▸ hdone)).frame hended
    recorded := hcalls
    again := hagain }

theorem Inv.callRetry (h : Inv hs w) (hstep : callRetry now w = some w') : Inv hs w' := by
  unfold Lifecycle.callRetry at hstep
  split at hstep
  · rename_i hook attempts maxAttempts hr
    have hfailed : w.rowState hook.name = some .failed := h.retry _ hr
    have hopen : ¬ w.EndedAt hook.name := not_ended hfailed (by decide)
    have hw := Option.some.inj hstep
    have hsets : Sets w w' hook.name .running := by
      rw [← hw]
      exact sets_modifyRow hfailed fun _ => rfl
    have hcalls : w'.calls = .invoked .retryTick hook.name :: w.calls := by rw [← hw]; rfl
    have hretry : w'.retry = some (.calling hook (attempts + 1) maxAttempts) := by rw [← hw]
    apply h.retrySets hr hopen (by simp [hfailed]) hsets (by rw [← hw]; rfl) (by rw [← hw]; rfl)
    · intro l k a hd hname
      have hrunning := (h.dispatcher _ hd).2.1
      rw [hname, hfailed] at hrunning
      cases hrunning
    · intro k a b hk
      rw [hretry] at hk
      cases hk
      rfl
    · intro x hx
      rw [hretry] at hx
      cases hx
      exact hsets.self
    · intro m hm
      rw [hcalls] at hm
      obtain hm | hm := List.mem_cons.1 hm
      · cases hm
      · exact hsets.ended hopen (h.recorded m hm)
    · rw [hcalls]
      exact ⟨never_recorded h hopen, h.again⟩
  · cases hstep

theorem Inv.retryReturns {result : HookResult} (h : Inv hs w)
    (hstep : retryReturns result now w = some w') : Inv hs w' := by
  unfold Lifecycle.retryReturns at hstep
  split at hstep
  · rename_i hook attempt maxAttempts hr
    have hrunning : w.rowState hook.name = some .running := h.retry _ hr
    have hopen : ¬ w.EndedAt hook.name := not_ended hrunning (by decide)
    have hapart : ∀ l k a, w.dispatcher = some (.calling l k a) → k.name ≠ hook.name := by
      intro l k a hd hname
      exact (h.dispatcher _ hd).2.2.1 hook attempt maxAttempts hr hname.symm
    dsimp only at hstep
    split at hstep
    · rename_i hended
      rw [Run.record, if_pos hended] at hstep
      have hw := Option.some.inj hstep
      have hsets : Sets w w' hook.name result.recorded := by
        rw [← hw]
        exact sets_modifyRow hrunning fun _ => rfl
      have hcalls : w'.calls = .recorded hook.name :: w.calls := by rw [← hw]; rfl
      have hretry : w'.retry = some .recorded := by rw [← hw]
      apply h.retrySets hr hopen (by simp [hrunning]) hsets (by rw [← hw]; rfl) (by rw [← hw]; rfl)
        hapart
      · intro k a b hk
        rw [hretry] at hk
        cases hk
      · intro x hx
        rw [hretry] at hx
        cases hx
        trivial
      · intro m hm
        rw [hcalls] at hm
        obtain hm | hm := List.mem_cons.1 hm
        · cases hm
          exact ⟨result.recorded, hsets.self, hended⟩
        · exact hsets.ended hopen (h.recorded m hm)
      · rw [hcalls]
        exact h.again
    · have hw := Option.some.inj hstep
      have hsets : Sets w w' hook.name .failed := by
        rw [← hw]
        exact sets_modifyRow hrunning fun _ => rfl
      have hcalls : w'.calls = w.calls := by rw [← hw]; rfl
      have hretry : w'.retry = none := by rw [← hw]
      apply h.retrySets hr hopen (by simp [hrunning]) hsets (by rw [← hw]; rfl) (by rw [← hw]; rfl)
        hapart
      · intro k a b hk
        rw [hretry] at hk
        cases hk
      · intro x hx
        rw [hretry] at hx
        cases hx
      · intro m hm
        rw [hcalls] at hm
        exact hsets.ended hopen (h.recorded m hm)
      · rw [hcalls]
        exact h.again
  · cases hstep

theorem not_anyRow {s : RunState} (h : w.anyRow hs s = false) :
    ∀ k ∈ hs.hooks, w.rowState k.name ≠ some s := by
  intro k hk hrow
  have hall := List.any_eq_false.1 h k hk
  simp [hrow] at hall

theorem ended_of_calm {k : Hook} (hpresent : w.rowState k.name ≠ none)
    (hrunning : w.rowState k.name ≠ some .running) (hfailed : w.rowState k.name ≠ some .failed)
    (hpending : w.rowState k.name ≠ some .pending) : w.EndedAt k.name := by
  cases hrow : w.rowState k.name with
  | none => exact absurd hrow hpresent
  | some s =>
    cases s with
    | pending => exact absurd hrow hpending
    | running => exact absurd hrow hrunning
    | failed => exact absurd hrow hfailed
    | ok => exact ⟨.ok, hrow, .inl rfl⟩
    | noop => exact ⟨.noop, hrow, .inr rfl⟩

theorem Inv.completes (h : Inv hs w) (hr : w.retry = some (.nonePending true)) :
    Inv hs { w with state := some .completed, retry := none } := by
  obtain ⟨hstarted, hins, -⟩ := h.free hr
  obtain ⟨⟨hidle, hrunning⟩, hfailed, hpending⟩ := h.retry _ hr rfl
  have hall : AllEnded hs w := fun k hk =>
    ended_of_calm (h.present hstarted hins k hk) (hrunning k hk) (hfailed k hk) (hpending k hk)
  exact {
    unstarted := fun hnone => by cases hnone
    present := fun _ _ => h.present hstarted hins
    dispatcher := fun d hd => by
      have hd : w.dispatcher = some d := hd
      cases d with
      | inserting holdOpen rest => simp [Run.dispatching, hd] at hidle
      | looping l => simp [Run.dispatching, hd] at hidle
      | calling l hook attempt => simp [Run.dispatching, hd] at hidle
      | held endsAs => exact ⟨by simp, fun _ => hall⟩
    retry := fun x hx => by cases hx
    completed := fun _ => hall
    recorded := h.recorded
    again := h.again }

theorem Inv.reevaluate (h : Inv hs w) (hcalm : w.retry.any Retry.rash = false)
    (hstep : reevaluate hs w = some w') : Inv hs w' := by
  have hgives : Inv hs { w with retry := none } :=
    h.turns (fun hne => absurd rfl hne) (fun _ _ _ hr => by cases hr)
      fun _ hx => by cases hx
  unfold Lifecycle.reevaluate at hstep
  split at hstep
  · rename_i hr
    split at hstep
    · rw [← Option.some.inj hstep]
      exact hgives
    · rename_i hfailed
      rw [← Option.some.inj hstep]
      apply h.turns (fun _ => h.free hr) (by simp)
      rintro x ⟨⟩ hboth
      simp only [Bool.and_eq_true, Bool.not_eq_true'] at hboth
      exact ⟨⟨hboth.1, not_anyRow hboth.2⟩, not_anyRow (eq_false_of_ne_true hfailed)⟩
  · rename_i calm hr
    split at hstep
    · rw [← Option.some.inj hstep]
      exact hgives
    · rename_i hpending
      rw [← Option.some.inj hstep]
      apply h.turns (fun _ => h.free hr) (by simp)
      rintro x ⟨⟩ htrue
      obtain ⟨hcalm', hfailed⟩ := h.retry _ hr htrue
      exact ⟨hcalm', hfailed, not_anyRow (eq_false_of_ne_true hpending)⟩
  · rename_i calm hr
    have htrue : calm = true := by simpa [hr, Retry.rash] using hcalm
    rw [htrue] at hr
    rw [← Option.some.inj hstep]
    exact h.completes hr
  · cases hstep

theorem Inv.tickDies (h : Inv hs w) (hstep : tickDies w = some w') : Inv hs w' := by
  unfold Lifecycle.tickDies at hstep
  split at hstep
  · rw [← Option.some.inj hstep]
    exact h.turns (fun hne => absurd rfl hne) (fun _ _ _ hr => by cases hr)
      fun _ hx => by cases hx
  · cases hstep

theorem Inv.requestRetry (h : Inv hs w) (hstep : requestRetry n now w = some w') : Inv hs w' := by
  unfold Lifecycle.requestRetry at hstep
  split at hstep
  · split at hstep
    · rw [← Option.some.inj hstep]
      exact h.keeps fun _ _ => rfl
    · cases hstep
  · cases hstep

end TickSteps

/-! ## Runs -/

theorem inv_fresh : Inv hs .fresh where
  unstarted _ := ⟨rfl, rfl, fun _ => rfl⟩
  present hstate := absurd rfl hstate
  dispatcher _ hd := nomatch hd
  retry _ hr := nomatch hr
  completed hdone := nomatch hdone
  recorded _ hm := nomatch hm
  again := trivial

theorem Inv.step {e : Event} (h : Inv hs w) (hcareful : e.Careful w)
    (hstep : w.step hs kind e = some w') : Inv hs w' := by
  cases e with
  | begins holdOpen => exact h.begins hstep
  | insert => exact h.insert hstep
  | next now => exact h.next hstep
  | returns result now => exact h.returns hstep
  | ends => exact h.ends hstep
  | dies => exact h.dies hcareful hstep
  | resume holdOpen => exact h.resume hcareful hstep
  | close => exact h.close hstep
  | requeue now => exact h.requeue hstep
  | take name now breakerOpen stillArchived =>
    obtain ⟨hook, hfind, htake⟩ := Option.bind_eq_some_iff.1 hstep
    exact h.take (List.mem_of_find?_eq_some hfind) hcareful htake
  | callRetry now => exact h.callRetry hstep
  | retryReturns result now => exact h.retryReturns hstep
  | reevaluate => exact h.reevaluate hcareful hstep
  | tickDies => exact h.tickDies hstep
  | requestRetry name now => exact h.requestRetry hstep

def mailAndIngress : HookList where
  hooks := [⟨"mailboxes-status", .continues, none, none⟩, ⟨"ingress-suspend", .abort, some 3, none⟩]
  nodup := by decide

def suspension : List Event :=
  [.begins false, .insert, .insert, .insert, .next 0, .returns .retry 10, .next 20, .returns .ok 30,
    .next 40, .take "mailboxes-status" 6000 false true, .callRetry 6000, .retryReturns .ok 6010,
    .reevaluate, .reevaluate, .reevaluate]

def suspended : Run := (exec (Run.step mailAndIngress .suspended) .fresh suspension).getD .fresh

/-- The process dies between the inserts of two hooks' rows; the transition that is finished after
it passes over the hook without a row. -/
def cutAmongInserts : List Event :=
  [.begins false, .insert, .dies, .resume false, .next 0, .returns .ok 10, .next 20, .next 30]

end Insula.Lifecycle
