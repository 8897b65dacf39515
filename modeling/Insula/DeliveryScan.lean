import Insula.DeliveryRuns
import Mathlib.Data.List.Nodup

/-!
# What the scan finds

The scan selects rows that are `queued` or `failed`. The other status that is not final is
`sending`, and a row leaves it only by the write of the worker that has claimed it: a worker that
stops in between, whose claim took effect and threw, or whose last write throws, leaves its row to
nobody. When no worker does, every row is final, or in the hands of a worker that is alive, or
selected by every scan after its due time.
-/

namespace Insula.Notifications

open Program Concurrent Transition

/-- When a row that is waiting is to be looked at; `none` where that is at once. -/
def Delivery.dueTime (d : Delivery) : Option ℤ :=
  match d.status with
  | .queued => some d.queuedAt
  | .failed => d.nextAttemptAt
  | _ => none

theorem selected_of_waiting {d : Delivery} {rows : List Delivery} (hd : d ∈ rows)
    (hchannel : d.channel ≠ .inApp) (hwaiting : d.status.Waiting) {now : ℤ}
    (hdue : ∀ due ∈ d.dueTime, due + scanLagMs < now)
    (hroom : (candidates now rows).length ≤ maxBatchSize) :
    ∃ key, (d.channel, d.id, key) ∈ reenqueueStuckDeliveries now rows := by
  have hqueue : d.channel = .email ∨ d.channel = .ntfy := by
    cases hc : d.channel with
    | inApp => exact absurd hc hchannel
    | email => exact .inl rfl
    | ntfy => exact .inr rfl
  have hstuck : stuck now d := by
    refine ⟨hqueue, ?_⟩
    rcases hwaiting with hst | hst
    · have hlt := hdue d.queuedAt (by simp [Delivery.dueTime, hst])
      exact .inl ⟨hst, by omega⟩
    · refine .inr ⟨hst, ?_⟩
      intro due hmem
      have hlt := hdue due (by simpa [Delivery.dueTime, hst] using hmem)
      omega
  have hmem : d ∈ (candidates now rows).take maxBatchSize := by
    rw [List.take_of_length_le hroom]
    exact List.mem_filter.mpr ⟨hd, decide_eq_true hstuck⟩
  have hname : (if d.channel = .ntfy then .ntfy else .email) = d.channel := by
    rcases hqueue with hc | hc <;> simp [hc]
  have hjob := List.mem_map_of_mem hmem (f := fun d : Delivery =>
    let minute := now / 60000
    ((if d.channel = .ntfy then .ntfy else .email : Channel), d.id,
      s!"delivery:{d.id}:scan:{minute}:attempt:{d.attempt}"))
  dsimp only at hjob
  rw [hname] at hjob
  exact ⟨_, hjob⟩

/-! ## The invariant -/

/-- A row that is being sent was claimed by a process; rows of the panel are final, and no process
is about one of them. -/
structure Watched (w : World) : Prop where
  keys : (w.rows.map Delivery.id).Nodup
  sending : ∀ d ∈ w.rows, d.status = .sending → ∃ i, (w.stage i).claim = some d.id
  inApp : ∀ d ∈ w.rows, d.channel = .inApp → d.status.Final
  known : ∀ i id, (w.stage i).subject = some id → ∃ d ∈ w.rows, d.id = id ∧ d.channel ≠ .inApp

/-- A claim does not take effect and throw, and in the `catch` the write of the failure does not
throw without effect. -/
def Written (w : World) (i : ℕ) : (o : Op) → Except Thrown (Val o) → Prop
  | .updateDelivery _ .sending, .error e => e.applied = false
  | .updateDelivery _ (.failure ..), .error e =>
    e.applied = false → ∀ id, w.stage i ≠ .caught id ∧ w.stage i ≠ .unmarked id
  | _, _ => True

section Keeps

variable {w m : World} {i : ℕ} {b : Stage} {o : Op}

theorem eq_of_id {d d' : Delivery} (h : Watched w) (hd : d ∈ w.rows) (hd' : d' ∈ w.rows)
    (hid : d.id = d'.id) : d = d' :=
  List.inj_on_of_nodup_map h.keys hd hd' hid

/-- The table stays, and a process keeps its claim. -/
theorem Watched.move (h : Watched w) (hclaim : ∀ id, (w.stage i).claim = some id → b.claim = some id)
    (hsubject : ∀ id, b.subject = some id → ∃ d ∈ w.rows, d.id = id ∧ d.channel ≠ .inApp) :
    Watched { w with stage := Function.update w.stage i b } where
  keys := h.keys
  sending d hd hst := by
    obtain ⟨j, hj⟩ := h.sending d hd hst
    refine ⟨j, ?_⟩
    by_cases hji : j = i
    · subst hji
      simp only [Function.update_self]
      exact hclaim _ hj
    · simpa only [Function.update_of_ne hji] using hj
  inApp := h.inApp
  known j id hj := by
    by_cases hji : j = i
    · subst hji
      simp only [Function.update_self] at hj
      exact hsubject id hj
    · simp only [Function.update_of_ne hji] at hj
      exact h.known j id hj

/-- Only setting a row to `sending` leaves it at that. -/
theorem apply_status_sending {d : Delivery} {u : Update} (h : (d.apply u).status = .sending) :
    u = .sending := by
  cases u with
  | sending => rfl
  | failure decision attempt reason => cases decision <;> cases h
  | _ => cases h

theorem Watched.update (h : Watched w) {id : String} {u : Update}
    (hallowed : (w.stage i).Allowed (.updateDelivery id u))
    (hclaim : u = .sending → b.claim = some id)
    (hown : ∀ id', b.subject = some id' → id' = id) :
    Watched { w with rows := w.update id u, stage := Function.update w.stage i b } := by
  have hsubject := Stage.subject_of_allowed hallowed
  obtain ⟨d₀, hd₀, hid₀, hchannel₀⟩ := h.known i id hsubject
  constructor
  · have hids : (w.update id u).map Delivery.id = w.rows.map Delivery.id := by
      unfold World.update
      rw [List.map_map]
      apply List.map_congr_left
      intro d _
      simp only [Function.comp_apply]
      split <;> simp
    change ((w.update id u).map Delivery.id).Nodup
    rw [hids]
    exact h.keys
  · intro d hd hst
    by_cases hid : d.id = id
    · obtain ⟨d', -, -, rfl⟩ := (w.mem_update_self hid).mp hd
      refine ⟨i, ?_⟩
      simp only [Function.update_self]
      rw [hid]
      exact hclaim (apply_status_sending hst)
    · obtain ⟨j, hj⟩ := h.sending d ((w.mem_update_of_ne hid).mp hd) hst
      have hji : j ≠ i := by
        rintro rfl
        have hsame := (Stage.subject_of_claim hj).symm.trans hsubject
        exact hid (Option.some.inj hsame)
      exact ⟨j, by simpa only [Function.update_of_ne hji] using hj⟩
  · intro d hd hchannel
    by_cases hid : d.id = id
    · obtain ⟨d', hd', hid', rfl⟩ := (w.mem_update_self hid).mp hd
      have heq : d' = d₀ := eq_of_id h hd' hd₀ (hid'.trans hid₀.symm)
      rw [Delivery.apply_channel, heq] at hchannel
      exact absurd hchannel hchannel₀
    · exact h.inApp d ((w.mem_update_of_ne hid).mp hd) hchannel
  · have hkept : ∀ id', (∃ d ∈ w.rows, d.id = id' ∧ d.channel ≠ .inApp) →
        ∃ d ∈ w.update id u, d.id = id' ∧ d.channel ≠ .inApp := by
      rintro id' ⟨d, hd, hid', hchannel⟩
      by_cases hid : d.id = id
      · have hnew : (d.apply u).id = id := by simpa using hid
        refine ⟨d.apply u, (w.mem_update_self hnew).mpr ⟨d, hd, hid, rfl⟩, ?_, ?_⟩
        · simpa using hid'
        · simpa using hchannel
      · exact ⟨d, (w.mem_update_of_ne hid).mpr hd, hid', hchannel⟩
    intro j id' hj
    apply hkept
    by_cases hji : j = i
    · subst hji
      simp only [Function.update_self] at hj
      rw [hown id' hj]
      exact ⟨d₀, hd₀, hid₀, hchannel₀⟩
    · simp only [Function.update_of_ne hji] at hj
      exact h.known j id' hj

theorem Watched.insert (h : Watched w) {d : Delivery} (hfresh : d.id ∉ w.rows.map Delivery.id)
    (hst : d.status ≠ .sending) (hfinal : d.channel = .inApp → d.status.Final) :
    Watched { w with rows := w.rows ++ [d] } where
  keys := by
    simp only [List.map_append, List.map_cons, List.map_nil]
    exact List.nodup_append.mpr
      ⟨h.keys, List.nodup_singleton _, fun a ha b hb hab => hfresh (by simp_all)⟩
  sending d' hd' hst' := by
    rcases List.mem_append.mp hd' with hold | hnew
    · exact h.sending d' hold hst'
    · rw [List.mem_singleton.mp hnew] at hst'
      exact absurd hst' hst
  inApp d' hd' hchannel := by
    rcases List.mem_append.mp hd' with hold | hnew
    · exact h.inApp d' hold hchannel
    · rw [List.mem_singleton.mp hnew] at hchannel ⊢
      exact hfinal hchannel
  known j id hj := by
    obtain ⟨d', hd', hid, hchannel⟩ := h.known j id hj
    exact ⟨d', List.mem_append_left _ hd', hid, hchannel⟩

theorem Stage.claim_failing {b : Stage} (h : ∀ id, b ≠ .caught id ∧ b ≠ .unmarked id) :
    b.failing.claim = b.claim := by
  cases b with
  | caught id => exact absurd rfl (h id).1
  | unmarked id => exact absurd rfl (h id).2
  | _ => rfl

theorem Watched.throwing (h : Watched w) :
    Watched { w with stage := Function.update w.stage i (w.stage i).throwing } := by
  apply h.move
  · rw [Stage.claim_throwing]
    exact fun _ hid => hid
  · rw [Stage.subject_throwing]
    exact h.known i

theorem watched_ok (h : Watched w) {a : Val o} (hallowed : (w.stage i).Allowed o)
    (hm : w.perform o a = some m) (hb : (w.stage i).next o (.ok a) = some b) :
    Watched { m with stage := Function.update w.stage i b } := by
  have hsame : Watched { w with stage := Function.update w.stage i (w.stage i) } :=
    h.move (fun _ hid => hid) (h.known i)
  cases o with
  | findDelivery id =>
    have hidle : w.stage i = .idle := hallowed
    obtain ⟨rfl, rfl | ⟨d, hd, rfl⟩⟩ := w.findDelivery_cases hm hb
    · exact hsame
    · apply h.move
      · intro id' hid'
        rw [hidle] at hid'
        cases hid'
      · intro id' hid'
        simp only [Stage.subject] at hid'
        split_ifs at hid' with hchannel
        exact ⟨d, hd, Option.some.inj hid', hchannel⟩
  | updateDelivery id u =>
    cases hm
    apply h.update hallowed
    · rintro rfl
      cases hb
      rfl
    · intro id' hid'
      cases u <;> cases hb <;> first | exact (Option.some.inj hid').symm | cases hid'
  | insertDelivery d =>
    simp only [World.perform, World.effect] at hm
    split_ifs at hm with hfresh
    cases hm
    cases hb
    exact hsame.insert hfresh.1 hallowed.2.1 hallowed.2.2
  | send id recipient =>
    have hstage : w.stage i = .claimed id := hallowed
    cases hm
    cases hb
    have hmoved : Watched { w with stage := Function.update w.stage i (.handed id) } := by
      apply h.move
      · intro id' hid'
        rw [hstage] at hid'
        exact hid'
      · intro id' hid'
        apply h.known i
        rw [hstage]
        exact hid'
    exact ⟨hmoved.keys, hmoved.sending, hmoved.inApp, hmoved.known⟩
  | _ =>
    cases hm
    cases hb
    exact hsame

/-- A statement that throws without effect. -/
theorem watched_threw (h : Watched w) {e : Thrown} (hthrew : e.applied = false)
    (hb : (w.stage i).next o (.error e) = some b) (hok : Written w i o (.error e)) :
    Watched { w with stage := Function.update w.stage i b } := by
  have hsame : Watched { w with stage := Function.update w.stage i (w.stage i) } :=
    h.move (fun _ hid => hid) (h.known i)
  cases o with
  | updateDelivery id u =>
    cases u with
    | failure decision attempt reason =>
      simp only [Stage.next, hthrew, Bool.false_eq_true, if_false, Option.some.injEq] at hb
      subst hb
      apply h.move
      · rw [Stage.claim_failing (hok hthrew)]
        exact fun _ hid => hid
      · rw [Stage.subject_failing]
        exact h.known i
    | _ =>
      simp only [Stage.next, hthrew, Bool.false_eq_true, if_false, Option.some.injEq] at hb
      exact hb ▸ h.throwing
  | send id recipient =>
    simp only [Stage.next, hthrew, Bool.false_eq_true, if_false, Option.some.injEq] at hb
    exact hb ▸ h.throwing
  | getTemplate templateId =>
    cases hb
    exact hsame
  | decrypt secret =>
    cases hb
    exact hsame
  | now => cases hb
  | randomUUID => cases hb
  | _ =>
    cases hb
    exact h.throwing

theorem watched_lost (h : Watched w) {e : Thrown} (hlost : e.applied = true)
    (hallowed : (w.stage i).Allowed o) (hm : w.effect o = some m)
    (hb : (w.stage i).next o (.error e) = some b) (hok : Written w i o (.error e)) :
    Watched { m with stage := Function.update w.stage i b } := by
  have hsame : Watched { w with stage := Function.update w.stage i (w.stage i) } :=
    h.move (fun _ hid => hid) (h.known i)
  cases o with
  | updateDelivery id u =>
    cases hm
    have hstage : b = Stage.unanswered id u := by
      cases u <;> simpa [Stage.next, hlost] using hb.symm
    subst hstage
    apply h.update hallowed
    · rintro rfl
      have hthrew : e.applied = false := hok
      rw [hlost] at hthrew
      cases hthrew
    · intro id' hid'
      rw [Stage.subject_unanswered] at hid'
      exact (Option.some.inj hid').symm
  | send id recipient =>
    have hstage : w.stage i = .claimed id := hallowed
    simp only [Stage.next, hlost, if_true, Option.some.injEq] at hb
    subst hb
    cases hm
    have hmoved : Watched { w with stage := Function.update w.stage i (.unmarked id) } := by
      apply h.move
      · intro id' hid'
        rw [hstage] at hid'
        exact hid'
      · intro id' hid'
        apply h.known i
        rw [hstage]
        exact hid'
    exact ⟨hmoved.keys, hmoved.sending, hmoved.inApp, hmoved.known⟩
  | insertDelivery d =>
    simp only [World.effect] at hm
    split_ifs at hm with hfresh
    cases hm
    cases hb
    exact h.throwing.insert hfresh.1 hallowed.2.1 hallowed.2.2
  | getTemplate templateId =>
    cases hm
    cases hb
    exact hsame
  | decrypt secret =>
    cases hm
    cases hb
    exact hsame
  | now => cases hb
  | randomUUID => cases hb
  | _ =>
    cases hm
    cases hb
    exact h.throwing

theorem watched_act (h : Watched w) {r : Except Thrown (Val o)} (hallowed : (w.stage i).Allowed o)
    (hm : w.respond o r = some m) (hb : (w.stage i).next o r = some b) (hok : Written w i o r) :
    Watched { m with stage := Function.update w.stage i b } := by
  cases r with
  | ok a => exact watched_ok h hallowed hm hb
  | error e =>
    rcases w.respond_error hm with ⟨hthrew, rfl⟩ | ⟨hlost, hm⟩
    · exact watched_threw h hthrew hb hok
    · exact watched_lost h hlost hallowed hm hb hok

end Keeps

/-! ## Runs -/

section Runs

variable {encryptionKey : Option String} {s t : Deliveries}

/-- No process stops between its claim and the write of what came of it, the claim is answered when
it takes effect, and in the `catch` that write takes effect. -/
def KeepsClaims (s : Deliveries) (e : Happening) (_ : Deliveries) : Prop :=
  match e with
  | .act i o r => Written s.world i o r
  | .crash i => (s.world.stage i).claim = none
  | .spawn _ => True

/-- A process that has claimed a row has not stopped. -/
def Alive (s : Deliveries) : Prop :=
  ∀ i id, (s.world.stage i).claim = some id → ∃ kind p, s.procs[i]? = some ⟨kind, some p⟩

/-- Nothing has begun. The rows have distinct ids, those of the panel are final, and none is being
sent. -/
structure TableAtStart (s : Deliveries) : Prop where
  procs : s.procs = []
  stage : ∀ i, s.world.stage i = .idle
  keys : (s.world.rows.map Delivery.id).Nodup
  sending : ∀ d ∈ s.world.rows, d.status ≠ .sending
  inApp : ∀ d ∈ s.world.rows, d.channel = .inApp → d.status.Final

theorem TableAtStart.holds (h : TableAtStart s) : OnTrack s :=
  holds_of_start h.procs h.stage

theorem TableAtStart.watched (h : TableAtStart s) : Watched s.world where
  keys := h.keys
  sending d hd hst := absurd hst (h.sending d hd)
  inApp := h.inApp
  known i id hi := by simp [h.stage, Stage.subject] at hi

theorem TableAtStart.alive (h : TableAtStart s) : Alive s := by
  intro i id hi
  simp [h.stage, Stage.claim] at hi

theorem step_alive {e : Happening} (h : Alive s)
    (hs : Concurrent.step (Kind.run encryptionKey) handle s e = some t) (hok : KeepsClaims s e t) :
    Alive t := by
  rcases step_cases (Kind.run encryptionKey) handle hs with ⟨kind, rfl, rfl⟩ |
    ⟨i, o, r, kind, next, w, rfl, hi, hw, rfl⟩ | ⟨i, o, kind, next, rfl, hi, rfl⟩
  · intro j id hj
    obtain ⟨kind', p, hp⟩ := h j id hj
    exact ⟨kind', p, Lookup.getElem?_concat_eq_some.mpr (.inl hp)⟩
  · intro j id hj
    obtain ⟨m, b, -, -, rfl⟩ := handle_eq_some.mp hw
    by_cases hji : j = i
    · subst hji
      exact ⟨kind, next r, Lookup.getElem?_set_eq_some.mpr
        (.inl ⟨rfl, Lookup.lt_length_of_getElem? hi, rfl⟩)⟩
    · simp only [Function.update_of_ne hji] at hj
      obtain ⟨kind', p, hp⟩ := h j id hj
      exact ⟨kind', p, Lookup.getElem?_set_eq_some.mpr (.inr ⟨Ne.symm hji, hp⟩)⟩
  · intro j id hj
    have hji : j ≠ i := by
      rintro rfl
      have hnone : (s.world.stage j).claim = none := hok
      rw [hnone] at hj
      cases hj
    obtain ⟨kind', p, hp⟩ := h j id hj
    exact ⟨kind', p, Lookup.getElem?_set_eq_some.mpr (.inr ⟨Ne.symm hji, hp⟩)⟩

theorem step_watched {e : Happening} (h : OnTrack s) (hw : Watched s.world)
    (hs : Concurrent.step (Kind.run encryptionKey) handle s e = some t) (hok : KeepsClaims s e t) :
    Watched t.world := by
  rcases world_step h hs with heq | ⟨i, o, r, m, b, rfl, hallowed, hm, hb, heq⟩
  · rw [heq]
    exact hw
  · rw [heq]
    exact watched_act hw hallowed hm hb hok

theorem not_ended (h : OnTrack s) (halive : Alive s) {i : ℕ} {id : String}
    (hclaim : (s.world.stage i).claim = some id) :
    ∃ kind o next, s.procs[i]? = some ⟨kind, some (.call o next)⟩ := by
  obtain ⟨kind, p, hp⟩ := halive i id hclaim
  cases p with
  | pure a =>
    have hends : (s.world.stage i).claim = none := h.2 i kind _ hp
    rw [hends] at hclaim
    cases hclaim
  | call o next => exact ⟨kind, o, next, hp⟩

/-- Wherever the processes stop: when none does between its claim and the write of what came of it,
every row is final, or claimed by a process that has something left to do, or selected by every scan
after its due time and the lag. -/
theorem no_delivery_is_stranded (hstart : TableAtStart s) {es : List Happening}
    (hok : Along (Concurrent.step (Kind.run encryptionKey) handle) KeepsClaims s es)
    (h : exec (Concurrent.step (Kind.run encryptionKey) handle) s es = some t) {d : Delivery}
    (hd : d ∈ t.world.rows) : d.status.Final ∨
      (∃ (i : ℕ) (kind : Kind) (o : Op) (next : Except Thrown (Val o) → _),
        t.procs[i]? = some ⟨kind, some (.call o next)⟩ ∧ (t.world.stage i).claim = some d.id) ∨
      ∀ now, (∀ due ∈ d.dueTime, due + scanLagMs < now) →
        (candidates now t.world.rows).length ≤ maxBatchSize →
        ∃ key, (d.channel, d.id, key) ∈ reenqueueStuckDeliveries now t.world.rows := by
  have hinv : OnTrack t ∧ Watched t.world ∧ Alive t := by
    refine exec_invariant_along _ (I := fun s => OnTrack s ∧ Watched s.world ∧ Alive s)
      ?_ ⟨hstart.holds, hstart.watched, hstart.alive⟩ hok h
    rintro a e c ⟨hholds, hwatched, halive⟩ hstep hkeeps
    exact ⟨onTrack_step hholds hstep, step_watched hholds hwatched hstep hkeeps,
      step_alive halive hstep hkeeps⟩
  obtain ⟨hholds, hwatched, halive⟩ := hinv
  have hselected : d.status.Waiting → ∀ now, (∀ due ∈ d.dueTime, due + scanLagMs < now) →
      (candidates now t.world.rows).length ≤ maxBatchSize →
      ∃ key, (d.channel, d.id, key) ∈ reenqueueStuckDeliveries now t.world.rows := by
    intro hwaiting now hdue hroom
    refine selected_of_waiting hd ?_ hwaiting hdue hroom
    intro hchannel
    have hfinal := hwatched.inApp d hd hchannel
    rcases hwaiting with hst | hst <;> simp [DeliveryStatus.Final, hst] at hfinal
  cases hst : d.status with
  | queued => exact .inr (.inr (hselected (.inl hst)))
  | failed => exact .inr (.inr (hselected (.inr hst)))
  | sending =>
    obtain ⟨i, hclaim⟩ := hwatched.sending d hd hst
    obtain ⟨kind, o, next, hp⟩ := not_ended hholds halive hclaim
    exact .inr (.inl ⟨i, kind, o, next, hp, hclaim⟩)
  | sent => exact .inl (.inl rfl)
  | dlq => exact .inl (.inr (.inl rfl))
  | muted => exact .inl (.inr (.inr (.inl rfl)))
  | skipped => exact .inl (.inr (.inr (.inr (.inl rfl))))
  | rateLimited => exact .inl (.inr (.inr (.inr (.inr rfl))))

end Runs

/-! ## A worker that stops -/

def emptyTable : Deliveries where
  world := { rows := [], handedOver := [], stage := fun _ => .idle }
  procs := []

theorem emptyTable_atStart : TableAtStart emptyTable where
  procs := rfl
  stage _ := rfl
  keys := List.nodup_nil
  sending d hd := by cases hd
  inApp d hd := by cases hd

def quotaLeg : Leg := .external "owner@example.test" "mailbox.quota" "tpl-1"

def claimedJob : List Happening :=
  [.spawn (.emit quotaLeg none),
    .act 0 .randomUUID (.ok "dlv-1"),
    .act 0 .now (.ok (0 : ℤ)),
    .act 0 (.insertDelivery (quotaLeg.delivery "dlv-1" 0 none)) (.ok ()),
    .act 0 (.enqueueDelivery "dlv-1" ⟨none, none⟩) (.ok ()),
    .spawn (.job "dlv-1"),
    .act 1 (.findDelivery "dlv-1") (.ok (some (quotaLeg.delivery "dlv-1" 0 none))),
    .act 1 (.updateDelivery "dlv-1" .sending) (.ok ())]

def stoppedJob : List Happening := claimedJob ++ [.crash 1]

def stoppedRow : Delivery := (quotaLeg.delivery "dlv-1" 0 none).apply .sending

theorem delivery_is_stranded : ¬ ∀ (s t : Deliveries) (es : List Happening), TableAtStart s →
      exec (Concurrent.step (Kind.run (some "key")) handle) s es = some t → ∀ d ∈ t.world.rows,
        d.status.Final ∨ (∃ (i : ℕ) (kind : Kind) (o : Op) (next : Except Thrown (Val o) → _),
            t.procs[i]? = some ⟨kind, some (.call o next)⟩ ∧ (t.world.stage i).claim = some d.id) ∨
          ∀ now, (∀ due ∈ d.dueTime, due + scanLagMs < now) →
            (candidates now t.world.rows).length ≤ maxBatchSize →
            ∃ key, (d.channel, d.id, key) ∈ reenqueueStuckDeliveries now t.world.rows := by
  intro hall
  have hrun : ∃ t : Deliveries,
      exec (Concurrent.step (Kind.run (some "key")) handle) emptyTable stoppedJob = some t ∧
      t.world.rows = [stoppedRow] ∧
      t.procs = [⟨.emit quotaLeg none, some (.pure (.ok .emitted))⟩, ⟨.job "dlv-1", none⟩] :=
    ⟨_, rfl, rfl, rfl⟩
  obtain ⟨t, ht, hrows, hprocs⟩ := hrun
  have hmem : stoppedRow ∈ t.world.rows := by simp [hrows]
  rcases hall emptyTable t stoppedJob emptyTable_atStart ht stoppedRow hmem with
    hfinal | ⟨i, kind, o, next, hp, -⟩ | hscan
  · revert hfinal
    decide
  · rw [hprocs] at hp
    match i, hp with
    | 0, hp => cases hp
    | 1, hp => cases hp
  · have hnone : candidates 0 t.world.rows = [] := by
      rw [hrows]
      decide
    obtain ⟨key, hkey⟩ := hscan 0 (fun due hdue => by cases hdue) (by simp [hnone])
    simp [reenqueueStuckDeliveries, hnone] at hkey

theorem no_delivery_is_stranded_claimed : ∃ t : Deliveries,
      exec (Concurrent.step (Kind.run (some "key")) handle) emptyTable claimedJob = some t ∧
      (stoppedRow.status.Final ∨
        (∃ (i : ℕ) (kind : Kind) (o : Op) (next : Except Thrown (Val o) → _),
          t.procs[i]? = some ⟨kind, some (.call o next)⟩ ∧
            (t.world.stage i).claim = some stoppedRow.id) ∨
        ∀ now, (∀ due ∈ stoppedRow.dueTime, due + scanLagMs < now) →
          (candidates now t.world.rows).length ≤ maxBatchSize →
          ∃ key, (stoppedRow.channel, stoppedRow.id, key) ∈
            reenqueueStuckDeliveries now t.world.rows) := by
  have hok : Along (Concurrent.step (Kind.run (some "key")) handle) KeepsClaims
      emptyTable claimedJob := by
    apply along_of_forall
    intro e he s s'
    simp only [claimedJob, List.mem_cons, List.not_mem_nil, or_false] at he
    rcases he with rfl | rfl | rfl | rfl | rfl | rfl | rfl | rfl <;> trivial
  have hmem : stoppedRow ∈ [stoppedRow] := List.mem_singleton.mpr rfl
  exact ⟨_, rfl, no_delivery_is_stranded emptyTable_atStart hok rfl hmem⟩

end Insula.Notifications
