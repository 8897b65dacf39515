import Insula.Lookup
import Insula.LeasedRun

/-!
# What holds of the calls in every reachable state

`WellFormed` ties the calls, the statements they have sent and the processes' `inFlight` sets
together, whatever the order of events: a call that has not been freed has its job in flight, so a
process has at most one such call, its latest; and a DELETE belongs to a run lock whose run is over.
-/

namespace Insula.LeasedRun

open SchedulerLease Transition Lookup

structure WellFormed (s : Replicas) : Prop where
  inFlight_of_open : ∀ (i : ℕ) (c : Call), s.calls[i]? = some c → c.freed = false →
    s.inFlight c.holder = true
  freed_of_lt : ∀ (i j : ℕ) (c d : Call), s.calls[i]? = some c → s.calls[j]? = some d → i < j →
    c.holder = d.holder → c.freed = true
  open_of_running : ∀ (i : ℕ) (c : Call), s.calls[i]? = some c → c.phase = .running →
    c.freed = false
  open_of_claiming : ∀ (i : ℕ) (c : Call) (k : ℕ), s.calls[i]? = some c →
    c.phase = .claiming k → c.freed = false
  claim_sent : ∀ (i : ℕ) (c : Call) (k : ℕ), s.calls[i]? = some c → c.phase = .claiming k →
    ∃ m, s.sent[k]? = some m ∧ m.kind = .claim i ∧ m.holder = c.holder
  release_of_lettingGo : ∀ (i : ℕ) (c : Call) (p : List ℕ), s.calls[i]? = some c →
    c.phase = .lettingGo p → c.release = true
  delete_of_sent : ∀ (k : ℕ) (m : Sent) (i : ℕ), s.sent[k]? = some m → m.kind = .delete i →
    ∃ c, s.calls[i]? = some c ∧ c.holder = m.holder ∧ c.release = true ∧
      (c.phase = .writing (some k) ∨ (c.phase = .settled ∧ m.status ≠ .travelling))

theorem wellFormed_initial (now : ℤ) (row : Option SettingValue) :
    WellFormed (initial now row) := by
  constructor <;> simp [initial]

@[simp] theorem landStatement_calls (s : Replicas) (k : ℕ) (m : Sent) :
    (landStatement s k m).calls = s.calls := by
  unfold landStatement
  split <;> rfl

@[simp] theorem landStatement_inFlight (s : Replicas) (k : ℕ) (m : Sent) :
    (landStatement s k m).inFlight = s.inFlight := by
  unfold landStatement
  split <;> rfl

@[simp] theorem landStatement_now (s : Replicas) (k : ℕ) (m : Sent) :
    (landStatement s k m).now = s.now := by
  unfold landStatement
  split <;> rfl

theorem landStatement_sent (s : Replicas) (k : ℕ) (m : Sent) :
    ∃ ok, (landStatement s k m).sent = s.sent.set k { m with status := .landed ok } := by
  unfold landStatement
  split
  · exact ⟨true, rfl⟩
  · exact ⟨_, rfl⟩

variable {s : Replicas}

theorem answered_eq_true {k : ℕ} {m : Sent} (hm : s.sent[k]? = some m) (h : s.answered k = true) :
    m.status ≠ .travelling := by
  simpa [Replicas.answered, hm] using h

theorem answeredOpt_some {k : ℕ} {m : Sent} (hm : s.sent[k]? = some m)
    (h : s.answeredOpt (some k) = true) : m.status ≠ .travelling :=
  answered_eq_true hm (by simpa [Replicas.answeredOpt] using h)

/-- What an event does, where it can happen. -/
inductive Steps (s : Replicas) : Event → Replicas → Prop
  | passTime (d : ℕ) : Steps s (.passTime d) { s with now := s.now + d }
  | call (holder : String) (ttlMs : ℚ) (release : Bool) :
    Steps s (.call holder ttlMs release) (callStep s holder ttlMs release)
  | land {k : ℕ} {m : Sent} (hm : s.sent[k]? = some m) (hst : m.status = .travelling) :
    Steps s (.land k) (landStatement s k m)
  | landUnheard {k : ℕ} {m : Sent} (hm : s.sent[k]? = some m) (hst : m.status = .travelling) :
    Steps s (.landUnheard k) ((landStatement s k m).setStatus k m .unheard)
  | lose {k : ℕ} {m : Sent} (hm : s.sent[k]? = some m) : Steps s (.lose k) (s.setStatus k m .failed)
  | answer {i : ℕ} {c : Call} {s' : Replicas} (hc : s.calls[i]? = some c)
    (hs : answerStep s i c = some s') : Steps s (.answer i) s'
  | renew {i : ℕ} {c : Call} (hc : s.calls[i]? = some c) (hp : c.phase = .running) :
    Steps s (.renew i) ((s.setCall i { c with renewing := some s.sent.length }).send
      ⟨c.holder, .renewal i, c.ttlMs, .travelling⟩)
  | finish {i : ℕ} {c : Call} (hc : s.calls[i]? = some c) (hp : c.phase = .running) :
    Steps s (.finish i) (s.setCall i { c with phase := .settling, inProgress := false })
  | giveUp {i : ℕ} {c : Call} (hc : s.calls[i]? = some c) (hp : c.phase = .running) :
    Steps s (.giveUp i) (s.setCall i { c with phase := .settling, inProgress := true })
  | endLate {i : ℕ} {c : Call} (hc : s.calls[i]? = some c) (hp : c.phase ≠ .running) :
    Steps s (.endLate i) (s.setCall i { c with inProgress := false })
  | afterRun {i : ℕ} {c : Call} {clock : ℚ} {s' : Replicas} (hc : s.calls[i]? = some c)
    (hs : afterRunStep s i c clock = some s') : Steps s (.afterRun i clock) s'
  | sendDelete {i : ℕ} {c : Call} {s' : Replicas} (hc : s.calls[i]? = some c)
    (hs : sendDeleteStep s i c = some s') : Steps s (.sendDelete i) s'
  | settleDone {i : ℕ} {c : Call} {s' : Replicas} (hc : s.calls[i]? = some c)
    (hs : settleDoneStep s i c = some s') : Steps s (.settleDone i) s'
  | settleTimeout {i : ℕ} {c : Call} (hc : s.calls[i]? = some c) (hp : c.phase.isSettling = true)
    (hfreed : c.freed = false) :
    Steps s (.settleTimeout i) ((s.setInFlight c.holder false).setCall i { c with freed := true })
  | keepAliveTick {holder : String} {clock : ℚ} {s' : Replicas}
    (hs : keepAliveStep s holder clock = some s') : Steps s (.keepAliveTick holder clock) s'
  | keepAliveAnswer {k : ℕ} {m : Sent} {s' : Replicas} (hs : keepAliveAnswerStep s m = some s') :
    Steps s (.keepAliveAnswer k) s'

theorem steps_of_step {s' : Replicas} {e : Event} (hs : step s e = some s') : Steps s e s' := by
  cases e with
  | passTime d =>
    cases hs
    exact .passTime d
  | call holder ttlMs release =>
    cases hs
    exact .call holder ttlMs release
  | keepAliveTick holder clock => exact .keepAliveTick hs
  | _ =>
    obtain ⟨x, hx, hs⟩ := Option.bind_eq_some_iff.mp hs
    first
      | exact .answer hx hs
      | exact .afterRun hx hs
      | exact .sendDelete hx hs
      | exact .settleDone hx hs
      | exact .keepAliveAnswer hs
      | obtain ⟨hp, hs⟩ := Option.ite_none_right_eq_some.mp hs
        cases hs
        first
          | exact .land hx hp
          | exact .landUnheard hx hp
          | exact .lose hx
          | exact .renew hx hp
          | exact .finish hx hp
          | exact .giveUp hx hp
          | exact .endLate hx hp.1
          | exact .settleTimeout hx hp.1 hp.2

namespace WellFormed

variable {s s' : Replicas} {m : Sent} {i : ℕ} {c : Call}

/-- Answering or losing a statement changes its status only. -/
theorem setStatus (h : WellFormed s) {k : ℕ} (hm : s.sent[k]? = some m) {t : Status}
    (hst : t ≠ .travelling) (hcalls : s'.calls = s.calls) (hin : s'.inFlight = s.inFlight)
    (hsent : s'.sent = s.sent.set k { m with status := t }) : WellFormed s' := by
  obtain ⟨h₁, h₂, h₃, h₄, h₅, h₆, h₇⟩ := h
  refine ⟨?_, ?_, ?_, ?_, ?_, ?_, ?_⟩ <;> rw [hcalls] <;> try rw [hin]
  all_goals try assumption
  · intro i c k' hc hp
    obtain ⟨m', hm', hk, hh⟩ := h₅ i c k' hc hp
    rw [hsent]
    by_cases hkk : k = k'
    · subst hkk
      cases hm.symm.trans hm'
      refine ⟨_, getElem?_set_eq_some.mpr (Or.inl ⟨rfl, lt_length_of_getElem? hm, rfl⟩), hk, hh⟩
    · exact ⟨m', getElem?_set_eq_some.mpr (Or.inr ⟨hkk, hm'⟩), hk, hh⟩
  · intro k' m' i hm' hk
    rw [hsent, getElem?_set_eq_some] at hm'
    rcases hm' with ⟨rfl, -, rfl⟩ | ⟨-, hm'⟩
    · obtain ⟨c, hc, hh, hr, hp⟩ := h₇ k m i hm hk
      refine ⟨c, hc, hh, hr, hp.imp id (fun hp => ⟨hp.1, hst⟩)⟩
    · exact h₇ k' m' i hm' hk

/-- One call moves on: what the new record of it must satisfy. -/
theorem setCall (h : WellFormed s) (hc : s.calls[i]? = some c) (c' : Call)
    (hholder : c'.holder = c.holder) (hrelease : c'.release = c.release)
    (hfreed : c.freed = true → c'.freed = true) (hrun : c'.phase = .running → c'.freed = false)
    (hclaim : ∀ k, c'.phase = .claiming k → c.phase = .claiming k ∧ c'.freed = false)
    (hgo : ∀ p, c'.phase = .lettingGo p → c.release = true)
    (hdel : ∀ k m, s.sent[k]? = some m → m.kind = .delete i →
      c'.phase = .writing (some k) ∨ (c'.phase = .settled ∧ m.status ≠ .travelling))
    (hcalls : s'.calls = s.calls.set i c') (hsent : s'.sent = s.sent)
    (hin : ∀ p, p ≠ c.holder ∨ c.freed = true → s'.inFlight p = s.inFlight p)
    (hin' : c'.freed = false → s'.inFlight c.holder = true) : WellFormed s' := by
  constructor
  · intro j d hd ho
    rw [hcalls, getElem?_set_eq_some] at hd
    rcases hd with ⟨rfl, -, rfl⟩ | ⟨hij, hd⟩
    · rw [hholder]
      exact hin' ho
    · rw [hin]
      · exact h.inFlight_of_open j d hd ho
      · by_cases hp : d.holder = c.holder
        · right
          rcases Nat.lt_or_gt_of_ne hij with hlt | hgt
          · exact h.freed_of_lt i j c d hc hd hlt hp.symm
          · rw [h.freed_of_lt j i d c hd hc hgt hp] at ho
            cases ho
        · exact Or.inl hp
  · intro j₁ j₂ d₁ d₂ hd₁ hd₂ hlt hp
    rw [hcalls, getElem?_set_eq_some] at hd₁ hd₂
    rcases hd₁ with ⟨rfl, -, rfl⟩ | ⟨hij₁, hd₁⟩ <;> rcases hd₂ with ⟨rfl, -, rfl⟩ | ⟨hij₂, hd₂⟩
    · exact absurd hlt (lt_irrefl _)
    · exact hfreed (h.freed_of_lt i j₂ c d₂ hc hd₂ hlt (hholder.symm.trans hp))
    · exact h.freed_of_lt j₁ i d₁ c hd₁ hc hlt (hp.trans hholder)
    · exact h.freed_of_lt j₁ j₂ d₁ d₂ hd₁ hd₂ hlt hp
  · intro j d hd hp
    rw [hcalls, getElem?_set_eq_some] at hd
    rcases hd with ⟨rfl, -, rfl⟩ | ⟨-, hd⟩
    · exact hrun hp
    · exact h.open_of_running j d hd hp
  · intro j d k hd hp
    rw [hcalls, getElem?_set_eq_some] at hd
    rcases hd with ⟨rfl, -, rfl⟩ | ⟨-, hd⟩
    · exact (hclaim k hp).2
    · exact h.open_of_claiming j d k hd hp
  · intro j d k hd hp
    rw [hcalls, getElem?_set_eq_some] at hd
    rw [hsent]
    rcases hd with ⟨rfl, -, rfl⟩ | ⟨-, hd⟩
    · rw [hholder]
      exact h.claim_sent i c k hc (hclaim k hp).1
    · exact h.claim_sent j d k hd hp
  · intro j d p hd hp
    rw [hcalls, getElem?_set_eq_some] at hd
    rcases hd with ⟨rfl, -, rfl⟩ | ⟨-, hd⟩
    · rw [hrelease]
      exact hgo p hp
    · exact h.release_of_lettingGo j d p hd hp
  · intro k m j hm hk
    rw [hsent] at hm
    obtain ⟨d, hd, hh, hr, hp⟩ := h.delete_of_sent k m j hm hk
    rw [hcalls]
    by_cases hij : i = j
    · subst hij
      cases hc.symm.trans hd
      exact ⟨c', getElem?_set_eq_some.mpr (Or.inl ⟨rfl, lt_length_of_getElem? hc, rfl⟩),
        hholder.trans hh, hrelease.trans hr, hdel k m hm hk⟩
    · exact ⟨d, getElem?_set_eq_some.mpr (Or.inr ⟨hij, hd⟩), hh, hr, hp⟩

/-- A statement is sent; a DELETE by the call that awaits it. -/
theorem send (h : WellFormed s)
    (hdel : ∀ i, m.kind = .delete i → ∃ c, s.calls[i]? = some c ∧ c.holder = m.holder ∧
      c.release = true ∧ c.phase = .writing (some s.sent.length)) : WellFormed (s.send m) := by
  obtain ⟨h₁, h₂, h₃, h₄, h₅, h₆, h₇⟩ := h
  refine ⟨h₁, h₂, h₃, h₄, ?_, h₆, ?_⟩
  · intro i c k hc hp
    obtain ⟨m', hm', hk, hh⟩ := h₅ i c k hc hp
    exact ⟨m', getElem?_concat_eq_some.mpr (Or.inl hm'), hk, hh⟩
  · intro k m' i hm' hk
    rcases getElem?_concat_eq_some.mp hm' with hm' | ⟨rfl, rfl⟩
    · exact h₇ k m' i hm' hk
    · obtain ⟨c, hc, hh, hr, hp⟩ := hdel i hk
      exact ⟨c, hc, hh, hr, Or.inl hp⟩

theorem no_delete (h : WellFormed s) (hc : s.calls[i]? = some c)
    (hp : ∀ k, c.phase ≠ .writing (some k)) (hs : c.phase ≠ .settled) {k : ℕ}
    (hm : s.sent[k]? = some m) : m.kind ≠ .delete i := by
  intro hk
  obtain ⟨d, hd, -, -, hd'⟩ := h.delete_of_sent k m i hm hk
  cases hc.symm.trans hd
  rcases hd' with hd' | ⟨hd', -⟩
  · exact hp k hd'
  · exact hs hd'

theorem index_unique (h : WellFormed s) {j : ℕ} {d : Call} (hc : s.calls[i]? = some c)
    (hd : s.calls[j]? = some d) (hco : c.freed = false) (hdo : d.freed = false)
    (hholder : c.holder = d.holder) : i = j := by
  rcases Nat.lt_trichotomy i j with hlt | heq | hgt
  · rw [h.freed_of_lt i j c d hc hd hlt hholder] at hco
    cases hco
  · exact heq
  · rw [h.freed_of_lt j i d c hd hc hgt hholder.symm] at hdo
    cases hdo

theorem call (h : WellFormed s) (holder : String) (ttlMs : ℚ) (release : Bool) :
    WellFormed (callStep s holder ttlMs release) := by
  unfold callStep
  split_ifs with hf
  · exact h
  obtain ⟨h₁, h₂, h₃, h₄, h₅, h₆, h₇⟩ := h
  refine ⟨?_, ?_, ?_, ?_, ?_, ?_, ?_⟩
  · intro i c hc ho
    change Function.update s.inFlight holder true c.holder = true
    by_cases hp : c.holder = holder
    · rw [hp, Function.update_self]
    · rw [Function.update_of_ne hp]
      rcases getElem?_concat_eq_some.mp hc with hc | ⟨-, rfl⟩
      · exact h₁ i c hc ho
      · exact absurd rfl hp
  · intro i j c d hc hd hlt hp
    rcases getElem?_concat_eq_some.mp hc with hc | ⟨rfl, rfl⟩ <;>
      rcases getElem?_concat_eq_some.mp hd with hd | ⟨rfl, rfl⟩
    · exact h₂ i j c d hc hd hlt hp
    · by_contra ho
      have hin := h₁ i c hc (by simpa using ho)
      rw [hp] at hin
      exact hf hin
    · exact absurd (lt_length_of_getElem? hd) (by omega)
    · omega
  · intro i c hc hp
    rcases getElem?_concat_eq_some.mp hc with hc | ⟨rfl, rfl⟩
    · exact h₃ i c hc hp
    · rfl
  · intro i c k hc hp
    rcases getElem?_concat_eq_some.mp hc with hc | ⟨rfl, rfl⟩
    · exact h₄ i c k hc hp
    · rfl
  · intro i c k hc hp
    rcases getElem?_concat_eq_some.mp hc with hc | ⟨rfl, rfl⟩
    · obtain ⟨m, hm, hk, hh⟩ := h₅ i c k hc hp
      exact ⟨m, getElem?_concat_eq_some.mpr (Or.inl hm), hk, hh⟩
    · cases hp
      exact ⟨_, getElem?_concat_eq_some.mpr (Or.inr ⟨rfl, rfl⟩), rfl, rfl⟩
  · intro i c p hc hp
    rcases getElem?_concat_eq_some.mp hc with hc | ⟨rfl, rfl⟩
    · exact h₆ i c p hc hp
    · cases hp
  · intro k m i hm hk
    rcases getElem?_concat_eq_some.mp hm with hm | ⟨rfl, rfl⟩
    · obtain ⟨c, hc, hh⟩ := h₇ k m i hm hk
      exact ⟨c, getElem?_concat_eq_some.mpr (Or.inl hc), hh⟩
    · cases hk

/-- A state that differs in the timers and the keep-alive entries only. -/
theorem congr (h : WellFormed s) (hcalls : s'.calls = s.calls) (hsent : s'.sent = s.sent)
    (hin : s'.inFlight = s.inFlight) : WellFormed s' := by
  obtain ⟨h₁, h₂, h₃, h₄, h₅, h₆, h₇⟩ := h
  constructor <;> simpa only [hcalls, hsent, hin]

/-- A call that stays open moves to a phase that has no DELETE yet. -/
theorem advance (h : WellFormed s) (hc : s.calls[i]? = some c) (c' : Call)
    (hp : ∀ k, c.phase ≠ .writing (some k)) (hsd : c.phase ≠ .settled)
    (hholder : c'.holder = c.holder) (hrelease : c'.release = c.release)
    (hfreed : c'.freed = c.freed) (hrun : c'.phase = .running → c.freed = false)
    (hclaim : ∀ k, c'.phase ≠ .claiming k) (hgo : ∀ p, c'.phase = .lettingGo p → c.release = true) :
    WellFormed (s.setCall i c') := by
  refine h.setCall hc c' hholder hrelease (fun hf => hfreed.trans hf)
    (fun hr => hfreed.trans (hrun hr)) (fun k hk => absurd hk (hclaim k)) hgo ?_ rfl rfl
    (fun _ _ => rfl) ?_
  · intro k m hm hk
    exact absurd hk (h.no_delete hc hp hsd hm)
  · intro ho
    exact h.inFlight_of_open i c hc (hfreed.symm.trans ho)

theorem answer (h : WellFormed s) (hc : s.calls[i]? = some c) (hs : answerStep s i c = some s') :
    WellFormed s' := by
  unfold answerStep at hs
  split at hs
  case h_1 k hp =>
    have hopen := h.open_of_claiming i c k hc hp
    have hfree : ∀ {t : Replicas}, some ((s.setInFlight c.holder false).setCall i
        { c with phase := .refused, freed := true }) = some t → WellFormed t := by
      intro t ht
      cases ht
      refine h.setCall hc { c with phase := .refused, freed := true } rfl rfl
        (fun _ => rfl) nofun nofun nofun ?_ rfl rfl ?_ nofun
      · intro k' m hm hk
        exact absurd hk (h.no_delete hc (by simp [hp]) (by simp [hp]) hm)
      · rintro p (hne | hf)
        · exact Function.update_of_ne hne _ _
        · rw [hopen] at hf
          cases hf
    split at hs
    · cases hs
      exact h.advance hc _ (by simp [hp]) (by simp [hp]) rfl rfl rfl (fun _ => hopen) nofun nofun
    · exact hfree hs
    · exact hfree hs
    · exact hfree hs
    · cases hs
  case h_2 => cases hs

theorem endLate (h : WellFormed s) (hc : s.calls[i]? = some c) (hp : c.phase ≠ .running) :
    WellFormed (s.setCall i { c with inProgress := false }) := by
  refine h.setCall hc { c with inProgress := false } rfl rfl id
    (fun hr => absurd hr hp) ?_ ?_ ?_ rfl rfl (fun _ _ => rfl) ?_
  · intro k hk
    exact ⟨hk, h.open_of_claiming i c k hc hk⟩
  · intro p hk
    exact h.release_of_lettingGo i c p hc hk
  · intro k m hm hk
    obtain ⟨d, hd, -, -, hd'⟩ := h.delete_of_sent k m i hm hk
    cases hc.symm.trans hd
    exact hd'
  · intro ho
    exact h.inFlight_of_open i c hc ho

theorem afterRun (h : WellFormed s) (hc : s.calls[i]? = some c) {clock : ℚ}
    (hs : afterRunStep s i c clock = some s') : WellFormed s' := by
  unfold afterRunStep at hs
  split_ifs at hs with hp hrel httl
  · cases hs
    have hheld : WellFormed (s.setHeld c.holder none) := h.congr rfl rfl rfl
    exact hheld.advance hc _ (by simp [hp.1]) (by simp [hp.1]) rfl rfl rfl nofun nofun
      (fun _ _ => hrel)
  · cases hs
    have hheld : WellFormed (s.setHeld c.holder (some ⟨s.sent.length, clock + c.ttlMs,
        ((s.held c.holder).map HeldLease.pending).getD [] ++ [s.sent.length]⟩)) :=
      h.congr rfl rfl rfl
    have hadv := hheld.advance hc { c with phase := .writing (some s.sent.length) }
      (by simp [hp.1]) (by simp [hp.1]) rfl rfl rfl nofun nofun nofun
    exact hadv.send nofun
  · cases hs
    exact h.advance hc _ (by simp [hp.1]) (by simp [hp.1]) rfl rfl rfl nofun nofun nofun

theorem sendDelete (h : WellFormed s) (hc : s.calls[i]? = some c)
    (hs : sendDeleteStep s i c = some s') : WellFormed s' := by
  unfold sendDeleteStep at hs
  split at hs
  case h_1 p hp =>
    split_ifs at hs
    cases hs
    have hadv := h.advance hc { c with phase := .writing (some s.sent.length) }
      (by simp [hp]) (by simp [hp]) rfl rfl rfl nofun nofun nofun
    apply hadv.send
    intro j hj
    cases hj
    exact ⟨_, getElem?_set_eq_some.mpr (Or.inl ⟨rfl, lt_length_of_getElem? hc, rfl⟩), rfl,
      h.release_of_lettingGo i c p hc hp, rfl⟩
  case h_2 => cases hs

theorem settleDone (h : WellFormed s) (hc : s.calls[i]? = some c)
    (hs : settleDoneStep s i c = some s') : WellFormed s' := by
  unfold settleDoneStep at hs
  split at hs
  case h_1 w hp =>
    by_cases hw : s.answeredOpt w = true
    case neg => simp [hw] at hs
    have hdel : ∀ (k : ℕ) (m : Sent), s.sent[k]? = some m → m.kind = .delete i →
        m.status ≠ .travelling := by
      intro k m hm hk
      obtain ⟨d, hd, -, -, hd'⟩ := h.delete_of_sent k m i hm hk
      cases hc.symm.trans hd
      rw [hp] at hd'
      rcases hd' with hd' | ⟨hd', -⟩
      · cases hd'
        exact answeredOpt_some hm hw
      · cases hd'
    rw [if_pos hw] at hs
    cases hs
    refine h.setCall hc { c with phase := .settled, freed := true } rfl rfl
      (fun _ => rfl) nofun nofun nofun ?_ ?_ ?_ ?_ nofun
    · intro k m hm hk
      exact Or.inr ⟨rfl, hdel k m hm hk⟩
    · cases c.freed <;> rfl
    · cases c.freed <;> rfl
    · rintro p (hne | hf)
      · cases c.freed
        · exact Function.update_of_ne hne _ _
        · rfl
      · rw [hf]
        rfl
  case h_2 => cases hs

theorem settleTimeout (h : WellFormed s) (hc : s.calls[i]? = some c)
    (hphase : c.phase.isSettling = true) (hopen : c.freed = false) :
    WellFormed ((s.setInFlight c.holder false).setCall i { c with freed := true }) := by
  refine h.setCall hc { c with freed := true } rfl rfl (fun _ => rfl) ?_ ?_ ?_ ?_ rfl rfl
    ?_ nofun
  · intro hr
    rw [show c.phase = .running from hr] at hphase
    cases hphase
  · intro k hk
    rw [show c.phase = .claiming k from hk] at hphase
    cases hphase
  · intro p hk
    exact h.release_of_lettingGo i c p hc hk
  · intro k m hm hk
    obtain ⟨d, hd, -, -, hd'⟩ := h.delete_of_sent k m i hm hk
    cases hc.symm.trans hd
    exact hd'
  · rintro p (hne | hf)
    · exact Function.update_of_ne hne _ _
    · rw [hopen] at hf
      cases hf

theorem keepAlive (h : WellFormed s) {holder : String} {clock : ℚ}
    (hs : keepAliveStep s holder clock = some s') : WellFormed s' := by
  obtain ⟨l, -, hl⟩ := Option.bind_eq_some_iff.mp hs
  split_ifs at hl
  · cases hl
    exact h
  · cases hl
    exact h.congr rfl rfl rfl
  · cases hl
    have hheld : WellFormed (s.setHeld holder (some { l with pending := [s.sent.length] })) :=
      h.congr rfl rfl rfl
    exact hheld.send nofun

theorem keepAliveAnswer (h : WellFormed s) (hs : keepAliveAnswerStep s m = some s') :
    WellFormed s' := by
  unfold keepAliveAnswerStep at hs
  split at hs
  · split_ifs at hs
    · cases hs
      exact h.congr rfl rfl rfl
    · cases hs
      exact h
  · cases hs

end WellFormed

theorem wellFormed_step {s' : Replicas} {e : Event} (h : WellFormed s) (hs : step s e = some s') :
    WellFormed s' := by
  cases steps_of_step hs with
  | passTime d => exact ⟨h.1, h.2, h.3, h.4, h.5, h.6, h.7⟩
  | call holder ttlMs release => exact h.call holder ttlMs release
  | @land k m hm hst =>
    obtain ⟨ok, hok⟩ := landStatement_sent s k m
    exact h.setStatus hm (t := .landed ok) (by simp) (by simp) (by simp) hok
  | @landUnheard k m hm hst =>
    obtain ⟨ok, hok⟩ := landStatement_sent s k m
    refine h.setStatus hm (t := .unheard) (by simp) (landStatement_calls s k m)
      (landStatement_inFlight s k m) ?_
    simp only [Replicas.setStatus, hok, List.set_set]
  | lose hm => exact h.setStatus hm (t := .failed) (by simp) rfl rfl rfl
  | answer hc hans => exact h.answer hc hans
  | @renew i c hc hp =>
    have hadv := h.advance hc { c with renewing := some s.sent.length } (by simp [hp])
      (by simp [hp]) rfl rfl rfl (fun _ => h.open_of_running i c hc hp) (by simp [hp]) (by simp [hp])
    exact hadv.send nofun
  | finish hc hp =>
    exact h.advance hc _ (by simp [hp]) (by simp [hp]) rfl rfl rfl nofun nofun nofun
  | giveUp hc hp =>
    exact h.advance hc _ (by simp [hp]) (by simp [hp]) rfl rfl rfl nofun nofun nofun
  | endLate hc hp => exact h.endLate hc hp
  | afterRun hc haft => exact h.afterRun hc haft
  | sendDelete hc hdel => exact h.sendDelete hc hdel
  | settleDone hc hset => exact h.settleDone hc hset
  | settleTimeout hc hp hfreed => exact h.settleTimeout hc hp hfreed
  | keepAliveTick htick => exact h.keepAlive htick
  | keepAliveAnswer hans => exact h.keepAliveAnswer hans

theorem wellFormed_exec {s' : Replicas} {es : List Event} (h : WellFormed s)
    (hs : exec step s es = some s') : WellFormed s' :=
  exec_invariant step (fun _ _ _ h hs => wellFormed_step h hs) h hs

end Insula.LeasedRun
