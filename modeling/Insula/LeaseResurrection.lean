import Insula.LeaseSettling

/-!
# No lease for a run that no longer exists

The writes after a run are ordered behind the renewal the run remembers, which is the one it sent
last. A renewal that lands after the run's DELETE is therefore one that was still on its way when
the run sent its next renewal. The DELETE itself reaches a later run of the same process only
after the bounded wait for the writes has run out.
-/

namespace Insula.LeasedRun

open SchedulerLease Transition Lookup

/-- The writes after the run come only after `renewing` has settled. -/
def Phase.renewalSettled : Phase → Bool
  | .lettingGo _ | .writing _ | .settled => true
  | _ => false

structure RenewalsTracked (s : Replicas) : Prop where
  remembered : ∀ (k : ℕ) (m : Sent) (i : ℕ), s.sent[k]? = some m → m.kind = .renewal i →
    ∃ c k', s.calls[i]? = some c ∧ c.renewing = some k' ∧ k ≤ k'
  renewal_sent : ∀ (i : ℕ) (c : Call) (k : ℕ), s.calls[i]? = some c → c.renewing = some k →
    ∃ m, s.sent[k]? = some m ∧ m.kind = .renewal i ∧
      (c.phase.renewalSettled = true → m.status ≠ .travelling)

theorem renewalsTracked_initial (now : ℤ) (row : Option SettingValue) :
    RenewalsTracked (initial now row) := by
  constructor <;> simp [initial]

namespace RenewalsTracked

variable {s s' : Replicas} {i : ℕ} {c : Call}

theorem setStatus (h : RenewalsTracked s) {k : ℕ} {m : Sent} (hm : s.sent[k]? = some m)
    {t : Status} (hst : t ≠ .travelling) (hcalls : s'.calls = s.calls)
    (hsent : s'.sent = s.sent.set k { m with status := t }) : RenewalsTracked s' := by
  constructor
  · intro k' m' i hm' hk'
    rw [hcalls]
    rw [hsent, getElem?_set_eq_some] at hm'
    rcases hm' with ⟨rfl, -, rfl⟩ | ⟨-, hm'⟩
    · exact h.remembered k m i hm hk'
    · exact h.remembered k' m' i hm' hk'
  · intro i c k' hc hk'
    rw [hcalls] at hc
    obtain ⟨m', hm', hkind, hstat⟩ := h.renewal_sent i c k' hc hk'
    rw [hsent]
    by_cases hkk : k = k'
    · subst hkk
      cases hm.symm.trans hm'
      exact ⟨_, getElem?_set_eq_some.mpr (Or.inl ⟨rfl, lt_length_of_getElem? hm, rfl⟩), hkind,
        fun _ => hst⟩
    · exact ⟨m', getElem?_set_eq_some.mpr (Or.inr ⟨hkk, hm'⟩), hkind, hstat⟩

theorem extend (h : RenewalsTracked s) {l : List Sent} (hl : ∀ m ∈ l, ∀ i, m.kind ≠ .renewal i)
    (hcalls : s'.calls = s.calls) (hsent : s'.sent = s.sent ++ l) : RenewalsTracked s' := by
  constructor
  · intro k m i hm hk
    rw [hcalls]
    rw [hsent, List.getElem?_append] at hm
    split_ifs at hm
    · exact h.remembered k m i hm hk
    · exact absurd hk (hl m (List.mem_of_getElem? hm) i)
  · intro i c k hc hk
    rw [hcalls] at hc
    obtain ⟨m, hm, hkind, hstat⟩ := h.renewal_sent i c k hc hk
    rw [hsent, List.getElem?_append_left (lt_length_of_getElem? hm)]
    exact ⟨m, hm, hkind, hstat⟩

/-- A call moves on without a new renewal. It leaves `settling` only when its renewal has been
answered. -/
theorem move (h : RenewalsTracked s) {c' : Call} (hc : s.calls[i]? = some c)
    (hcalls : s'.calls = s.calls.set i c') (hsent : s'.sent = s.sent)
    (hrenewing : c'.renewing = c.renewing) (hphase : c'.phase.renewalSettled = true →
      c.phase.renewalSettled = true ∨ s.answeredOpt c.renewing = true) : RenewalsTracked s' := by
  constructor
  · intro k m j hm hk
    rw [hsent] at hm
    obtain ⟨d, k', hd, hk', hle⟩ := h.remembered k m j hm hk
    rw [hcalls]
    by_cases hij : i = j
    · subst hij
      cases hc.symm.trans hd
      exact ⟨c', k', getElem?_set_eq_some.mpr (Or.inl ⟨rfl, lt_length_of_getElem? hc, rfl⟩),
        hrenewing.trans hk', hle⟩
    · exact ⟨d, k', getElem?_set_eq_some.mpr (Or.inr ⟨hij, hd⟩), hk', hle⟩
  · intro j d k hd hk
    rw [hcalls, getElem?_set_eq_some] at hd
    rw [hsent]
    rcases hd with ⟨rfl, -, rfl⟩ | ⟨-, hd⟩
    · rw [hrenewing] at hk
      obtain ⟨m, hm, hkind, hstat⟩ := h.renewal_sent i c k hc hk
      refine ⟨m, hm, hkind, ?_⟩
      intro hp
      rcases hphase hp with hp | hans
      · exact hstat hp
      · rw [hk] at hans
        exact answeredOpt_some hm hans
    · exact h.renewal_sent j d k hd hk

theorem call (h : RenewalsTracked s) (holder : String) (ttlMs : ℚ) (release : Bool) :
    RenewalsTracked (callStep s holder ttlMs release) := by
  unfold callStep
  split_ifs with hf
  · exact h
  constructor
  · intro k m i hm hk
    rcases getElem?_concat_eq_some.mp hm with hm | ⟨rfl, rfl⟩
    · obtain ⟨c, k', hc, hk', hle⟩ := h.remembered k m i hm hk
      exact ⟨c, k', getElem?_concat_eq_some.mpr (Or.inl hc), hk', hle⟩
    · cases hk
  · intro i c k hc hk
    rcases getElem?_concat_eq_some.mp hc with hc | ⟨rfl, rfl⟩
    · obtain ⟨m, hm, hkind⟩ := h.renewal_sent i c k hc hk
      exact ⟨m, getElem?_concat_eq_some.mpr (Or.inl hm), hkind⟩
    · cases hk

theorem renew (h : RenewalsTracked s) (hc : s.calls[i]? = some c) (hp : c.phase = .running) :
    RenewalsTracked ((s.setCall i { c with renewing := some s.sent.length }).send
      ⟨c.holder, .renewal i, c.ttlMs, .travelling⟩) := by
  constructor
  · intro k m j hm hk
    rcases getElem?_concat_eq_some.mp hm with hm | ⟨rfl, rfl⟩
    · obtain ⟨d, k', hd, hk', hle⟩ := h.remembered k m j hm hk
      by_cases hij : i = j
      · subst hij
        exact ⟨_, s.sent.length,
          getElem?_set_eq_some.mpr (Or.inl ⟨rfl, lt_length_of_getElem? hc, rfl⟩), rfl,
          (lt_length_of_getElem? hm).le⟩
      · exact ⟨d, k', getElem?_set_eq_some.mpr (Or.inr ⟨hij, hd⟩), hk', hle⟩
    · cases hk
      exact ⟨_, _, getElem?_set_eq_some.mpr (Or.inl ⟨rfl, lt_length_of_getElem? hc, rfl⟩), rfl,
        le_refl _⟩
  · intro j d k hd hk
    rcases getElem?_set_eq_some.mp hd with ⟨rfl, -, rfl⟩ | ⟨-, hd⟩
    · cases hk
      exact ⟨_, getElem?_concat_eq_some.mpr (Or.inr ⟨rfl, rfl⟩),
        rfl, by simp [hp, Phase.renewalSettled]⟩
    · obtain ⟨m, hm, hkind⟩ := h.renewal_sent j d k hd hk
      exact ⟨m, getElem?_concat_eq_some.mpr (Or.inl hm), hkind⟩

theorem answer (h : RenewalsTracked s) (hc : s.calls[i]? = some c)
    (hs : answerStep s i c = some s') : RenewalsTracked s' := by
  unfold answerStep at hs
  split at hs
  · split at hs
    · cases hs
      exact h.move hc rfl rfl rfl (fun hp => by cases hp)
    all_goals cases hs
    all_goals exact h.move hc rfl rfl rfl (fun hp => by cases hp)
  · cases hs

theorem afterRun (h : RenewalsTracked s) (hc : s.calls[i]? = some c) {clock : ℚ}
    (hs : afterRunStep s i c clock = some s') : RenewalsTracked s' := by
  unfold afterRunStep at hs
  split_ifs at hs with hp hrel httl
  · cases hs
    exact h.move hc rfl rfl rfl (fun _ => Or.inr hp.2)
  · cases hs
    have hmove : RenewalsTracked (s.setCall i { c with phase := .writing (some s.sent.length) }) :=
      h.move hc rfl rfl rfl (fun _ => Or.inr hp.2)
    exact hmove.extend (l := [_]) (by simp) rfl rfl
  · cases hs
    exact h.move hc rfl rfl rfl (fun _ => Or.inr hp.2)

theorem sendDelete (h : RenewalsTracked s) (hc : s.calls[i]? = some c)
    (hs : sendDeleteStep s i c = some s') : RenewalsTracked s' := by
  unfold sendDeleteStep at hs
  split at hs
  case h_1 p hp =>
    split_ifs at hs
    cases hs
    have hmove : RenewalsTracked (s.setCall i { c with phase := .writing (some s.sent.length) }) :=
      h.move hc rfl rfl rfl (fun _ => Or.inl (by rw [hp]; rfl))
    exact hmove.extend (l := [_]) (by simp) rfl rfl
  case h_2 => cases hs

theorem settleDone (h : RenewalsTracked s) (hc : s.calls[i]? = some c)
    (hs : settleDoneStep s i c = some s') : RenewalsTracked s' := by
  unfold settleDoneStep at hs
  split at hs
  case h_1 w hp =>
    split_ifs at hs
    all_goals cases hs
    all_goals exact h.move hc rfl rfl rfl (fun _ => Or.inl (by rw [hp]; rfl))
  case h_2 => cases hs

theorem keepAlive (h : RenewalsTracked s) {holder : String} {clock : ℚ}
    (hs : keepAliveStep s holder clock = some s') : RenewalsTracked s' := by
  obtain ⟨l, -, hl⟩ := Option.bind_eq_some_iff.mp hs
  split_ifs at hl
  · cases hl
    exact h
  · cases hl
    exact h.extend (l := []) (by simp) rfl (List.append_nil _).symm
  · cases hl
    exact h.extend (l := [_]) (by simp) rfl rfl

theorem keepAliveAnswer (h : RenewalsTracked s) {m : Sent}
    (hs : keepAliveAnswerStep s m = some s') : RenewalsTracked s' := by
  unfold keepAliveAnswerStep at hs
  split at hs
  · split_ifs at hs
    all_goals cases hs
    · exact h.extend (l := []) (by simp) rfl (List.append_nil _).symm
    · exact h
  · cases hs

end RenewalsTracked

variable {s : Replicas}

theorem renewalsTracked_step {s' : Replicas} {e : Event} (h : RenewalsTracked s)
    (hs : step s e = some s') : RenewalsTracked s' := by
  cases steps_of_step hs with
  | passTime d => exact h.extend (l := []) (by simp) rfl (List.append_nil _).symm
  | call holder ttlMs release => exact h.call holder ttlMs release
  | @land k m hm hst =>
    obtain ⟨ok, hok⟩ := landStatement_sent s k m
    exact h.setStatus hm (t := .landed ok) (by simp) (landStatement_calls s k m) hok
  | @landUnheard k m hm hst =>
    obtain ⟨ok, hok⟩ := landStatement_sent s k m
    refine h.setStatus hm (t := .unheard) (by simp) (landStatement_calls s k m) ?_
    simp only [Replicas.setStatus, hok, List.set_set]
  | lose hm => exact h.setStatus hm (t := .failed) (by simp) rfl rfl
  | answer hc hans => exact h.answer hc hans
  | renew hc hp => exact h.renew hc hp
  | finish hc hp => exact h.move hc rfl rfl rfl (fun hp => by cases hp)
  | giveUp hc hp => exact h.move hc rfl rfl rfl (fun hp => by cases hp)
  | endLate hc hp => exact h.move hc rfl rfl rfl (fun hp => Or.inl hp)
  | afterRun hc haft => exact h.afterRun hc haft
  | sendDelete hc hdel => exact h.sendDelete hc hdel
  | settleDone hc hset => exact h.settleDone hc hset
  | settleTimeout hc hp hfreed => exact h.move hc rfl rfl rfl (fun hp => Or.inl hp)
  | keepAliveTick htick => exact h.keepAlive htick
  | keepAliveAnswer hans => exact h.keepAliveAnswer hans

/-- Renewal `k` of call `i` lands although the call's DELETE has taken effect. -/
def RenewalAfterDelete (i k : ℕ) (s : Replicas) : Event → Prop
  | .land k' | .landUnheard k' => k' = k ∧
      (∃ m : Sent, s.sent[k]? = some m ∧ m.kind = .renewal i ∧ m.status = .travelling) ∧
        ∃ (k₀ : ℕ) (m₀ : Sent), s.sent[k₀]? = some m₀ ∧ m₀.kind = .delete i ∧
          (m₀.status = .landed true ∨ m₀.status = .unheard)
  | _ => False

/-- A later renewal of the same call was sent while `k` was still on its way. -/
def Overtaken (i k : ℕ) (s : Replicas) : Prop :=
  ∃ (k' : ℕ) (m' : Sent), k < k' ∧ s.sent[k']? = some m' ∧ m'.kind = .renewal i

/-- The DELETE of call `i` lands on the row that a later call of the same process has claimed. -/
def DeletesLaterRun (i : ℕ) (s : Replicas) : Event → Prop
  | .land k | .landUnheard k =>
    (∃ m : Sent, s.sent[k]? = some m ∧ m.kind = .delete i ∧ m.status = .travelling ∧
      HeldBy m.holder s.row) ∧
        ∃ (j k' : ℕ) (m' : Sent) (c d : Call), i < j ∧ s.calls[i]? = some c ∧ s.calls[j]? = some d ∧
          c.holder = d.holder ∧ s.sent[k']? = some m' ∧ m'.kind = .claim j ∧
            m'.status = .landed true
  | _ => False

theorem overtaken_of_renewal_after_delete (hwf : WellFormed s) (htr : RenewalsTracked s)
    {i k k₀ : ℕ} {m m₀ : Sent} (hm : s.sent[k]? = some m) (hk : m.kind = .renewal i)
    (hst : m.status = .travelling) (hm₀ : s.sent[k₀]? = some m₀) (hk₀ : m₀.kind = .delete i) :
    Overtaken i k s := by
  obtain ⟨c, k', hc, hk', hle⟩ := htr.remembered k m i hm hk
  obtain ⟨m', hm', hkind', hans⟩ := htr.renewal_sent i c k' hc hk'
  obtain ⟨d, hd, -, -, hphase⟩ := hwf.delete_of_sent k₀ m₀ i hm₀ hk₀
  cases hc.symm.trans hd
  have hsettled : c.phase.renewalSettled = true := by
    rcases hphase with hp | ⟨hp, -⟩ <;> rw [hp] <;> rfl
  refine ⟨k', m', lt_of_le_of_ne hle ?_, hm', hkind'⟩
  rintro rfl
  cases hm.symm.trans hm'
  exact hans hsettled hst

theorem not_deletesLaterRun (hwf : WellFormed s) {i : ℕ} (hover : FreedOver (fun j _ => j = i) s)
    (e : Event) : ¬ DeletesLaterRun i s e := by
  have key : ∀ k : ℕ, ¬ DeletesLaterRun i s (.land k) := by
    rintro k ⟨⟨m, hm, hk, hst, -⟩, j, k', m', c, d, hij, hc, hd, hholder, -⟩
    obtain ⟨c', hc', -, -, hopen⟩ :=
      open_of_delete_travelling hwf hover hm hk hst (fun _ _ => rfl)
    cases hc.symm.trans hc'
    rw [hwf.freed_of_lt i j c d hc hd hij hholder] at hopen
    cases hopen
  cases e with
  | land k => exact key k
  | landUnheard k => exact key k
  | _ => exact id

/-- Once a run's DELETE has taken effect, the only renewal of that run that can still take effect
is one that was overtaken by a later renewal; and unless the wait for the writes of that run ran
out, its DELETE does not reach a row that a later run of its process has claimed. -/
theorem no_lease_resurrection (now : ℤ) (row : Option SettingValue) (es : List Event) (s : Replicas)
    (hs : exec step (initial now row) es = some s) (i : ℕ) (e : Event) :
    (∀ k, RenewalAfterDelete i k s e → Overtaken i k s) ∧
      (Along step (Prompt (fun j _ => j = i)) (initial now row) es → ¬ DeletesLaterRun i s e) := by
  have hwf := wellFormed_exec (wellFormed_initial now row) hs
  have htr := exec_invariant step (fun _ _ _ h hs => renewalsTracked_step h hs)
    (renewalsTracked_initial now row) hs
  constructor
  · intro k hlate
    have key : ∀ k', RenewalAfterDelete i k s (.land k') → Overtaken i k s := by
      rintro k' ⟨-, ⟨m, hm, hk, hst⟩, k₀, m₀, hm₀, hk₀, -⟩
      exact overtaken_of_renewal_after_delete hwf htr hm hk hst hm₀ hk₀
    cases e with
    | land k' => exact key k' hlate
    | landUnheard k' => exact key k' hlate
    | _ => exact absurd hlate id
  · intro hprompt
    have hover := exec_invariant_along step (fun _ _ _ h hs hp => freedOver_step h hs hp)
      (freedOver_initial now row) hprompt hs
    exact not_deletesLaterRun hwf hover e

def overtakenRenewal : List Event :=
  [.call "pod-a" 60000 true, .land 0, .answer 0, .passTime 20000000, .renew 0, .passTime 20000000,
    .renew 0, .land 2, .finish 0, .afterRun 0 0, .sendDelete 0, .land 3, .settleDone 0]

def delayedDelete : List Event :=
  [.call "pod-a" 60000 true, .land 0, .answer 0, .finish 0, .afterRun 0 0, .sendDelete 0,
    .passTime 60000000, .settleTimeout 0, .call "pod-a" 60000 true, .land 2, .answer 1]

theorem lease_resurrection_traces : (∃ s s', exec step (initial 0 none) overtakenRenewal = some s ∧
      RenewalAfterDelete 0 1 s (.land 1) ∧ step s (.land 1) = some s' ∧
        s.row = none ∧ HeldBy "pod-a" s'.row ∧ s'.calls.map Call.phase = [.settled]) ∧
    ∃ s s', exec step (initial 0 none) delayedDelete = some s ∧ DeletesLaterRun 0 s (.land 1) ∧
      step s (.land 1) = some s' ∧ s'.row = none ∧
        s'.calls.map Call.phase = [.writing (some 1), .running] := by
  constructor
  · refine ⟨_, _, rfl, ⟨rfl, ⟨_, rfl, rfl, rfl⟩, 3, _, rfl, rfl, Or.inl rfl⟩, rfl, ?_, ?_, ?_⟩
    · rfl
    · exact ⟨_, rfl⟩
    · rfl
  · refine ⟨_, _, rfl, ⟨⟨_, rfl, rfl, rfl, _, rfl⟩, 1, 2, _, _, _, by decide, rfl, rfl, rfl, rfl,
      rfl, rfl⟩, rfl, ?_, ?_⟩
    · rfl
    · rfl

def renewalInOrder : List Event :=
  [.call "pod-a" 60000 true, .land 0, .answer 0, .renew 0, .land 1, .finish 0, .afterRun 0 0,
    .sendDelete 0]

theorem no_lease_resurrection_in_order :
    ∃ s, exec step (initial 0 none) renewalInOrder = some s ∧ ¬ DeletesLaterRun 0 s (.land 2) := by
  have hprompt : Along step (Prompt (fun j _ => j = 0)) (initial 0 none) renewalInOrder := by
    refine along_of_forall step ?_ _
    rintro e he s s' i c rfl
    simp [renewalInOrder] at he
  exact ⟨_, rfl, (no_lease_resurrection 0 none renewalInOrder _ rfl 0 (.land 2)).2 hprompt⟩

end Insula.LeasedRun
