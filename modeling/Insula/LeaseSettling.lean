import Insula.LeaseCalls

/-!
# The wait for the lease writes after a run

A call frees its job in its process when the writes after the run have been answered, or when
`LEASE_SETTLE_MS` have passed without an answer. Where the latter does not happen, a call that has
been freed has no write on its way, so a DELETE that is on its way is the latest of its process.
-/

namespace Insula.LeasedRun

open SchedulerLease Transition Lookup

/-- The wait of the calls that `I` picks, by their number and their `release`, does not run out. -/
def Prompt (I : ℕ → Bool → Prop) (s : Replicas) (e : Event) (_ : Replicas) : Prop :=
  ∀ (i : ℕ) (c : Call), e = .settleTimeout i → s.calls[i]? = some c → ¬ I i c.release

def Phase.isOver : Phase → Bool
  | .refused | .settled => true
  | _ => false

def FreedOver (I : ℕ → Bool → Prop) (s : Replicas) : Prop :=
  ∀ (i : ℕ) (c : Call), s.calls[i]? = some c → I i c.release → c.freed = true →
    c.phase.isOver = true

variable {I : ℕ → Bool → Prop} {s s' : Replicas}

theorem freedOver_initial (now : ℤ) (row : Option SettingValue) : FreedOver I (initial now row) := by
  simp [FreedOver, initial]

namespace FreedOver

variable {i : ℕ} {c : Call}

theorem move (h : FreedOver I s) {c' : Call} (hc : s.calls[i]? = some c)
    (hcalls : s'.calls = s.calls.set i c') (hrelease : c'.release = c.release)
    (hover : I i c.release → c'.freed = true → (c.freed = true → c.phase.isOver = true) →
      c'.phase.isOver = true) : FreedOver I s' := by
  intro j d hd hI hf
  rw [hcalls, getElem?_set_eq_some] at hd
  rcases hd with ⟨rfl, -, rfl⟩ | ⟨-, hd⟩
  · rw [hrelease] at hI
    exact hover hI hf (h i c hc hI)
  · exact h j d hd hI hf

/-- A call that goes from one phase that is not over to another is not freed by it. -/
theorem advance (h : FreedOver I s) {c' : Call} (hc : s.calls[i]? = some c)
    (hcalls : s'.calls = s.calls.set i c') (hrelease : c'.release = c.release)
    (hfreed : c'.freed = c.freed) (hp : c.phase.isOver = false) : FreedOver I s' := by
  apply h.move hc hcalls hrelease
  intro _ hf hover
  rw [hover (hfreed.symm.trans hf)] at hp
  cases hp

theorem congr (h : FreedOver I s) (hcalls : s'.calls = s.calls) : FreedOver I s' := by
  intro i c hc
  rw [hcalls] at hc
  exact h i c hc

theorem call (h : FreedOver I s) (holder : String) (ttlMs : ℚ) (release : Bool) :
    FreedOver I (callStep s holder ttlMs release) := by
  unfold callStep
  split_ifs
  · exact h
  intro i c hc hI hf
  rcases getElem?_concat_eq_some.mp hc with hc | ⟨-, rfl⟩
  · exact h i c hc hI hf
  · cases hf

theorem answer (h : FreedOver I s) (hc : s.calls[i]? = some c) (hs : answerStep s i c = some s') :
    FreedOver I s' := by
  unfold answerStep at hs
  split at hs
  case h_1 k hp =>
    split at hs
    · cases hs
      exact h.advance hc rfl rfl rfl (by rw [hp]; rfl)
    all_goals cases hs
    all_goals exact h.move hc rfl rfl (fun _ _ _ => rfl)
  case h_2 => cases hs

theorem afterRun (h : FreedOver I s) (hc : s.calls[i]? = some c) {clock : ℚ}
    (hs : afterRunStep s i c clock = some s') : FreedOver I s' := by
  unfold afterRunStep at hs
  split_ifs at hs with hp hrel httl
  all_goals cases hs
  all_goals exact h.advance hc rfl rfl rfl (by rw [hp.1]; rfl)

theorem sendDelete (h : FreedOver I s) (hc : s.calls[i]? = some c)
    (hs : sendDeleteStep s i c = some s') : FreedOver I s' := by
  unfold sendDeleteStep at hs
  split at hs
  case h_1 p hp =>
    split_ifs at hs
    cases hs
    exact h.advance hc rfl rfl rfl (by rw [hp]; rfl)
  case h_2 => cases hs

theorem settleDone (h : FreedOver I s) (hc : s.calls[i]? = some c)
    (hs : settleDoneStep s i c = some s') : FreedOver I s' := by
  unfold settleDoneStep at hs
  split at hs
  · split_ifs at hs
    all_goals cases hs
    all_goals exact h.move hc rfl rfl (fun _ _ _ => rfl)
  · cases hs

theorem keepAlive (h : FreedOver I s) {holder : String} {clock : ℚ}
    (hs : keepAliveStep s holder clock = some s') : FreedOver I s' := by
  obtain ⟨l, -, hl⟩ := Option.bind_eq_some_iff.mp hs
  split_ifs at hl
  all_goals cases hl
  · exact h
  · exact h.congr rfl
  · exact h.congr rfl

theorem keepAliveAnswer (h : FreedOver I s) {m : Sent}
    (hs : keepAliveAnswerStep s m = some s') : FreedOver I s' := by
  unfold keepAliveAnswerStep at hs
  split at hs
  · split_ifs at hs
    all_goals cases hs
    · exact h.congr rfl
    · exact h
  · cases hs

end FreedOver

theorem freedOver_step {e : Event} (h : FreedOver I s) (hs : step s e = some s')
    (hprompt : Prompt I s e s') : FreedOver I s' := by
  cases steps_of_step hs with
  | passTime d => exact h.congr rfl
  | call holder ttlMs release => exact h.call holder ttlMs release
  | land hm hst => exact h.congr (landStatement_calls s _ _)
  | landUnheard hm hst => exact h.congr (landStatement_calls s _ _)
  | lose hm => exact h.congr rfl
  | answer hc hans => exact h.answer hc hans
  | renew hc hp => exact h.advance hc rfl rfl rfl (by rw [hp]; rfl)
  | finish hc hp => exact h.advance hc rfl rfl rfl (by rw [hp]; rfl)
  | giveUp hc hp => exact h.advance hc rfl rfl rfl (by rw [hp]; rfl)
  | endLate hc hp => exact h.move hc rfl rfl (fun _ hf hover => hover hf)
  | afterRun hc haft => exact h.afterRun hc haft
  | sendDelete hc hdel => exact h.sendDelete hc hdel
  | settleDone hc hset => exact h.settleDone hc hset
  | @settleTimeout i c hc hp hfreed =>
    exact h.move hc rfl rfl (fun hI => absurd hI (hprompt i c rfl hc))
  | keepAliveTick htick => exact h.keepAlive htick
  | keepAliveAnswer hans => exact h.keepAliveAnswer hans

theorem open_of_delete_travelling (hwf : WellFormed s) (hover : FreedOver I s) {k i : ℕ} {m : Sent}
    (hm : s.sent[k]? = some m) (hk : m.kind = .delete i) (hst : m.status = .travelling)
    (hI : ∀ c, s.calls[i]? = some c → I i c.release) :
    ∃ c, s.calls[i]? = some c ∧ c.holder = m.holder ∧ c.phase = .writing (some k) ∧
      c.freed = false := by
  obtain ⟨c, hc, hholder, -, hphase⟩ := hwf.delete_of_sent k m i hm hk
  rcases hphase with hp | ⟨-, hp⟩
  · refine ⟨c, hc, hholder, hp, ?_⟩
    by_contra hf
    have hisOver := hover i c hc (hI c hc) (by simpa using hf)
    rw [hp] at hisOver
    cases hisOver
  · exact absurd hst hp

end Insula.LeasedRun
