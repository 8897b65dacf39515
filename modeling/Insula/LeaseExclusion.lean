import Insula.LeaseSettling

/-!
# Leased runs exclude each other

The row and the in-process guard together: while the expiry a holder stored last has not passed,
the row is that holder's, since nobody else's claim succeeds over it and its own DELETE belongs to
its latest call, whose run is then over. Two runs in progress are therefore runs of one process, and
the guard leaves it one.
-/

namespace Insula.LeasedRun

open SchedulerLease Transition Lookup

/-- The call holds the lease as far as its process knows, or will when it reads the answer. -/
def Claimed (s : Replicas) (c : Call) : Prop :=
  c.phase = .running ∨
    ∃ (k : ℕ) (m : Sent), c.phase = .claiming k ∧ s.sent[k]? = some m ∧ m.status = .landed true

/-- The row is the holder's as long as the expiry it stored last has not passed. -/
def Holding (s : Replicas) : Prop :=
  ∀ (i : ℕ) (c : Call), s.calls[i]? = some c → Claimed s c →
    ∃ u, s.wrote c.holder = some u ∧
      (u.before s.now = false → s.row = some (leaseValue c.holder u))

def RunningInPhase (s : Replicas) : Prop :=
  ∀ (i : ℕ) (c : Call), s.calls[i]? = some c → c.inProgress = true → c.phase = .running

variable {s s' : Replicas} {c : Call} {i : ℕ}

theorem holding_initial (now : ℤ) (row : Option SettingValue) : Holding (initial now row) := by
  simp [Holding, initial]

theorem Claimed.not_over (h : Claimed s c) : c.phase.isSettling = false := by
  rcases h with hp | ⟨k, m, hp, -⟩ <;> rw [hp] <;> rfl

theorem landed_of_concat {l : List Sent} (hl : ∀ m ∈ l, m.status = .travelling) {k : ℕ} {m : Sent}
    (hm : (s.sent ++ l)[k]? = some m) (hst : m.status = .landed true) : s.sent[k]? = some m := by
  rw [List.getElem?_append] at hm
  split_ifs at hm
  · exact hm
  · rw [hl m (List.mem_of_getElem? hm)] at hst
    cases hst

namespace Holding

variable {l : List Sent} {i : ℕ} {c : Call} {m : Sent}

theorem frame (h : Holding s) (hl : ∀ m ∈ l, m.status = .travelling) (hnow : s.now ≤ s'.now)
    (hrow : s'.row = s.row) (hwrote : s'.wrote = s.wrote) (hsent : s'.sent = s.sent ++ l)
    (hcalls : ∀ (j : ℕ) (d : Call), s'.calls[j]? = some d → Claimed s' d →
      ∃ c, s.calls[j]? = some c ∧ c.holder = d.holder ∧
        (c.phase = d.phase ∨ Claimed s c)) : Holding s' := by
  intro j d hd hclaimed
  obtain ⟨c, hc, hholder, hphase⟩ := hcalls j d hd hclaimed
  have hclaimed' : Claimed s c := by
    rcases hphase with hphase | hphase
    · rcases hclaimed with hp | ⟨k, m, hp, hm, hst⟩
      · exact Or.inl (hphase.trans hp)
      · rw [hsent] at hm
        exact Or.inr ⟨k, m, hphase.trans hp, landed_of_concat hl hm hst, hst⟩
    · exact hphase
  obtain ⟨u, hu, hown⟩ := h j c hc hclaimed'
  rw [hwrote, hrow, ← hholder]
  refine ⟨u, hu, fun hlive => hown ?_⟩
  by_contra hbefore
  rw [Timestamp.before_mono hnow (by simpa using hbefore)] at hlive
  cases hlive

theorem move (h : Holding s) {c' : Call} (hc : s.calls[i]? = some c)
    (hcalls : s'.calls = s.calls.set i c') (hl : ∀ m ∈ l, m.status = .travelling)
    (hsent : s'.sent = s.sent ++ l) (hnow : s'.now = s.now) (hrow : s'.row = s.row)
    (hwrote : s'.wrote = s.wrote) (hholder : c.holder = c'.holder)
    (hphase : Claimed s' c' → c.phase = c'.phase ∨ Claimed s c) : Holding s' := by
  apply h.frame hl hnow.ge hrow hwrote hsent
  intro j d hd hclaimed
  rw [hcalls, getElem?_set_eq_some] at hd
  rcases hd with ⟨rfl, -, rfl⟩ | ⟨-, hd⟩
  · exact ⟨c, hc, hholder, hphase hclaimed⟩
  · exact ⟨d, hd, rfl, Or.inl rfl⟩

theorem leave (h : Holding s) {c' : Call} (hc : s.calls[i]? = some c)
    (hcalls : s'.calls = s.calls.set i c') (hl : ∀ m ∈ l, m.status = .travelling)
    (hsent : s'.sent = s.sent ++ l) (hnow : s'.now = s.now) (hrow : s'.row = s.row)
    (hwrote : s'.wrote = s.wrote) (hholder : c.holder = c'.holder)
    (hphase : c'.phase.isSettling = true ∨ c'.phase.isOver = true) : Holding s' := by
  apply h.move hc hcalls hl hsent hnow hrow hwrote hholder
  intro hclaimed
  exfalso
  rcases hclaimed with hp | ⟨k, m, hp, -⟩ <;> rw [hp] at hphase <;> simp [Phase.isSettling,
    Phase.isOver] at hphase

theorem quiet (h : Holding s) (hl : ∀ m ∈ l, m.status = .travelling)
    (hsent : s'.sent = s.sent ++ l) (hcalls : s'.calls = s.calls) (hnow : s.now ≤ s'.now)
    (hrow : s'.row = s.row) (hwrote : s'.wrote = s.wrote) : Holding s' := by
  apply h.frame hl hnow hrow hwrote hsent
  intro j d hd _
  rw [hcalls] at hd
  exact ⟨d, hd, rfl, Or.inl rfl⟩

theorem call (h : Holding s) (holder : String) (ttlMs : ℚ) (release : Bool) :
    Holding (callStep s holder ttlMs release) := by
  unfold callStep
  split_ifs
  · exact h
  refine h.frame (l := [⟨holder, .claim s.calls.length, ttlMs, .travelling⟩]) (by simp) (le_refl _)
    rfl rfl rfl ?_
  intro j d hd hclaimed
  rcases getElem?_concat_eq_some.mp hd with hd | ⟨rfl, rfl⟩
  · exact ⟨d, hd, rfl, Or.inl rfl⟩
  · rcases hclaimed with hp | ⟨k, m, hp, hm, hst⟩
    · cases hp
    · cases hp
      rcases getElem?_concat_eq_some.mp hm with hm | ⟨-, rfl⟩
      · exact absurd (lt_length_of_getElem? hm) (lt_irrefl _)
      · cases hst

theorem answer (h : Holding s) (hc : s.calls[i]? = some c) (hs : answerStep s i c = some s') :
    Holding s' := by
  unfold answerStep at hs
  split at hs
  case h_1 k hp =>
    split at hs
    case h_1 hst =>
      cases hs
      refine h.move (l := []) hc rfl (by simp) (List.append_nil _).symm rfl rfl rfl rfl ?_
      intro _
      obtain ⟨m, hm, hst⟩ := Option.map_eq_some_iff.mp hst
      exact Or.inr (Or.inr ⟨k, m, hp, hm, hst⟩)
    all_goals cases hs
    all_goals
      exact h.leave (l := []) hc rfl (by simp) (List.append_nil _).symm rfl rfl rfl rfl (Or.inr rfl)
  case h_2 => cases hs

theorem afterRun (h : Holding s) (hc : s.calls[i]? = some c) {clock : ℚ}
    (hs : afterRunStep s i c clock = some s') : Holding s' := by
  unfold afterRunStep at hs
  split_ifs at hs with hp hrel httl
  · cases hs
    exact h.leave (l := []) hc rfl (by simp) (List.append_nil _).symm rfl rfl rfl rfl (Or.inl rfl)
  · cases hs
    exact h.leave (l := [_]) hc rfl (by simp) rfl rfl rfl rfl rfl (Or.inl rfl)
  · cases hs
    exact h.leave (l := []) hc rfl (by simp) (List.append_nil _).symm rfl rfl rfl rfl (Or.inl rfl)

theorem sendDelete (h : Holding s) (hc : s.calls[i]? = some c)
    (hs : sendDeleteStep s i c = some s') : Holding s' := by
  unfold sendDeleteStep at hs
  split at hs
  · split_ifs at hs
    cases hs
    exact h.leave (l := [_]) hc rfl (by simp) rfl rfl rfl rfl rfl (Or.inl rfl)
  · cases hs

theorem settleDone (h : Holding s) (hc : s.calls[i]? = some c)
    (hs : settleDoneStep s i c = some s') : Holding s' := by
  unfold settleDoneStep at hs
  split at hs
  · split_ifs at hs
    all_goals cases hs
    all_goals
      exact h.leave (l := []) hc rfl (by simp) (List.append_nil _).symm rfl rfl rfl rfl (Or.inr rfl)
  · cases hs

theorem keepAlive (h : Holding s) {holder : String} {clock : ℚ}
    (hs : keepAliveStep s holder clock = some s') : Holding s' := by
  obtain ⟨l, -, hl⟩ := Option.bind_eq_some_iff.mp hs
  split_ifs at hl
  all_goals cases hl
  · exact h
  · exact h.quiet (l := []) (by simp) (List.append_nil _).symm rfl (le_refl _) rfl rfl
  · exact h.quiet (l := [_]) (by simp) rfl rfl (le_refl _) rfl rfl

theorem keepAliveAnswer (h : Holding s) (hs : keepAliveAnswerStep s m = some s') : Holding s' := by
  unfold keepAliveAnswerStep at hs
  split at hs
  · split_ifs at hs
    all_goals cases hs
    · exact h.quiet (l := []) (by simp) (List.append_nil _).symm rfl (le_refl _) rfl rfl
    · exact h
  · cases hs

theorem claimed_of_setStatus (hwf : WellFormed s) {k : ℕ} {st : Status} (hm : s.sent[k]? = some m)
    (hsent : s'.sent = s.sent.set k { m with status := st }) (hc : s.calls[i]? = some c)
    (hclaimed : Claimed s' c) :
    Claimed s c ∨ (m.kind = .claim i ∧ m.holder = c.holder ∧ st = .landed true) := by
  rcases hclaimed with hp | ⟨k', m', hp, hm', hst⟩
  · exact Or.inl (Or.inl hp)
  · obtain ⟨m₀, hm₀, hkind, hholder⟩ := hwf.claim_sent i c k' hc hp
    rw [hsent, getElem?_set_eq_some] at hm'
    rcases hm' with ⟨rfl, -, rfl⟩ | ⟨-, hm'⟩
    · cases hm.symm.trans hm₀
      exact Or.inr ⟨hkind, hholder, hst⟩
    · exact Or.inl (Or.inr ⟨k', m', hp, hm', hst⟩)

theorem landStatement_claim (s : Replicas) (k : ℕ) (hk : ∀ i, m.kind ≠ .delete i) :
    ∃ ext r, r = claimRow m.holder m.ttlMs ext s.now s.row ∧ (landStatement s k m).row = r.1 ∧
      (landStatement s k m).sent = s.sent.set k { m with status := .landed r.2 } ∧
      (landStatement s k m).wrote =
        if r.2 then Function.update s.wrote m.holder (storedExpiry r.1) else s.wrote := by
  unfold landStatement
  split
  · exact absurd ‹_› (hk _)
  · exact ⟨_, _, rfl, rfl, rfl, rfl⟩

theorem landStatement_delete (s : Replicas) (k : ℕ) (hk : m.kind = .delete i) :
    landStatement s k m =
      { s.setStatus k m (.landed true) with row := releaseRow m.holder s.row } := by
  unfold landStatement
  rw [hk]

theorem landStatement_own (s : Replicas) (k : ℕ) (hk : ∀ i, m.kind ≠ .delete i) :
    (∃ u, (landStatement s k m).wrote m.holder = some u ∧
      (landStatement s k m).row = some (leaseValue m.holder u)) ∨
    ((landStatement s k m).wrote = s.wrote ∧ (landStatement s k m).row = s.row ∧
      (landStatement s k m).sent = s.sent.set k { m with status := .landed false }) := by
  obtain ⟨ext, r, hr, hrow, hsent, hwrote⟩ := landStatement_claim s k hk
  cases hok : r.2 with
  | true =>
    obtain ⟨u, hu, -⟩ := claimRow_expiry (hr ▸ hok)
    rw [HeldUntil, ← hr] at hu
    refine Or.inl ⟨u, ?_, hrow.trans hu⟩
    rw [hwrote, if_pos hok, Function.update_self, hu]
    rfl
  | false =>
    refine Or.inr ⟨?_, ?_, ?_⟩
    · rw [hwrote, hok]
      rfl
    · rw [hrow, hr]
      exact claimRow_failure (hr ▸ hok)
    · rw [hsent, hok]

/-- No statement of another holder changes a row whose expiry has not passed. -/
theorem landStatement_other (s : Replicas) (k : ℕ) {p : String} (hp : m.holder ≠ p) :
    (landStatement s k m).wrote p = s.wrote p ∧ ∀ u : Timestamp, u.before s.now = false →
      s.row = some (leaseValue p u) → (landStatement s k m).row = some (leaseValue p u) := by
  by_cases hk : ∀ i, m.kind ≠ .delete i
  · obtain ⟨ext, r, hr, hrow, -, hwrote⟩ := landStatement_claim s k hk
    constructor
    · rw [hwrote]
      split_ifs
      · exact Function.update_of_ne hp.symm _ _
      · rfl
    · intro u hu hown
      have hfail : (claimRow m.holder m.ttlMs ext s.now s.row).2 = false := by
        rw [hown, claimRow_other hp, hu]
      rw [hrow, hr, claimRow_failure hfail, hown]
  · push Not at hk
    obtain ⟨i, hk⟩ := hk
    rw [landStatement_delete s k hk]
    refine ⟨rfl, fun u _ hown => ?_⟩
    exact (releaseRow_other hp ⟨_, hown⟩).trans hown

/-- A statement lands: a claim by anybody, or the DELETE of a call that is still open. -/
theorem land (hwf : WellFormed s) (hover : FreedOver (fun _ release => release = true) s)
    (h : Holding s) {k : ℕ} (hm : s.sent[k]? = some m) (hst : m.status = .travelling)
    (hcalls : s'.calls = s.calls) (hnow : s'.now = s.now)
    (hrow : s'.row = (landStatement s k m).row) (hwrote : s'.wrote = (landStatement s k m).wrote)
    {t : Status} (hsent : s'.sent = s.sent.set k { m with status := t })
    (hlanded : t = .landed true →
      (landStatement s k m).sent ≠ s.sent.set k { m with status := .landed false }) :
    Holding s' := by
  intro i c hc hclaimed
  rw [hcalls] at hc
  rw [hrow, hwrote, hnow]
  have hcases := claimed_of_setStatus hwf hm hsent hc hclaimed
  by_cases hholder : m.holder = c.holder
  · by_cases hk : ∀ j, m.kind ≠ .delete j
    · rw [← hholder]
      rcases landStatement_own s k hk with ⟨u, hu, hown⟩ | ⟨hsame, hrow', hfail⟩
      · exact ⟨u, hu, fun _ => hown⟩
      · rw [hsame, hrow', hholder]
        rcases hcases with hclaimed | ⟨-, -, hok⟩
        · exact h i c hc hclaimed
        · exact absurd hfail (hlanded hok)
    · push Not at hk
      obtain ⟨j, hk⟩ := hk
      exfalso
      obtain ⟨d, hd, hdh, hdp, hdo⟩ := open_of_delete_travelling hwf hover hm hk hst (by
        intro d hd
        obtain ⟨d', hd', -, hrel, -⟩ := hwf.delete_of_sent k m j hm hk
        cases hd.symm.trans hd'
        exact hrel)
      rcases hcases with hclaimed | ⟨hkind, -, -⟩
      · have hopen : c.freed = false := by
          rcases hclaimed with hp | ⟨k', m', hp, -⟩
          · exact hwf.open_of_running i c hc hp
          · exact hwf.open_of_claiming i c k' hc hp
        have hij : i = j := hwf.index_unique hc hd hopen hdo (hholder.symm.trans hdh.symm)
        subst hij
        cases hc.symm.trans hd
        have hphase := hclaimed.not_over
        rw [hdp] at hphase
        cases hphase
      · rw [hk] at hkind
        cases hkind
  · obtain ⟨hsame, hkeep⟩ := landStatement_other s k hholder
    rcases hcases with hclaimed | ⟨-, hown, -⟩
    · obtain ⟨u, hu, hrow'⟩ := h i c hc hclaimed
      rw [hsame]
      exact ⟨u, hu, fun hlive => hkeep u hlive (hrow' hlive)⟩
    · exact absurd hown hholder

end Holding

theorem holding_step {e : Event} (hwf : WellFormed s)
    (hover : FreedOver (fun _ release => release = true) s) (h : Holding s)
    (hs : step s e = some s') : Holding s' := by
  cases steps_of_step hs with
  | passTime d => exact h.quiet (l := []) (by simp) (List.append_nil _).symm rfl (by simp) rfl rfl
  | call holder ttlMs release => exact h.call holder ttlMs release
  | @land k m hm hst =>
    obtain ⟨ok, hok⟩ := landStatement_sent s k m
    refine Holding.land hwf hover h hm hst (landStatement_calls s k m) (landStatement_now s k m)
      rfl rfl hok ?_
    rintro hst' hfail
    rw [hok, hst'] at hfail
    have hget := congrArg (fun l => l[k]?) hfail
    simp [lt_length_of_getElem? hm] at hget
  | @landUnheard k m hm hst =>
    obtain ⟨ok, hok⟩ := landStatement_sent s k m
    refine Holding.land hwf hover h hm hst (landStatement_calls s k m) (landStatement_now s k m)
      rfl rfl (t := .unheard) ?_ (fun ht => by cases ht)
    simp only [Replicas.setStatus, hok, List.set_set]
  | lose hm =>
    intro i c hc hclaimed
    rcases Holding.claimed_of_setStatus hwf hm rfl hc hclaimed with hclaimed | ⟨-, -, hst⟩
    · exact h i c hc hclaimed
    · cases hst
  | answer hc hans => exact h.answer hc hans
  | renew hc hp =>
    exact h.move (l := [_]) hc rfl (by simp) rfl rfl rfl rfl rfl (fun _ => Or.inl rfl)
  | finish hc hp =>
    exact h.leave (l := []) hc rfl (by simp) (List.append_nil _).symm rfl rfl rfl rfl (Or.inl rfl)
  | giveUp hc hp =>
    exact h.leave (l := []) hc rfl (by simp) (List.append_nil _).symm rfl rfl rfl rfl (Or.inl rfl)
  | endLate hc hp =>
    exact h.move (l := []) hc rfl (by simp) (List.append_nil _).symm rfl rfl rfl rfl
      (fun _ => Or.inl rfl)
  | afterRun hc haft => exact h.afterRun hc haft
  | sendDelete hc hdel => exact h.sendDelete hc hdel
  | settleDone hc hset => exact h.settleDone hc hset
  | settleTimeout hc hp hfreed =>
    exact h.move (l := []) hc rfl (by simp) (List.append_nil _).symm rfl rfl rfl rfl
      (fun _ => Or.inl rfl)
  | keepAliveTick htick => exact h.keepAlive htick
  | keepAliveAnswer hans => exact h.keepAliveAnswer hans

def Event.isGiveUp : Event → Bool
  | .giveUp _ => true
  | _ => false

def WithinMaxHold (_ : Replicas) (e : Event) (_ : Replicas) : Prop := e.isGiveUp = false

instance (s : Replicas) (e : Event) (s' : Replicas) : Decidable (WithinMaxHold s e s') :=
  inferInstanceAs (Decidable (e.isGiveUp = false))

theorem runningInPhase_move (h : RunningInPhase s) {c' : Call} (hc : s.calls[i]? = some c)
    (hcalls : s'.calls = s.calls.set i c')
    (hrun : c'.inProgress = true → (c.inProgress = true → c.phase = .running) →
      c'.phase = .running) : RunningInPhase s' := by
  intro j d hd hin
  rw [hcalls, getElem?_set_eq_some] at hd
  rcases hd with ⟨rfl, -, rfl⟩ | ⟨-, hd⟩
  · exact hrun hin (h i c hc)
  · exact h j d hd hin

theorem runningInPhase_congr (h : RunningInPhase s) (hcalls : s'.calls = s.calls) :
    RunningInPhase s' := by
  intro i c hc
  rw [hcalls] at hc
  exact h i c hc

theorem runningInPhase_advance (h : RunningInPhase s) {c' : Call} (hc : s.calls[i]? = some c)
    (hcalls : s'.calls = s.calls.set i c') (hin : c'.inProgress = c.inProgress)
    (hp : c.phase ≠ .running) : RunningInPhase s' :=
  runningInPhase_move h hc hcalls (fun h₁ h₂ => absurd (h₂ (hin.symm.trans h₁)) hp)

theorem runningInPhase_answer (h : RunningInPhase s) (hc : s.calls[i]? = some c)
    (hs : answerStep s i c = some s') : RunningInPhase s' := by
  simp only [answerStep] at hs
  split at hs
  case h_1 k hp =>
    split at hs
    · cases hs
      exact runningInPhase_move h hc rfl (fun _ _ => rfl)
    all_goals cases hs
    all_goals exact runningInPhase_advance h hc rfl rfl (by simp [hp])
  case h_2 => cases hs

theorem runningInPhase_afterRun (h : RunningInPhase s) {clock : ℚ} (hc : s.calls[i]? = some c)
    (hs : afterRunStep s i c clock = some s') : RunningInPhase s' := by
  simp only [afterRunStep] at hs
  split_ifs at hs with hp hrel httl
  all_goals cases hs
  all_goals exact runningInPhase_advance h hc rfl rfl (by simp [hp.1])

theorem runningInPhase_sendDelete (h : RunningInPhase s) (hc : s.calls[i]? = some c)
    (hs : sendDeleteStep s i c = some s') : RunningInPhase s' := by
  simp only [sendDeleteStep] at hs
  split at hs
  case h_1 p hp =>
    split_ifs at hs
    cases hs
    exact runningInPhase_advance h hc rfl rfl (by simp [hp])
  case h_2 => cases hs

theorem runningInPhase_settleDone (h : RunningInPhase s) (hc : s.calls[i]? = some c)
    (hs : settleDoneStep s i c = some s') : RunningInPhase s' := by
  simp only [settleDoneStep] at hs
  split at hs
  case h_1 w hp =>
    split_ifs at hs
    all_goals cases hs
    all_goals exact runningInPhase_advance h hc rfl rfl (by simp [hp])
  case h_2 => cases hs

theorem runningInPhase_step {e : Event} (h : RunningInPhase s) (hs : step s e = some s')
    (hmax : WithinMaxHold s e s') : RunningInPhase s' := by
  cases steps_of_step hs with
  | passTime d => exact runningInPhase_congr h rfl
  | call holder ttlMs release =>
    unfold callStep
    split_ifs
    · exact h
    intro i c hc hin
    rcases getElem?_concat_eq_some.mp hc with hc | ⟨-, rfl⟩
    · exact h i c hc hin
    · cases hin
  | land hm hst => exact runningInPhase_congr h (landStatement_calls s _ _)
  | landUnheard hm hst => exact runningInPhase_congr h (landStatement_calls s _ _)
  | lose hm => exact runningInPhase_congr h rfl
  | answer hc hans => exact runningInPhase_answer h hc hans
  | renew hc hp => exact runningInPhase_move h hc rfl (fun _ _ => hp)
  | finish hc hp => exact runningInPhase_move h hc rfl (fun hin => by cases hin)
  | giveUp hc hp => cases hmax
  | endLate hc hp => exact runningInPhase_move h hc rfl (fun hin => by cases hin)
  | afterRun hc haft => exact runningInPhase_afterRun h hc haft
  | sendDelete hc hdel => exact runningInPhase_sendDelete h hc hdel
  | settleDone hc hset => exact runningInPhase_settleDone h hc hset
  | settleTimeout hc hp hfreed => exact runningInPhase_move h hc rfl (fun h₁ h₂ => h₂ h₁)
  | keepAliveTick htick =>
    obtain ⟨l, -, hl⟩ := Option.bind_eq_some_iff.mp htick
    split_ifs at hl
    all_goals cases hl
    all_goals exact runningInPhase_congr h rfl
  | keepAliveAnswer hans =>
    simp only [keepAliveAnswerStep] at hans
    split at hans
    · split_ifs at hans
      all_goals cases hans
      all_goals exact runningInPhase_congr h rfl
    · cases hans

/-- Every process with a run in progress has renewed in time: the expiry it stored last has not
passed. -/
def Fresh (s : Replicas) : Prop :=
  ∀ c ∈ s.calls, c.inProgress = true →
    (s.wrote c.holder).any (fun u => !u.before s.now) = true

instance (s : Replicas) : Decidable (Fresh s) :=
  inferInstanceAs (Decidable (∀ c ∈ s.calls, c.inProgress = true → _))

/-- The three invariants together, along a run that keeps to its hold and whose run locks are
released before the wait for it runs out. -/
theorem exclusion_invariant (now : ℤ) (row : Option SettingValue) {es : List Event}
    (hs : exec step (initial now row) es = some s)
    (hmax : Along step WithinMaxHold (initial now row) es)
    (hprompt : Along step (Prompt (fun _ release => release = true)) (initial now row) es) :
    WellFormed s ∧ Holding s ∧ RunningInPhase s := by
  have hrun : RunningInPhase s :=
    exec_invariant_along step (fun _ _ _ h hs hP => runningInPhase_step h hs hP)
      (by simp [RunningInPhase, initial]) hmax hs
  have hall : WellFormed s ∧ FreedOver (fun _ release => release = true) s ∧ Holding s := by
    have hinit : WellFormed (initial now row) ∧
        FreedOver (fun _ release => release = true) (initial now row) ∧
          Holding (initial now row) :=
      ⟨wellFormed_initial now row, freedOver_initial now row, holding_initial now row⟩
    refine exec_invariant_along step (I := fun t => WellFormed t ∧ FreedOver _ t ∧ Holding t) ?_
      hinit hprompt hs
    rintro t e t' ⟨hwf, hover, hhold⟩ ht hP
    exact ⟨wellFormed_step hwf ht, freedOver_step hover ht hP, holding_step hwf hover hhold ht⟩
  exact ⟨hall.1, hall.2.2, hrun⟩

/-- While every running process has renewed in time, at most one run is in progress, over all
processes and all calls of each. -/
theorem leased_runs_exclude (now : ℤ) (row : Option SettingValue) (es : List Event) (s : Replicas)
    (hs : exec step (initial now row) es = some s)
    (hmax : Along step WithinMaxHold (initial now row) es)
    (hprompt : Along step (Prompt (fun _ release => release = true)) (initial now row) es)
    (hfresh : Fresh s) (i j : ℕ) (c d : Call) (hc : s.calls[i]? = some c)
    (hd : s.calls[j]? = some d) (hcp : c.inProgress = true) (hdp : d.inProgress = true) : i = j := by
  obtain ⟨hwf, hhold, hrun⟩ := exclusion_invariant now row hs hmax hprompt
  have hown : ∀ (k : ℕ) (b : Call), s.calls[k]? = some b → b.inProgress = true →
      ∃ u, s.row = some (leaseValue b.holder u) := by
    intro k b hb hbp
    obtain ⟨u, hu, hrow⟩ := hhold k b hb (Or.inl (hrun k b hb hbp))
    have hlive := hfresh b (List.mem_of_getElem? hb) hbp
    rw [hu] at hlive
    exact ⟨u, hrow (by simpa using hlive)⟩
  obtain ⟨u, hu⟩ := hown i c hc hcp
  obtain ⟨v, hv⟩ := hown j d hd hdp
  have hholder : c.holder = d.holder := by
    rw [hu] at hv
    simp only [leaseValue, Option.some.injEq, SettingValue.json.injEq] at hv
    exact hv.1
  exact hwf.index_unique hc hd (hwf.open_of_running i c hc (hrun i c hc hcp))
    (hwf.open_of_running j d hd (hrun j d hd hdp)) hholder

def twoPods : List Event :=
  [.call "pod-a" 60000 true, .call "pod-b" 60000 true, .land 0, .land 1, .answer 0, .answer 1]

theorem leased_runs_exclude_two_pods : ∃ s, exec step (initial 0 none) twoPods = some s ∧
      ∀ (i j : ℕ) (c d : Call), s.calls[i]? = some c → s.calls[j]? = some d →
        c.inProgress = true → d.inProgress = true → i = j := by
  have hprompt : Along step (Prompt (fun _ release => release = true)) (initial 0 none) twoPods := by
    refine along_of_forall step ?_ _
    rintro e he _ _ i c rfl
    simp [twoPods] at he
  have hrun : (exec step (initial 0 none) twoPods).any (fun s => decide (Fresh s)) = true := by
    decide +kernel
  obtain ⟨s, hs, hfresh⟩ := (Option.any_eq_true _ _).mp hrun
  exact ⟨s, hs, leased_runs_exclude 0 none twoPods s hs (by decide +kernel) hprompt
    (of_decide_eq_true hfresh)⟩

/-- A run lock's DELETE is delayed past the wait for it and removes the row of its process's next
run, which goes on; another pod takes the free row. -/
def lateDelete : List Event :=
  [.call "pod-a" 60000 true, .land 0, .answer 0, .finish 0, .afterRun 0 0, .sendDelete 0,
    .passTime 60000000, .settleTimeout 0, .call "pod-a" 60000 true, .land 2, .answer 1, .land 1,
    .call "pod-b" 60000 true, .land 3, .answer 2]

theorem leased_runs_overlap :
    Along step (fun s e s' => WithinMaxHold s e s' ∧ Fresh s') (initial 0 none) lateDelete ∧
      ∃ s, exec step (initial 0 none) lateDelete = some s ∧
        (s.calls.map fun c => (c.holder, c.inProgress)) =
          [("pod-a", false), ("pod-a", true), ("pod-b", true)] := by
  refine ⟨by decide +kernel, _, rfl, rfl⟩

end Insula.LeasedRun
