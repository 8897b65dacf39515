import Insula.DeliveryRuns

/-!
# How often a message is handed over

A worker reads the status of its row and claims it with an update that has no condition. A worker
that read `queued` long ago may claim a row that another is sending, or has sent; an operator's
retry may reset such a row, and so may a failure that is written twice. Where no write comes over
the claim of another, or over `sent`, and every message that was accepted is recorded, a message is
handed over at most once.
-/

namespace Insula.Notifications

open Program Concurrent Transition

def Stage.unsent : Stage → Option String
  | claimed id => some id
  | caught id => some id
  | _ => none

section Stages

variable {b : Stage} {id : String}

namespace Stage

theorem unsent_throwing (b : Stage) : b.throwing.unsent = b.unsent := by cases b <;> rfl

theorem throwing_ne_unmarked (hhanded : b ≠ handed id) (hunmarked : b ≠ unmarked id) :
    b.throwing ≠ unmarked id := by
  cases b <;> simp_all [throwing]

theorem claim_of_failing (h : b.failing.claim = some id) : b.claim = some id := by
  cases b <;> simp_all [failing, claim]

theorem unsent_of_failing (h : b.failing.unsent = some id) : b.unsent = some id := by
  cases b <;> simp_all [failing, unsent]

theorem failing_ne_unmarked (hunmarked : b ≠ unmarked id) : b.failing ≠ unmarked id := by
  cases b <;> simp_all [failing]

theorem claim_of_unsent (h : b.unsent = some id) : b.claim = some id := by
  cases b <;> first | exact h | cases h

end Stage

end Stages

/-- One process at most has claimed the delivery, its row says so, and the message was handed over
at most once, by a process that has claimed it still or has recorded it. -/
structure Once (w : World) (id : String) : Prop where
  present : ∀ i, (w.stage i).subject = some id → ∃ d ∈ w.rows, d.id = id
  alone : ∀ i j, (w.stage i).claim = some id → (w.stage j).claim = some id → i = j
  sending : ∀ i, (w.stage i).claim = some id → ∀ d ∈ w.rows, d.id = id → d.status = .sending
  unsent : ∀ i, (w.stage i).unsent = some id → id ∉ w.handedOver
  unmarked : ∀ i, w.stage i ≠ .unmarked id
  once : w.handedOver.count id ≤ 1
  after : id ∈ w.handedOver → ∀ d ∈ w.rows, d.id = id → d.status = .sending ∨ d.status = .sent

/-- No row of the delivery is being sent, or was. -/
def Unsent (w : World) (id : String) : Prop :=
  ∀ d ∈ w.rows, d.id = id → d.status ≠ .sending ∧ d.status ≠ .sent

instance (w : World) (id : String) : Decidable (Unsent w id) := by
  unfold Unsent
  infer_instance

section Keeps

variable {w : World} {id : String} {i : ℕ} {b : Stage}

/-- Where no row of the delivery is being sent or was, nobody has claimed it. -/
theorem Once.free (h : Once w id) (hunsent : Unsent w id) {j : ℕ} :
    (w.stage j).claim ≠ some id := by
  intro hj
  obtain ⟨d, hd, hid⟩ := h.present j (Stage.subject_of_claim hj)
  exact (hunsent d hd hid).1 (h.sending j hj d hd hid)

theorem Once.notHandedOver (h : Once w id) (hunsent : Unsent w id)
    (hpresent : ∃ d ∈ w.rows, d.id = id) : id ∉ w.handedOver := by
  intro hmem
  obtain ⟨d, hd, hid⟩ := hpresent
  rcases h.after hmem d hd hid with hst | hst
  · exact (hunsent d hd hid).1 hst
  · exact (hunsent d hd hid).2 hst

/-- A step that has nothing to do with the row of the delivery. -/
theorem Once.move (h : Once w id) (rows : List Delivery)
    (hrows : ∀ d : Delivery, d.id = id → (d ∈ rows ↔ d ∈ w.rows))
    (hpresent : b.subject = some id → ∃ d ∈ w.rows, d.id = id)
    (hclaim : b.claim = some id → (w.stage i).claim = some id)
    (hunsent : b.unsent = some id → (w.stage i).unsent = some id) (hunmarked : b ≠ .unmarked id) :
    Once { w with rows := rows, stage := Function.update w.stage i b } id where
  present j hj := by
    have hex : ∃ d ∈ w.rows, d.id = id := by
      by_cases hji : j = i
      · subst hji
        simp only [Function.update_self] at hj
        exact hpresent hj
      · simp only [Function.update_of_ne hji] at hj
        exact h.present j hj
    obtain ⟨d, hd, hid⟩ := hex
    exact ⟨d, (hrows d hid).mpr hd, hid⟩
  alone j k hj hk := by
    have hold : ∀ l, (Function.update w.stage i b l).claim = some id →
        (w.stage l).claim = some id := by
      intro l hl
      by_cases hli : l = i
      · subst hli
        simp only [Function.update_self] at hl
        exact hclaim hl
      · simpa only [Function.update_of_ne hli] using hl
    exact h.alone j k (hold j hj) (hold k hk)
  sending j hj d hd hid := by
    have hold : (w.stage j).claim = some id := by
      by_cases hji : j = i
      · subst hji
        simp only [Function.update_self] at hj
        exact hclaim hj
      · simpa only [Function.update_of_ne hji] using hj
    exact h.sending j hold d ((hrows d hid).mp hd) hid
  unsent j hj := by
    by_cases hji : j = i
    · subst hji
      simp only [Function.update_self] at hj
      exact h.unsent j (hunsent hj)
    · simp only [Function.update_of_ne hji] at hj
      exact h.unsent j hj
  unmarked j := by
    by_cases hji : j = i
    · subst hji
      simpa only [Function.update_self] using hunmarked
    · simpa only [Function.update_of_ne hji] using h.unmarked j
  once := h.once
  after hmem d hd hid := h.after hmem d ((hrows d hid).mp hd) hid

/-- The process stays at its row, or an exception takes it to the `catch`. -/
theorem Once.stay (h : Once w id) (hsubject : b.subject = some id → (w.stage i).subject = some id)
    (hclaim : b.claim = some id → (w.stage i).claim = some id)
    (hunsent : b.unsent = some id → (w.stage i).unsent = some id) (hunmarked : b ≠ .unmarked id) :
    Once { w with stage := Function.update w.stage i b } id :=
  h.move w.rows (fun _ _ => Iff.rfl) (fun hb => h.present i (hsubject hb)) hclaim hunsent
    hunmarked

theorem Once.throwing (h : Once w id) (hhanded : w.stage i ≠ .handed id) :
    Once { w with stage := Function.update w.stage i (w.stage i).throwing } id := by
  apply h.stay
  · rw [Stage.subject_throwing]
    exact fun hb => hb
  · rw [Stage.claim_throwing]
    exact fun hb => hb
  · rw [Stage.unsent_throwing]
    exact fun hb => hb
  · exact Stage.throwing_ne_unmarked hhanded (h.unmarked i)

theorem Once.failing (h : Once w id) :
    Once { w with stage := Function.update w.stage i (w.stage i).failing } id := by
  apply h.stay
  · rw [Stage.subject_failing]
    exact fun hb => hb
  · exact Stage.claim_of_failing
  · exact Stage.unsent_of_failing
  · exact Stage.failing_ne_unmarked (h.unmarked i)

/-- A row that nobody is at is claimed. -/
theorem Once.claim (h : Once w id) (hunsent : Unsent w id) (hpresent : ∃ d ∈ w.rows, d.id = id) :
    Once
      { w with
        rows := w.update id .sending
        stage := Function.update w.stage i (.claimed id) } id := by
  have hnot := h.notHandedOver hunsent hpresent
  have hexists : ∃ d ∈ w.update id .sending, d.id = id := by
    obtain ⟨d, hd, hid⟩ := hpresent
    have hid' : (d.apply .sending).id = id := hid
    exact ⟨d.apply .sending, (w.mem_update_self hid').mpr ⟨d, hd, hid, rfl⟩, hid'⟩
  have hown : ∀ j, (Function.update w.stage i (.claimed id) j).claim = some id → j = i := by
    intro j hj
    by_contra hji
    simp only [Function.update_of_ne hji] at hj
    exact h.free hunsent hj
  constructor
  · exact fun _ _ => hexists
  · intro j k hj hk
    rw [hown j hj, hown k hk]
  · intro j hj d hd hid
    obtain ⟨d₀, -, -, rfl⟩ := (w.mem_update_self hid).mp hd
    rfl
  · exact fun _ _ => hnot
  · intro j
    by_cases hji : j = i
    · subst hji
      simp only [Function.update_self]
      exact Stage.noConfusion
    · simpa only [Function.update_of_ne hji] using h.unmarked j
  · exact h.once
  · exact fun hmem => absurd hmem hnot

/-- The row is written by a process that has no claim afterwards, and nobody else has one. -/
theorem Once.write (h : Once w id) {u : Update} (hpresent : ∃ d ∈ w.rows, d.id = id)
    (hothers : ∀ j, j ≠ i → (w.stage j).claim ≠ some id) (hclaim : b.claim = none)
    (hafter : id ∈ w.handedOver → ∀ d : Delivery,
      (d.apply u).status = .sending ∨ (d.apply u).status = .sent) :
    Once { w with rows := w.update id u, stage := Function.update w.stage i b } id := by
  have hnone : ∀ j, (Function.update w.stage i b j).claim ≠ some id := by
    intro j hj
    by_cases hji : j = i
    · subst hji
      rw [Function.update_self, hclaim] at hj
      cases hj
    · rw [Function.update_of_ne hji] at hj
      exact hothers j hji hj
  have hexists : ∃ d ∈ w.update id u, d.id = id := by
    obtain ⟨d, hd, hid⟩ := hpresent
    have hid' : (d.apply u).id = id := by simpa using hid
    exact ⟨d.apply u, (w.mem_update_self hid').mpr ⟨d, hd, hid, rfl⟩, hid'⟩
  constructor
  · exact fun _ _ => hexists
  · exact fun j _ hj => absurd hj (hnone j)
  · exact fun j hj => absurd hj (hnone j)
  · exact fun j hj => absurd (Stage.claim_of_unsent hj) (hnone j)
  · intro j hj
    have hunmarked : Function.update w.stage i b j = .unmarked id := hj
    apply hnone j
    rw [hunmarked]
    rfl
  · exact h.once
  · intro hmem d hd hid
    obtain ⟨d₀, -, -, rfl⟩ := (w.mem_update_self hid).mp hd
    exact hafter hmem d₀

/-- The claimed message is handed over. -/
theorem Once.send (h : Once w id) (hstage : w.stage i = .claimed id) : Once
      { w with
        handedOver := id :: w.handedOver
        stage := Function.update w.stage i (.handed id) } id := by
  have hclaim : (w.stage i).claim = some id := by
    rw [hstage]
    rfl
  have hnot : id ∉ w.handedOver := by
    apply h.unsent i
    rw [hstage]
    rfl
  have hold : ∀ j, (Function.update w.stage i (.handed id) j).claim = some id →
      (w.stage j).claim = some id := by
    intro j hj
    by_cases hji : j = i
    · rw [hji]
      exact hclaim
    · simpa only [Function.update_of_ne hji] using hj
  constructor
  · intro j _
    exact h.present i (Stage.subject_of_claim hclaim)
  · exact fun j k hj hk => h.alone j k (hold j hj) (hold k hk)
  · exact fun j hj => h.sending j (hold j hj)
  · intro j hj
    by_cases hji : j = i
    · subst hji
      simp only [Function.update_self] at hj
      cases hj
    · simp only [Function.update_of_ne hji] at hj
      exact absurd (h.alone j i (Stage.claim_of_unsent hj) hclaim) hji
  · intro j
    by_cases hji : j = i
    · subst hji
      simp only [Function.update_self]
      exact Stage.noConfusion
    · simpa only [Function.update_of_ne hji] using h.unmarked j
  · rw [List.count_cons_self, List.count_eq_zero_of_not_mem hnot]
  · exact fun _ d hd hid => .inl (h.sending i hclaim d hd hid)

/-- The message of another delivery is handed over. -/
theorem Once.sendOther (h : Once w id) {id' : String} (hne : id' ≠ id) :
    Once { w with handedOver := id' :: w.handedOver } id := by
  have hmem : id ∈ id' :: w.handedOver ↔ id ∈ w.handedOver := by
    simp only [List.mem_cons, or_iff_right_iff_imp]
    exact fun heq => absurd heq.symm hne
  constructor
  · exact h.present
  · exact h.alone
  · exact h.sending
  · exact fun j hj hin => h.unsent j hj (hmem.mp hin)
  · exact h.unmarked
  · have hcount : (id' :: w.handedOver).count id = w.handedOver.count id :=
      List.count_cons_of_ne hne
    rw [hcount]
    exact h.once
  · exact fun hin => h.after (hmem.mp hin)

theorem Once.insert (h : Once w id) {d : Delivery} (hfresh : d.id ∉ w.rows.map Delivery.id)
    (hnot : d.id ∉ w.handedOver) : Once { w with rows := w.rows ++ [d] } id := by
  by_cases hid : d.id = id
  · have hnone : ¬ ∃ d' ∈ w.rows, d'.id = id := by
      rintro ⟨d', hd', hid'⟩
      exact hfresh (List.mem_map.mpr ⟨d', hd', hid'.trans hid.symm⟩)
    have hclaim : ∀ j, (w.stage j).claim ≠ some id := by
      intro j hj
      exact hnone (h.present j (Stage.subject_of_claim hj))
    rw [hid] at hnot
    constructor
    · exact fun _ _ => ⟨d, List.mem_append_right _ (List.mem_singleton.mpr rfl), hid⟩
    · exact fun j _ hj => absurd hj (hclaim j)
    · exact fun j hj => absurd hj (hclaim j)
    · exact fun _ _ => hnot
    · exact h.unmarked
    · exact h.once
    · exact fun hmem => absurd hmem hnot
  · have hrows : ∀ d' : Delivery, d'.id = id → (d' ∈ w.rows ++ [d] ↔ d' ∈ w.rows) := by
      intro d' hd'
      simp only [List.mem_append, List.mem_singleton]
      constructor
      · rintro (hmem | rfl)
        · exact hmem
        · exact absurd hd' hid
      · exact .inl
    constructor
    · intro j hj
      obtain ⟨d', hd', hid'⟩ := h.present j hj
      exact ⟨d', (hrows d' hid').mpr hd', hid'⟩
    · exact h.alone
    · exact fun j hj d' hd' hid' => h.sending j hj d' ((hrows d' hid').mp hd') hid'
    · exact h.unsent
    · exact h.unmarked
    · exact h.once
    · exact fun hmem d' hd' hid' => h.after hmem d' ((hrows d' hid').mp hd') hid'

end Keeps

/-! ## Steps and runs -/

/-- A write to the row, with its answer lost or not, comes from the process that has claimed it, or
finds it neither being sent nor sent; and a message that was accepted is recorded: neither its
sending throws nor the update to `sent`. -/
def Respects (id : String) (w : World) (i : ℕ) : (o : Op) → Except Thrown (Val o) → Prop
  | .updateDelivery id' _, .ok _ => id' = id → (w.stage i).claim = some id ∨ Unsent w id
  | .updateDelivery id' _, .error e => w.stage i ≠ .handed id ∧
      (e.applied = true → id' = id → (w.stage i).claim = some id ∨ Unsent w id)
  | .send id' _, .error e => e.applied = true → id' ≠ id
  | _, _ => True

section Steps

variable {w m : World} {id : String} {i : ℕ} {b : Stage} {o : Op} {u : Update}

theorem Stage.allowed_handed (h : (Stage.handed id).Allowed o) :
    ∃ attempt recipientAddress degradedVars lastError,
      o = .updateDelivery id (.sent attempt recipientAddress degradedVars lastError) := by
  cases o with
  | updateDelivery id' u =>
    cases u with
    | sent attempt recipientAddress degradedVars lastError =>
      cases h
      exact ⟨_, _, _, _, rfl⟩
    | _ => simp [Stage.Allowed] at h
  | _ => simp [Stage.Allowed] at h

/-- A write to the row of another delivery. -/
theorem once_other (h : Once w id) {id' : String} (hne : id' ≠ id)
    (hsubject : b.subject = none ∨ b.subject = some id') (hunmarked : b ≠ .unmarked id) :
    Once { w with rows := w.update id' u, stage := Function.update w.stage i b } id := by
  have hnot : b.subject ≠ some id := by
    rcases hsubject with hb | hb <;> rw [hb]
    · exact fun heq => by cases heq
    · exact fun heq => hne (Option.some.inj heq)
  apply h.move
  · intro d hid
    apply w.mem_update_of_ne
    rw [hid]
    exact fun heq => hne heq.symm
  · exact fun hb => absurd hb hnot
  · exact fun hb => absurd (Stage.subject_of_claim hb) hnot
  · exact fun hb => absurd (Stage.subject_of_claim (Stage.claim_of_unsent hb)) hnot
  · exact hunmarked

/-- A write to the row leaves it at `sending` or `sent` once its message was handed over. -/
theorem Once.apply_of_handedOver (h : Once w id)
    (hallowed : (w.stage i).Allowed (.updateDelivery id u))
    (hok : (w.stage i).claim = some id ∨ Unsent w id) (hmem : id ∈ w.handedOver) (d : Delivery) :
    (d.apply u).status = .sending ∨ (d.apply u).status = .sent := by
  have hpresent := h.present i (Stage.subject_of_allowed hallowed)
  cases u with
  | sending => exact .inl rfl
  | sent attempt recipientAddress degradedVars lastError => exact .inr rfl
  | published => exact .inr rfl
  | failure decision attempt reason =>
    apply absurd hmem
    rcases hok with hi | hunsent
    · apply h.unsent i
      rcases hallowed with hs | hs | hs | hs | ⟨d, hs, -⟩
      · rw [hs]
        rfl
      · rw [hs]
        rfl
      · exact absurd hs (h.unmarked i)
      · rw [hs] at hi
        cases hi
      · rw [hs] at hi
        cases hi
    · exact h.notHandedOver hunsent hpresent
  | requeued =>
    obtain ⟨d, hstage, -⟩ := hallowed
    rcases hok with hi | hunsent
    · rw [hstage] at hi
      cases hi
    · exact absurd hmem (h.notHandedOver hunsent hpresent)

theorem Once.others (h : Once w id) (hok : (w.stage i).claim = some id ∨ Unsent w id) {j : ℕ}
    (hji : j ≠ i) : (w.stage j).claim ≠ some id := by
  rcases hok with hi | hunsent
  · exact fun hj => hji (h.alone j i hj hi)
  · exact h.free hunsent

theorem once_update (h : Once w id) (hallowed : (w.stage i).Allowed (.updateDelivery id u))
    (hok : (w.stage i).claim = some id ∨ Unsent w id)
    (hb : (w.stage i).next (.updateDelivery id u) (.ok ()) = some b) :
    Once { w with rows := w.update id u, stage := Function.update w.stage i b } id := by
  have hpresent := h.present i (Stage.subject_of_allowed hallowed)
  cases u with
  | sending =>
    obtain ⟨d, hstage, -⟩ := hallowed
    have hunsent : Unsent w id := by
      rcases hok with hi | hunsent
      · rw [hstage] at hi
        cases hi
      · exact hunsent
    cases hb
    exact h.claim hunsent hpresent
  | _ =>
    cases hb
    exact h.write hpresent (fun _ => h.others hok) rfl (h.apply_of_handedOver hallowed hok)

theorem once_ok (h : Once w id) {a : Val o} (hallowed : (w.stage i).Allowed o)
    (hm : w.perform o a = some m) (hb : (w.stage i).next o (.ok a) = some b)
    (hok : Respects id w i o (.ok a)) :
    Once { m with stage := Function.update w.stage i b } id := by
  have hsame : Once { w with stage := Function.update w.stage i (w.stage i) } id :=
    h.stay (fun hb => hb) (fun hb => hb) (fun hb => hb) (h.unmarked i)
  cases o with
  | findDelivery id' =>
    obtain ⟨rfl, rfl | ⟨d, hd, rfl⟩⟩ := w.findDelivery_cases hm hb
    · exact hsame
    · apply h.move m.rows (fun _ _ => Iff.rfl)
      · intro hsubject
        simp only [Stage.subject] at hsubject
        split_ifs at hsubject
        exact ⟨d, hd, Option.some.inj hsubject⟩
      · exact fun hb => by cases hb
      · exact fun hb => by cases hb
      · exact Stage.noConfusion
  | updateDelivery id' u =>
    cases hm
    by_cases hid : id' = id
    · subst hid
      exact once_update h hallowed (hok rfl) hb
    · apply once_other h hid
      · cases u <;> cases hb <;> first | exact .inl rfl | exact .inr rfl
      · cases u <;> cases hb <;> exact Stage.noConfusion
  | insertDelivery d =>
    simp only [World.perform, World.effect] at hm
    split_ifs at hm with hfresh
    cases hm
    cases hb
    exact hsame.insert hfresh.1 hfresh.2
  | send id' recipient =>
    have hstage : w.stage i = .claimed id' := hallowed
    cases hm
    cases hb
    by_cases hid : id' = id
    · subst hid
      exact h.send hstage
    · have hmoved : Once { w with stage := Function.update w.stage i (.handed id') } id := by
        apply h.move w.rows (fun _ _ => Iff.rfl)
        · exact fun hb => absurd (Option.some.inj hb) hid
        · exact fun hb => absurd (Option.some.inj hb) hid
        · exact fun hb => by cases hb
        · exact Stage.noConfusion
      exact hmoved.sendOther hid
  | _ =>
    cases hm
    cases hb
    exact hsame

/-- A statement that throws without effect. -/
theorem once_threw (h : Once w id) {e : Thrown} (hthrew : e.applied = false)
    (hallowed : (w.stage i).Allowed o) (hb : (w.stage i).next o (.error e) = some b)
    (hok : Respects id w i o (.error e)) :
    Once { w with stage := Function.update w.stage i b } id := by
  have hhanded : w.stage i ≠ .handed id := by
    intro hstage
    rw [hstage] at hallowed
    obtain ⟨_, _, _, _, rfl⟩ := Stage.allowed_handed hallowed
    exact hok.1 hstage
  have hsame : Once { w with stage := Function.update w.stage i (w.stage i) } id :=
    h.stay (fun hb => hb) (fun hb => hb) (fun hb => hb) (h.unmarked i)
  cases o with
  | updateDelivery id' u =>
    cases u with
    | failure decision attempt reason =>
      simp only [Stage.next, hthrew, Bool.false_eq_true, if_false, Option.some.injEq] at hb
      exact hb ▸ h.failing
    | _ =>
      simp only [Stage.next, hthrew, Bool.false_eq_true, if_false, Option.some.injEq] at hb
      exact hb ▸ h.throwing hhanded
  | send id' recipient =>
    simp only [Stage.next, hthrew, Bool.false_eq_true, if_false, Option.some.injEq] at hb
    exact hb ▸ h.throwing hhanded
  | getTemplate templateId =>
    cases hb
    exact hsame
  | decrypt secret =>
    cases hb
    exact hsame
  | now => cases hb
  | randomUUID => cases hb
  | _ =>
    cases hb
    exact h.throwing hhanded

theorem once_lost (h : Once w id) {e : Thrown} (hlost : e.applied = true)
    (hallowed : (w.stage i).Allowed o) (hm : w.effect o = some m)
    (hb : (w.stage i).next o (.error e) = some b) (hok : Respects id w i o (.error e)) :
    Once { m with stage := Function.update w.stage i b } id := by
  have hhanded : w.stage i ≠ .handed id := by
    intro hstage
    rw [hstage] at hallowed
    obtain ⟨_, _, _, _, rfl⟩ := Stage.allowed_handed hallowed
    exact hok.1 hstage
  have hsame : Once { w with stage := Function.update w.stage i (w.stage i) } id :=
    h.stay (fun hb => hb) (fun hb => hb) (fun hb => hb) (h.unmarked i)
  cases o with
  | updateDelivery id' u =>
    cases hm
    have hstage : b = Stage.unanswered id' u := by
      cases u <;> simpa [Stage.next, hlost] using hb.symm
    subst hstage
    by_cases hid : id' = id
    · subst hid
      have hwrite := hok.2 hlost rfl
      exact h.write (h.present i (Stage.subject_of_allowed hallowed)) (fun _ => h.others hwrite)
        (Stage.claim_unanswered id' u) (h.apply_of_handedOver hallowed hwrite)
    · apply once_other h hid (.inr (Stage.subject_unanswered id' u))
      cases u <;> exact Stage.noConfusion
  | send id' recipient =>
    have hid : id' ≠ id := hok hlost
    simp only [Stage.next, hlost, if_true, Option.some.injEq] at hb
    subst hb
    cases hm
    have hmoved : Once { w with stage := Function.update w.stage i (.unmarked id') } id := by
      apply h.move w.rows (fun _ _ => Iff.rfl)
      · exact fun hb => absurd (Option.some.inj hb) hid
      · exact fun hb => absurd (Option.some.inj hb) hid
      · exact fun hb => by cases hb
      · exact fun heq => hid (Stage.unmarked.inj heq)
    exact hmoved.sendOther hid
  | insertDelivery d =>
    simp only [World.effect] at hm
    split_ifs at hm with hfresh
    cases hm
    cases hb
    exact (h.throwing hhanded).insert hfresh.1 hfresh.2
  | getTemplate templateId =>
    cases hm
    cases hb
    exact hsame
  | decrypt secret =>
    cases hm
    cases hb
    exact hsame
  | now => cases hb
  | randomUUID => cases hb
  | _ =>
    cases hm
    cases hb
    exact h.throwing hhanded

theorem once_act (h : Once w id) {r : Except Thrown (Val o)} (hallowed : (w.stage i).Allowed o)
    (hm : w.respond o r = some m) (hb : (w.stage i).next o r = some b)
    (hok : Respects id w i o r) : Once { m with stage := Function.update w.stage i b } id := by
  cases r with
  | ok a => exact once_ok h hallowed hm hb hok
  | error e =>
    rcases w.respond_error hm with ⟨hthrew, rfl⟩ | ⟨hlost, hm⟩
    · exact once_threw h hthrew hallowed hb hok
    · exact once_lost h hlost hallowed hm hb hok

end Steps

section Runs

variable {encryptionKey : Option String} {s t : Deliveries} {id : String}

/-- No write to the row of the delivery comes over another process's claim or over `sent`. -/
def Undisturbed (id : String) (s : Deliveries) (e : Happening) (_ : Deliveries) : Prop :=
  match e with
  | .act i o r => Respects id s.world i o r
  | _ => True

instance (id : String) (w : World) (i : ℕ) (o : Op) (r : Except Thrown (Val o)) :
    Decidable (Respects id w i o r) := by
  unfold Respects
  split <;> infer_instance

instance (id : String) (s t : Deliveries) (e : Happening) : Decidable (Undisturbed id s e t) := by
  unfold Undisturbed
  split <;> infer_instance

/-- Nothing has begun, and nothing was sent; the table is any. -/
structure AtStart (s : Deliveries) : Prop where
  procs : s.procs = []
  stage : ∀ i, s.world.stage i = .idle
  handedOver : s.world.handedOver = []

theorem AtStart.holds (h : AtStart s) : OnTrack s :=
  holds_of_start h.procs h.stage

theorem AtStart.once (h : AtStart s) : Once s.world id where
  present i hi := by simp [h.stage, Stage.subject] at hi
  alone i j hi := by simp [h.stage, Stage.claim] at hi
  sending i hi := by simp [h.stage, Stage.claim] at hi
  unsent i hi := by simp [h.stage, Stage.unsent] at hi
  unmarked i := by simp [h.stage]
  once := by simp [h.handedOver]
  after hmem := by simp [h.handedOver] at hmem

theorem step_once {e : Happening} (h : OnTrack s ∧ Once s.world id)
    (hs : Concurrent.step (Kind.run encryptionKey) handle s e = some t)
    (hok : Undisturbed id s e t) : OnTrack t ∧ Once t.world id := by
  refine ⟨onTrack_step h.1 hs, ?_⟩
  rcases world_step h.1 hs with hw | ⟨i, o, r, m, b, rfl, hallowed, hm, hb, hw⟩
  · rw [hw]
    exact h.2
  · rw [hw]
    exact once_act h.2 hallowed hm hb hok

/-- Any number of jobs, retries and dispatches, interleaved in any way: where no write comes over
another's claim of the delivery or over `sent`, and its sending is recorded, its message is handed
over at most once. -/
theorem handed_over_at_most_once (hstart : AtStart s) {es : List Happening}
    (hok : Along (Concurrent.step (Kind.run encryptionKey) handle) (Undisturbed id) s es)
    (h : exec (Concurrent.step (Kind.run encryptionKey) handle) s es = some t) :
    t.world.handedOver.count id ≤ 1 := by
  have honce : OnTrack t ∧ Once t.world id :=
    exec_invariant_along _ (fun _ _ _ hs hstep hok => step_once hs hstep hok)
      ⟨hstart.holds, hstart.once⟩ hok h
  exact honce.2.once

end Runs

/-! ## Two jobs for one row -/

def queuedRow : Delivery :=
  (Leg.external "ops@example.test" "backup.failed" "tpl-1").delivery "dlv-1" 0 none

def queuedTable : Deliveries where
  world := { rows := [queuedRow], handedOver := [], stage := fun _ => .idle }
  procs := []

theorem queuedTable_atStart : AtStart queuedTable := ⟨rfl, fun _ => rfl, rfl⟩

/-- A job that has read the row goes on until the message has been accepted. -/
def sends (i : ℕ) : List Happening :=
  [.act i (.updateDelivery "dlv-1" .sending) (.ok ()),
    .act i (.getTemplate "tpl-1") (.ok true),
    .act i (.renderForDelivery queuedRow) (.ok ⟨[], false⟩),
    .act i (.getProviderForCategoryEmail "backup.failed")
      (.ok (some ⟨some "smtp.example.test", false, none⟩)),
    .act i (.send "dlv-1" "ops@example.test") (.ok ())]

def records (i : ℕ) : Happening :=
  .act i (.updateDelivery "dlv-1" (.sent 1 none none none)) (.ok ())

/-- The first job of a backlog and the one that a scan asked for read the row at the same time. -/
def twoJobs : List Happening :=
  [.spawn (.job "dlv-1"), .spawn (.job "dlv-1"),
    .act 0 (.findDelivery "dlv-1") (.ok (some queuedRow)),
    .act 1 (.findDelivery "dlv-1") (.ok (some queuedRow))] ++
    sends 0 ++ [records 0] ++ sends 1 ++ [records 1]

theorem handed_over_twice : ¬ ∀ (s t : Deliveries) (id : String) (es : List Happening), AtStart s →
      exec (Concurrent.step (Kind.run (some "key")) handle) s es = some t →
        t.world.handedOver.count id ≤ 1 := by
  intro hall
  have hrun : ∃ t, exec (Concurrent.step (Kind.run (some "key")) handle) queuedTable twoJobs =
      some t ∧ t.world.handedOver = ["dlv-1", "dlv-1"] := ⟨_, rfl, rfl⟩
  obtain ⟨t, ht, hcount⟩ := hrun
  have hle := hall queuedTable t "dlv-1" twoJobs queuedTable_atStart ht
  rw [hcount] at hle
  exact absurd hle (by decide)

def jobAfterJob : List Happening :=
  [.spawn (.job "dlv-1"), .spawn (.job "dlv-1"),
    .act 0 (.findDelivery "dlv-1") (.ok (some queuedRow))] ++
    sends 0 ++ [records 0] ++
    [.act 1 (.findDelivery "dlv-1") (.ok (some (queuedRow.apply (.sent 1 none none none))))]

theorem handed_over_at_most_once_second_job :
    ∃ t, exec (Concurrent.step (Kind.run (some "key")) handle) queuedTable jobAfterJob = some t ∧
      t.world.handedOver.count "dlv-1" ≤ 1 := by
  have hok : Along (Concurrent.step (Kind.run (some "key")) handle) (Undisturbed "dlv-1")
      queuedTable jobAfterJob := by decide
  exact ⟨_, rfl, handed_over_at_most_once queuedTable_atStart hok rfl⟩

end Insula.Notifications
