import Insula.BandwidthBilling

/-!
# The cap of the bandwidth meter

The flag of a tenant is written before the ingress is reconciled, and a later tick looks at the flag
alone. An ingress whose reconcile was missed is therefore repaired only by a later change of the
flag, and that of a suspended tenant by none.
-/

namespace Insula.Bandwidth

def Account.Applied (a : Account) : Prop := a.ingress = a.capped

def Account.usedAfter (a : Account) (p : Pass) : ℚ :=
  match p.measured with
  | none => a.used
  | some m => numericScale4 ((if isNewCycle a.cycleStart p.now then 0 else a.used) + m.deltaGb a.ns)

/-- The pass lifts the cap: the month has turned, and the queries were answered. -/
def Account.lifts (a : Account) (p : Pass) : Prop :=
  p.measured.isSome ∧ isNewCycle a.cycleStart p.now ∧ a.capped

def Account.raises (a : Account) (p : Pass) : Prop :=
  (a.capped = false ∨ a.lifts p) ∧ (resolveBandwidthLimit a.override a.planLimit : ℚ) ≤ a.usedAfter p

def Account.flips (a : Account) (p : Pass) : Prop := a.provisioned ∧ (a.lifts p ∨ a.raises p)

/-- The flag is another after the tick than before. -/
def Account.turns (a : Account) (p : Pass) : Prop := a.provisioned ∧ ¬ (a.lifts p ↔ a.raises p)

/-! ## The threshold -/

theorem bandwidthThreshold_full (usedGb : ℚ) {limitGb : ℤ} (hlimit : 0 < limitGb) :
    (∃ t, bandwidthThreshold usedGb limitGb = some t ∧ 100 ≤ t) ↔ (limitGb : ℚ) ≤ usedGb := by
  have hpos : (0 : ℚ) < limitGb := by exact_mod_cast hlimit
  have hfull : (100 : ℚ) ≤ usedGb / limitGb * 100 ↔ (limitGb : ℚ) ≤ usedGb := by
    rw [← one_le_div hpos]
    constructor <;> intro h <;> linarith
  simp only [bandwidthThreshold, if_pos hlimit, bandwidthThresholds, List.foldl_cons,
    List.foldl_nil, Nat.cast_ofNat]
  rw [← hfull]
  by_cases h : (100 : ℚ) ≤ usedGb / limitGb * 100
  · simp [h]
  · rw [if_neg h]
    split_ifs <;> simp [h]

/-! ## Missed reconciles -/

/-- The ingress shows the flag exactly when an even number of its changes was missed. -/
def Account.Tracked (a : Account) : Prop := a.Applied ↔ Even a.missed

section Tracked

variable {a b : Account} {w : World}

theorem Account.Tracked.congr (h : a.Tracked) (hingress : b.ingress = a.ingress)
    (hcapped : b.capped = a.capped) (hmissed : b.missed = a.missed) : b.Tracked := by
  simpa only [Account.Tracked, Account.Applied, hingress, hcapped, hmissed] using h

theorem Account.Tracked.setCapped (h : a.Tracked) (flag : Bool) : (a.setCapped flag).Tracked := by
  by_cases heq : a.capped = flag
  · exact h.congr rfl heq.symm (if_pos heq)
  · have hflip : (a.setCapped flag).Applied ↔ ¬ a.Applied := by
      change a.ingress = flag ↔ ¬ a.ingress = a.capped
      revert heq
      cases a.ingress <;> cases a.capped <;> cases flag <;> simp
    have hmissed : (a.setCapped flag).missed = a.missed + 1 := if_neg heq
    rw [Account.Tracked, hflip, hmissed, Nat.even_add_one]
    exact not_congr h

theorem Account.Tracked.reconciled (h : a.Tracked) (fails : String → Bool) :
    (a.reconciled fails).Tracked := by
  unfold Account.reconciled Account.reconcileIngress
  split_ifs
  · exact h
  · exact h
  · simp [Account.Tracked, Account.Applied]

theorem Account.Tracked.charge (h : a.Tracked) (window : Window) (deltaGb : ℚ) (now : Instant) :
    (a.charge window deltaGb now).Tracked := by
  unfold Account.charge
  split
  · exact (h.setCapped false).congr rfl rfl rfl
  · exact h.congr rfl rfl rfl

theorem Account.Tracked.meterRow (h : a.Tracked) (p : Pass) (m : Measured) (window : Window) :
    (meterRow p m window a).1.Tracked := by
  obtain heq | ⟨-, heq | heq⟩ := meterRow_cases p m window a
  · rwa [heq]
  · rw [heq]
    exact h.charge _ _ _
  · rw [heq]
    exact (h.charge _ _ _).reconciled _

theorem Account.Tracked.evaluateRow (h : a.Tracked) (e : Evaluation) :
    (evaluateRow e a).1.Tracked := by
  have hflagged : ({ a.setCapped true with cappedAt := some e.now } : Account).Tracked :=
    (h.setCapped true).congr rfl rfl rfl
  unfold Bandwidth.evaluateRow
  split
  · split
    · exact h
    · dsimp only
      split_ifs
      · exact h
      · exact hflagged
      · exact hflagged.reconciled _
      · exact hflagged
      · exact h
  · exact h

def World.Tracked (w : World) : Prop := ∀ a ∈ w.accounts, a.Tracked

theorem World.Tracked.meterBandwidthOnce (h : w.Tracked) (p : Pass) :
    (meterBandwidthOnce p w).1.Tracked := by
  have hsweep : ∀ m window, ∀ b ∈ (sweep (Bandwidth.meterRow p m window) (p.order w.accounts)).1,
      b.Tracked := by
    intro m window b hb
    obtain ⟨a, ha, rfl | rfl⟩ := mem_sweep hb
    · exact h b ((p.order_perm _).mem_iff.1 ha)
    · exact (h a ((p.order_perm _).mem_iff.1 ha)).meterRow p m window
  unfold Bandwidth.meterBandwidthOnce
  split
  · exact h
  · split
    · exact h
    · rename_i m _
      split
      · rename_i rows hs
        intro b hb
        exact hsweep m _ b (by rw [hs]; exact hb)
      · rename_i rows hs
        split_ifs <;> exact fun b hb => hsweep m _ b (by rw [hs]; exact hb)

theorem World.Tracked.evaluate (h : w.Tracked) (e : Evaluation) :
    (evaluateBandwidthThresholds e w).Tracked := by
  unfold evaluateBandwidthThresholds
  split
  · exact h
  · intro b hb
    obtain ⟨a, ha, rfl | rfl⟩ := mem_sweep hb
    · exact h b ((e.order_perm _).mem_iff.1 ha)
    · exact (h a ((e.order_perm _).mem_iff.1 ha)).evaluateRow e

theorem World.Tracked.step (h : w.Tracked) (event : Event) : (w.step event).Tracked := by
  cases event with
  | tick p e =>
    have hmeter := h.meterBandwidthOnce p
    simp only [World.step, tick]
    split
    · rename_i w' hw
      rwa [hw] at hmeter
    · rename_i w' _ hw
      rw [hw] at hmeter
      exact hmeter.evaluate e
  | enrol id ns ns_ne s =>
    intro a ha
    obtain ha | ha := List.mem_append.1 ha
    · exact h a ha
    · rw [List.mem_singleton.1 ha]
      simp [Account.Tracked, Account.Applied, Account.enrolled]
  | configure id s =>
    intro a ha
    obtain ⟨old, hold, rfl⟩ := List.mem_map.1 ha
    split
    · exact (h old hold).congr rfl rfl rfl
    · exact h old hold
  | reconcile id fails =>
    intro a ha
    obtain ⟨old, hold, rfl⟩ := List.mem_map.1 ha
    split
    · exact (h old hold).reconciled fails
    · exact h old hold
  | remove id =>
    intro a ha
    exact h a (List.mem_filter.1 ha).1

theorem World.Tracked.run (h : w.Tracked) (events : List Event) : (w.run events).Tracked := by
  induction events generalizing w with
  | nil => exact h
  | cons event rest ih => exact ih (h.step event)

end Tracked

/-! ## A tick without failures -/

/-- No store call throws, and no reconcile fails. -/
structure Healthy (p : Pass) (e : Evaluation) : Prop where
  pass : p.cut = none
  evaluation : e.cut = none
  lift : ∀ id, p.reconcileFails id = false
  cap : ∀ id, e.reconcileFails id = false

def meteredRow (p : Pass) (w : World) (a : Account) : Account :=
  match p.measured with
  | none => a
  | some m => (meterRow p m (measuredWindow w.lastRun p) a).1

section Healthy

variable {p : Pass} {e : Evaluation} {w : World} {a : Account}

theorem meterRow_completes (hcut : p.cut = none) (m : Measured) (window : Window) :
    (meterRow p m window a).2 = false := by
  by_contra h
  obtain ⟨-, h | h | h⟩ := meterRow_threw (eq_true_of_ne_false h) <;> simp [hcut] at h

theorem sweep_never {α : Type*} {body : α → α × Bool} (h : ∀ row, (body row).2 = false)
    (rows : List α) : sweep body rows = (rows.map fun row => (body row).1, false) := by
  have hcompletes : (sweep body rows).2 = false := by
    by_contra hthrew
    obtain ⟨_, row, _, -, -, hrow, -⟩ := sweep_threw (eq_true_of_ne_false hthrew)
    simp [h] at hrow
  exact Prod.ext (sweep_completed hcompletes) hcompletes

theorem meter_healthy (h : p.cut = none) :
    (∃ n, (meterBandwidthOnce p w).2 = some n) ∧ ∀ b, b ∈ (meterBandwidthOnce p w).1.accounts ↔
      ∃ a ∈ w.accounts, meteredRow p w a = b := by
  unfold meterBandwidthOnce meteredRow
  rw [if_neg (by simp [h])]
  cases p.measured with
  | none => simp
  | some m =>
    dsimp only
    rw [sweep_never fun row => meterRow_completes h m _]
    simp [h, (p.order_perm w.accounts).mem_iff]

theorem evaluateRow_completes (h : e.cut = none) : (evaluateRow e a).2 = false := by
  unfold evaluateRow
  split
  · split
    · rfl
    · dsimp only
      split_ifs <;> simp_all
  · rfl

theorem evaluate_healthy (h : e.cut = none) (b : Account) :
    b ∈ (evaluateBandwidthThresholds e w).accounts ↔ ∃ a ∈ w.accounts, (evaluateRow e a).1 = b := by
  unfold evaluateBandwidthThresholds
  rw [if_neg (by simp [h]), sweep_never fun row => evaluateRow_completes h]
  simp [(e.order_perm w.accounts).mem_iff]

theorem tick_healthy (h : Healthy p e) (b : Account) :
    b ∈ (tick p e w).accounts ↔ ∃ a ∈ w.accounts, (evaluateRow e (meteredRow p w a)).1 = b := by
  obtain ⟨⟨n, hn⟩, hmeter⟩ := meter_healthy (w := w) h.pass
  unfold tick
  split
  · rename_i w' hw
    simp [hw] at hn
  · rename_i w' _ hw
    rw [hw] at hmeter
    rw [evaluate_healthy h.evaluation]
    constructor
    · rintro ⟨a', ha', rfl⟩
      obtain ⟨a, ha, rfl⟩ := (hmeter a').1 ha'
      exact ⟨a, ha, rfl⟩
    · rintro ⟨a, ha, rfl⟩
      exact ⟨meteredRow p w a, (hmeter _).2 ⟨a, ha, rfl⟩, rfl⟩

/-- The metering of a row: a lifted cap is applied unless the tenant is suspended, any other flag
and ingress stay. -/
theorem meteredRow_spec (h : Healthy p e) (hp : a.provisioned) :
    (meteredRow p w a).provisioned ∧ (meteredRow p w a).suspended = a.suspended ∧
      (meteredRow p w a).override = a.override ∧ (meteredRow p w a).planLimit = a.planLimit ∧
      (meteredRow p w a).used = a.usedAfter p ∧
      (a.lifts p → (meteredRow p w a).capped = false ∧
        (meteredRow p w a).ingress = (a.suspended && a.ingress)) ∧
      (¬ a.lifts p → (meteredRow p w a).capped = a.capped ∧
        (meteredRow p w a).ingress = a.ingress) := by
  unfold meteredRow Account.usedAfter Account.lifts
  cases p.measured with
  | none => simp [hp]
  | some m =>
    have hcharge : (meterRow p m (measuredWindow w.lastRun p) a).1 =
        if isNewCycle a.cycleStart p.now ∧ a.capped then
          (a.charge (measuredWindow w.lastRun p) (m.deltaGb a.ns) p.now).reconcileIngress
        else a.charge (measuredWindow w.lastRun p) (m.deltaGb a.ns) p.now := by
      simp only [meterRow, if_pos hp, h.pass, reduceCtorEq, if_false, and_false, ne_eq, a.ns_ne,
        not_false_eq_true, and_true, Account.reconciled, h.lift, Bool.false_eq_true]
      split <;> rfl
    dsimp only
    rw [hcharge]
    by_cases hc : isNewCycle a.cycleStart p.now
    · by_cases hcapped : a.capped
      · cases hsuspended : a.suspended <;>
          simp [hc, hcapped, hsuspended, Account.charge, Account.reconcileIngress,
            Account.setCapped, hp]
      · simp [hc, hcapped, Account.charge, Account.setCapped, hp]
    · simp [hc, Account.charge, hp]

/-- The evaluation of a row: a flag that rises is applied unless the tenant is suspended, any other
flag and ingress stay. -/
theorem evaluateRow_spec (h : Healthy p e) (hp : a.provisioned) :
    (a.capped = false ∧ (resolveBandwidthLimit a.override a.planLimit : ℚ) ≤ a.used →
        (evaluateRow e a).1.capped = true ∧
          (evaluateRow e a).1.ingress = (! a.suspended || a.ingress)) ∧
      (¬ (a.capped = false ∧ (resolveBandwidthLimit a.override a.planLimit : ℚ) ≤ a.used) →
        (evaluateRow e a).1 = a) := by
  have hfull := bandwidthThreshold_full a.used
    (resolveBandwidthLimit_pos a.override a.planLimit)
  unfold evaluateRow
  rw [if_pos hp]
  constructor
  · intro hcaps
    obtain ⟨t, ht, hle⟩ := hfull.2 hcaps.2
    cases hsuspended : a.suspended <;>
      simp [ht, hle, hcaps.1, hsuspended, h.evaluation, a.ns_ne, Account.reconciled, h.cap,
        Account.setCapped, Account.reconcileIngress]
  · intro hstays
    split
    · rfl
    · rename_i t ht
      rw [if_neg]
      exact fun hboth => hstays ⟨hboth.2, hfull.1 ⟨t, ht, hboth.1⟩⟩

/-- What a tick without failures makes of an ingress: it agrees with the flag when it did so before
or when the tick changes the flag, and that of a suspended tenant when the tick turns the flag to
it. -/
def Account.Converges (a : Account) (p : Pass) (agrees : Prop) : Prop :=
  if a.suspended = true then agrees ↔ ¬ a.turns p else agrees ∨ a.flips p

theorem healthy_row_iff (h : Healthy p e) :
    (evaluateRow e (meteredRow p w a)).1.Applied ↔ a.Converges p a.Applied := by
  by_cases hp : a.provisioned
  · obtain ⟨hp', hsuspended, hover, hplan, hused, hlift, hstay⟩ := meteredRow_spec (w := w) h hp
    obtain ⟨hcap, hkeep⟩ := evaluateRow_spec (a := meteredRow p w a) h hp'
    rw [hover, hplan, hused] at hcap hkeep
    have hflips : a.flips p ↔ a.lifts p ∨ a.raises p := and_iff_right hp
    have hturns : a.turns p ↔ ¬ (a.lifts p ↔ a.raises p) := and_iff_right hp
    have hcapped : a.lifts p → a.capped = true := fun hl => hl.2.2
    unfold Account.Converges Account.Applied
    rw [hflips, hturns]
    by_cases hl : a.lifts p
    · obtain ⟨hcapped', hingress'⟩ := hlift hl
      rw [hcapped'] at hcap hkeep
      have hraises : a.raises p ↔ (resolveBandwidthLimit a.override a.planLimit : ℚ) ≤ a.usedAfter p :=
        and_iff_right (.inr hl)
      by_cases hr : a.raises p
      · obtain ⟨hraised, hingress⟩ := hcap ⟨rfl, hraises.1 hr⟩
        rw [hraised, hingress, hsuspended, hingress', hcapped hl]
        cases a.suspended <;> simp [hl, hr]
      · rw [hkeep fun hboth => hr (hraises.2 hboth.2), hcapped', hingress', hcapped hl]
        cases a.suspended <;> cases a.ingress <;> simp [hl, hr]
    · obtain ⟨hcapped', hingress'⟩ := hstay hl
      rw [hcapped'] at hcap hkeep
      have hraises : a.raises p ↔ a.capped = false ∧
          (resolveBandwidthLimit a.override a.planLimit : ℚ) ≤ a.usedAfter p :=
        and_congr_left fun _ => or_iff_left hl
      by_cases hr : a.raises p
      · obtain ⟨hraised, hingress⟩ := hcap (hraises.1 hr)
        rw [hraised, hingress, hsuspended, hingress', (hraises.1 hr).1]
        cases a.suspended <;> cases a.ingress <;> simp [hl, hr]
      · rw [hkeep fun hboth => hr (hraises.2 hboth), hcapped', hingress']
        cases a.suspended <;> simp [hl, hr]
  · have hmetered : meteredRow p w a = a := by
      unfold meteredRow
      split
      · rfl
      · rw [meterRow_of_not_provisioned hp]
    have hevaluated : (evaluateRow e a).1 = a := by simp [evaluateRow, hp]
    rw [hmetered, hevaluated]
    simp [Account.Converges, Account.flips, Account.turns, hp]

end Healthy

/-- After any run, a tick without failures leaves every ingress as its stored flag exactly when each
tenant has missed an even number of its flag's changes or has its flag changed by the tick; of a
suspended tenant, to whom no reconcile applies the flag, when the number is even together with the
changes of the tick. -/
theorem cap_converges_iff (events : List Event) (p : Pass) (e : Evaluation) (h : Healthy p e) :
    (∀ a ∈ (tick p e (World.fresh.run events)).accounts, a.Applied) ↔
      ∀ a ∈ (World.fresh.run events).accounts, a.Converges p (Even a.missed) := by
  have hfresh : World.fresh.Tracked := fun a ha => by simp [World.fresh] at ha
  have htracked := hfresh.run events
  have hconverges : ∀ a ∈ (World.fresh.run events).accounts,
      a.Converges p a.Applied ↔ a.Converges p (Even a.missed) := by
    intro a ha
    have hmissed : a.Applied ↔ Even a.missed := htracked a ha
    rw [Account.Converges, Account.Converges, hmissed]
  constructor
  · intro hall a ha
    rw [← hconverges a ha, ← healthy_row_iff h]
    exact hall _ ((tick_healthy h _).2 ⟨a, ha, rfl⟩)
  · intro hall b hb
    obtain ⟨a, ha, rfl⟩ := (tick_healthy h b).1 hb
    rw [healthy_row_iff h, hconverges a ha]
    exact hall a ha

theorem healthy_hour : Healthy (passAt 7200000 none) (evaluationAt 7200000) :=
  ⟨rfl, rfl, fun _ => rfl, fun _ => rfl⟩

theorem cap_converges_iff_two_hours : (∀ a ∈ (tick (passAt 7200000 none) (evaluationAt 7200000)
        (World.fresh.run [shopEnrolled, tickAt 3600000 none])).accounts, a.Applied) ↔
      ∀ a ∈ (World.fresh.run [shopEnrolled, tickAt 3600000 none]).accounts,
        a.Converges (passAt 7200000 none) (Even a.missed) :=
  cap_converges_iff _ _ _ healthy_hour

def cappedHour : List Event :=
  [.enrol "shop" "tenant-shop-0a1b2c3d" shop_ns_ne ⟨true, false, none, some 10⟩,
    .tick (passAt 3600000 none) { evaluationAt 3600000 with reconcileFails := fun _ => true }]

/-- The next tick finds the flag up and leaves the ingress as it is. -/
theorem missed_cap_stays : ¬ ∀ (events : List Event) (p : Pass) (e : Evaluation), Healthy p e →
      ∀ a ∈ (tick p e (World.fresh.run events)).accounts, a.Applied := by
  intro h
  have hstate : (tick (passAt 7200000 none) (evaluationAt 7200000)
      (World.fresh.run cappedHour)).accounts.map (fun a => (a.ingress, a.capped)) =
        [(false, true)] := by
    decide +kernel
  obtain ⟨a, ha, hflag⟩ := List.mem_map.1 (hstate ▸ List.mem_singleton_self _)
  have happlied := h cappedHour _ _ ⟨rfl, rfl, fun _ => rfl, fun _ => rfl⟩ a ha
  simp only [Prod.mk.injEq] at hflag
  rw [Account.Applied, hflag.1, hflag.2] at happlied
  cases happlied

end Insula.Bandwidth
