import Insula.BandwidthMeter

/-!
# What the meter bills

The windows that were added to a tenant's totals lie apart as long as every pass that adds one also
records its time, and as long as the lookback is no longer than the time since that record. The
first part fails when a store call throws between a tenant's update and the record of the mark, the
second when the queries reach the metrics store with less delay than those before.
-/

namespace Insula.Bandwidth

/-- No interval was added twice, and the total of the month is at most what its windows measured. -/
structure BilledOnce (a : Account) : Prop where
  apart : (a.cycle ++ a.earlier).Pairwise fun v w => v.window.Apart w.window
  covered : a.used ≤ (a.cycle.map Billed.gb).sum

/-- A store call throws after the update of a tenant has landed and before the mark has. -/
def Pass.tears (p : Pass) (m : Measured) (rows : List Account) : Prop :=
  match p.cut with
  | none | some .reading | some (.mark true) => False
  | some (.mark false) => ∃ t ∈ rows, t.provisioned
  | some (.update id true) => ∃ t ∈ rows, t.provisioned ∧ t.id = id
  | some (.update id false) =>
    ∃ before t after, rows = before ++ t :: after ∧ t.provisioned ∧ t.id = id ∧
      ∃ u ∈ before, u.provisioned
  | some (.record id) => ∃ t ∈ rows, t.provisioned ∧ t.id = id ∧ 0 < m.deltaGb t.ns

/-- The pass, if it comes to its tenant loop, is not torn; its lookback does not reach behind the
queries of the pass that wrote the mark; and the measured bytes are not rounded up to the column's
fourth decimal. -/
structure Pass.Orderly (p : Pass) (m : Measured) (w : World) : Prop where
  whole : ¬ p.tears m (p.order w.accounts)
  lookback : ∀ t, w.measuredTo = some t → t ≤ (measuredWindow w.lastRun p).start
  rounding : ∀ t ∈ w.accounts, t.provisioned → numericScale4 (m.deltaGb t.ns) ≤ m.deltaGb t.ns

def Event.Orderly (w : World) : Event → Prop
  | .tick p _ => p.cut ≠ some .reading → ∀ m, p.measured = some m → p.Orderly m w
  | _ => True

def OrderlyRun (w : World) : List Event → Prop
  | [] => True
  | event :: rest => event.Orderly w ∧ OrderlyRun (w.step event) rest

/-! ## Rounding -/

theorem numericScale4_add (k : ℤ) (gb : ℚ) :
    numericScale4 (k / 10000 + gb) = k / 10000 + numericScale4 gb := by
  have h : ((k : ℚ) / 10000 + gb) * 10000 + 1 / 2 = (gb * 10000 + 1 / 2) + k := by ring
  unfold numericScale4
  rw [h, Int.floor_add_intCast]
  push_cast
  ring

/-! ## The invariant -/

/-- The windows of a tenant lie apart and end at the mark or before, and the total is a multiple of
the column's last decimal that its windows cover. -/
structure Booked (mark : Option Instant) (a : Account) : Prop where
  once : BilledOnce a
  upTo : ∀ b ∈ a.cycle ++ a.earlier, ∃ t, mark = some t ∧ b.window.stop ≤ t
  scale : ∃ k : ℤ, a.used = k / 10000

section Invariant

variable {mark : Option Instant} {a b : Account}

theorem Booked.congr (h : Booked mark a) (hused : b.used = a.used) (hcycle : b.cycle = a.cycle)
    (hearlier : b.earlier = a.earlier) : Booked mark b where
  once := ⟨by rw [hcycle, hearlier]; exact h.once.apart, by rw [hused, hcycle]; exact h.once.covered⟩
  upTo := by rw [hcycle, hearlier]; exact h.upTo
  scale := by rw [hused]; exact h.scale

theorem Booked.later {now : Instant} (h : Booked mark a)
    (hmark : ∀ t, mark = some t → t ≤ now) : Booked (some now) a where
  once := h.once
  upTo v hv := by
    obtain ⟨t, ht, hstop⟩ := h.upTo v hv
    exact ⟨now, rfl, hstop.trans (hmark t ht)⟩
  scale := h.scale

theorem booked_enrolled {id ns : String} {ns_ne : ns ≠ ""} {s : Settings} :
    Booked mark (.enrolled id ns ns_ne s) where
  once := ⟨List.Pairwise.nil, by simp [Account.enrolled]⟩
  upTo v hv := by simp [Account.enrolled] at hv
  scale := ⟨0, by simp [Account.enrolled]⟩

variable {now : Instant} {window : Window} {deltaGb : ℚ}

/-- The list of all billed windows grows by the window of the pass, at a rollover too. -/
theorem charge_windows :
    (a.charge window deltaGb now).cycle ++ (a.charge window deltaGb now).earlier =
      ⟨window, deltaGb⟩ :: (a.cycle ++ a.earlier) := by
  unfold Account.charge
  split <;> rfl

theorem charge_covered (h : Booked mark a) (hround : numericScale4 deltaGb ≤ deltaGb) :
    (a.charge window deltaGb now).used ≤
      ((a.charge window deltaGb now).cycle.map Billed.gb).sum := by
  unfold Account.charge
  split
  · simpa using hround
  · obtain ⟨k, hk⟩ := h.scale
    have hcovered := h.once.covered
    have hsum : numericScale4 (a.used + deltaGb) = a.used + numericScale4 deltaGb := by
      rw [hk, numericScale4_add]
    simp only [hsum, List.map_cons, List.sum_cons]
    linarith

theorem charge_scale : ∃ k : ℤ, (a.charge window deltaGb now).used = k / 10000 := by
  unfold Account.charge
  split
  · exact ⟨_, rfl⟩
  · exact ⟨_, rfl⟩

theorem Booked.charge (h : Booked mark a) (now : Instant)
    (hlook : ∀ t, mark = some t → t ≤ window.start)
    (hstart : window.start ≤ window.stop) (hround : numericScale4 deltaGb ≤ deltaGb) :
    Booked (some window.stop) (a.charge window deltaGb now) where
  once := by
    refine ⟨?_, charge_covered h hround⟩
    rw [charge_windows]
    refine List.pairwise_cons.2 ⟨?_, h.once.apart⟩
    intro v hv
    obtain ⟨t, ht, hle⟩ := h.upTo v hv
    exact .inr (hle.trans (hlook t ht))
  upTo := by
    rw [charge_windows]
    intro v hv
    obtain rfl | hv := List.mem_cons.1 hv
    · exact ⟨_, rfl, le_rfl⟩
    · obtain ⟨t, ht, hle⟩ := h.upTo v hv
      exact ⟨_, rfl, (hle.trans (hlook t ht)).trans hstart⟩
  scale := charge_scale

end Invariant

/-! ## One pass -/

theorem reconciled_books (a : Account) (fails : String → Bool) :
    (a.reconciled fails).used = a.used ∧ (a.reconciled fails).cycle = a.cycle ∧
      (a.reconciled fails).earlier = a.earlier := by
  unfold Account.reconciled Account.reconcileIngress
  split_ifs <;> exact ⟨rfl, rfl, rfl⟩

section MeterPass

variable {p : Pass} {m : Measured} {window : Window} {t : Account}

/-- An iteration leaves the row, or it charges the tenant. -/
theorem meterRow_cases (p : Pass) (m : Measured) (window : Window) (t : Account) :
    (meterRow p m window t).1 = t ∨ t.provisioned ∧
        ((meterRow p m window t).1 = t.charge window (m.deltaGb t.ns) p.now ∨
          (meterRow p m window t).1 =
            (t.charge window (m.deltaGb t.ns) p.now).reconciled p.reconcileFails) := by
  unfold meterRow
  split
  · rename_i hp
    dsimp only
    split_ifs <;> simp [hp]
  · exact .inl rfl

theorem meterRow_of_not_provisioned (h : ¬ t.provisioned) : meterRow p m window t = (t, false) := by
  simp [meterRow, h]

theorem meterRow_threw (h : (meterRow p m window t).2 = true) : t.provisioned ∧
      (p.cut = some (.update t.id false) ∧ (meterRow p m window t).1 = t ∨
        p.cut = some (.update t.id true) ∨ 0 < m.deltaGb t.ns ∧ p.cut = some (.record t.id)) := by
  unfold meterRow at h ⊢
  split at h
  · rename_i hp
    dsimp only at h ⊢
    split_ifs at h ⊢ <;> simp_all
  · simp at h

/-- A pass that is not torn and throws in its tenant loop has left every row as it was. -/
theorem sweep_meterRow_threw {rows : List Account} (hwhole : ¬ p.tears m rows)
    (h : (sweep (meterRow p m window) rows).2 = true) :
    (sweep (meterRow p m window) rows).1 = rows := by
  obtain ⟨before, row, after, hrows, -, hrow, hout⟩ := sweep_threw h
  have hmem : row ∈ rows := by simp [hrows]
  obtain ⟨hp, hcut | hcut | ⟨hpos, hcut⟩⟩ := meterRow_threw hrow
  · have hbefore : ∀ u ∈ before, ¬ u.provisioned := by
      intro u hu hup
      exact hwhole (by simpa only [Pass.tears, hcut.1] using
        ⟨before, row, after, hrows, hp, rfl, u, hu, hup⟩)
    have hsame : before.map (fun u => (meterRow p m window u).1) = before := by
      conv_rhs => rw [← List.map_id before]
      apply List.map_congr_left
      intro u hu
      rw [meterRow_of_not_provisioned (hbefore u hu)]
      rfl
    rw [hout, hsame, hcut.2, hrows]
  · exact absurd (by simpa only [Pass.tears, hcut] using ⟨row, hmem, hp, rfl⟩) hwhole
  · exact absurd (by simpa only [Pass.tears, hcut] using ⟨row, hmem, hp, rfl, hpos⟩) hwhole

theorem sweep_meterRow_idle {rows : List Account} (h : ¬ ∃ t ∈ rows, t.provisioned) {row : Account}
    (hrow : row ∈ (sweep (meterRow p m window) rows).1) : row ∈ rows := by
  obtain ⟨old, hold, rfl | rfl⟩ := mem_sweep hrow
  · exact hold
  · rw [meterRow_of_not_provisioned fun hp => h ⟨old, hold, hp⟩]
    exact hold

/-- What an orderly pass leaves: the world as it was, or every row billed once and the mark
moved. -/
theorem meterBandwidthOnce_cases {w : World}
    (h : p.cut ≠ some .reading → ∀ m, p.measured = some m → p.Orderly m w) :
    ((meterBandwidthOnce p w).1.measuredTo = w.measuredTo ∧
        ∀ b ∈ (meterBandwidthOnce p w).1.accounts, b ∈ w.accounts) ∨
      ∃ m, p.Orderly m w ∧ (meterBandwidthOnce p w).1.measuredTo = some p.lastQuery ∧
        ∀ b ∈ (meterBandwidthOnce p w).1.accounts, ∃ a ∈ w.accounts,
          b = a ∨ b = (meterRow p m (measuredWindow w.lastRun p) a).1 := by
  unfold meterBandwidthOnce
  by_cases hr : p.cut = some .reading
  · rw [if_pos hr]
    exact .inl ⟨rfl, fun b hb => hb⟩
  · rw [if_neg hr]
    cases hm : p.measured with
    | none => exact .inl ⟨rfl, fun b hb => hb⟩
    | some m =>
      have ho := h hr m hm
      have hold : ∀ {b}, b ∈ p.order w.accounts → b ∈ w.accounts :=
        fun hb => (p.order_perm w.accounts).mem_iff.1 hb
      dsimp only
      split
      · rename_i rows hs
        have hsame := sweep_meterRow_threw ho.whole (by rw [hs])
        rw [hs] at hsame
        exact .inl ⟨rfl, fun b hb => hold (hsame ▸ hb)⟩
      · rename_i rows hs
        split_ifs with hlost hlanded
        · refine .inl ⟨rfl, fun b hb => hold ?_⟩
          have hidle : ¬ ∃ t ∈ p.order w.accounts, t.provisioned := by
            simpa only [Pass.tears, hlost] using ho.whole
          exact sweep_meterRow_idle hidle (by rw [hs]; exact hb)
        all_goals
          refine .inr ⟨m, ho, rfl, fun b hb => ?_⟩
          obtain ⟨a, ha, hba⟩ := mem_sweep (by rw [hs]; exact hb)
          exact ⟨a, hold ha, hba⟩

theorem Booked.meterRow {w : World} (ho : p.Orderly m w) (ht : t ∈ w.accounts)
    (h : Booked w.measuredTo t) :
    Booked (some p.lastQuery) (meterRow p m (measuredWindow w.lastRun p) t).1 := by
  have hstart := measuredWindow_start_le w.lastRun p
  have hcharge := fun hp => h.charge p.now ho.lookback hstart (ho.rounding t ht hp)
  obtain heq | ⟨hp, heq | heq⟩ := meterRow_cases p m (measuredWindow w.lastRun p) t
  · rw [heq]
    exact h.later fun mark hmark => (ho.lookback mark hmark).trans hstart
  · rw [heq]
    exact hcharge hp
  · rw [heq]
    obtain ⟨hused, hcycle, hearlier⟩ := reconciled_books
      (t.charge (measuredWindow w.lastRun p) (m.deltaGb t.ns) p.now) p.reconcileFails
    exact (hcharge hp).congr hused hcycle hearlier

end MeterPass

/-! ## Runs -/

def World.Booked (w : World) : Prop := ∀ a ∈ w.accounts, Bandwidth.Booked w.measuredTo a

variable {w : World}

theorem World.Booked.meterBandwidthOnce {p : Pass} (h : w.Booked)
    (ho : p.cut ≠ some .reading → ∀ m, p.measured = some m → p.Orderly m w) :
    (meterBandwidthOnce p w).1.Booked := by
  intro b hb
  obtain ⟨hmark, hrows⟩ | ⟨m, hom, hmark, hrows⟩ := meterBandwidthOnce_cases ho
  · rw [hmark]
    exact h b (hrows b hb)
  · rw [hmark]
    obtain ⟨a, ha, rfl | rfl⟩ := hrows b hb
    · have hstart := measuredWindow_start_le w.lastRun p
      exact (h b ha).later fun mark hm => (hom.lookback mark hm).trans hstart
    · exact (h a ha).meterRow hom ha

/-- The evaluation touches the flag and the ingress, never the books. -/
theorem evaluateRow_books (e : Evaluation) (t : Account) :
    (evaluateRow e t).1.used = t.used ∧ (evaluateRow e t).1.cycle = t.cycle ∧
      (evaluateRow e t).1.earlier = t.earlier := by
  unfold evaluateRow
  split
  · split
    · simp
    · dsimp only
      split_ifs
      · exact ⟨rfl, rfl, rfl⟩
      · exact ⟨rfl, rfl, rfl⟩
      · exact reconciled_books _ _
      · exact ⟨rfl, rfl, rfl⟩
      · exact ⟨rfl, rfl, rfl⟩
  · simp

theorem World.Booked.evaluate (h : w.Booked) (e : Evaluation) :
    (evaluateBandwidthThresholds e w).Booked := by
  unfold evaluateBandwidthThresholds
  split
  · exact h
  · intro b hb
    obtain ⟨a, ha, rfl | rfl⟩ := mem_sweep hb
    · exact h b ((e.order_perm _).mem_iff.1 ha)
    · obtain ⟨hused, hcycle, hearlier⟩ := evaluateRow_books e a
      exact (h a ((e.order_perm _).mem_iff.1 ha)).congr hused hcycle hearlier

theorem World.Booked.step (h : w.Booked) {event : Event} (ho : event.Orderly w) :
    (w.step event).Booked := by
  cases event with
  | tick p e =>
    have hmeter := h.meterBandwidthOnce ho
    simp only [World.step, tick]
    split
    · rename_i w' hw
      rwa [hw] at hmeter
    · rename_i w' _ hw
      rw [hw] at hmeter
      exact hmeter.evaluate e
  | enrol id ns ns_ne s =>
    intro a ha
    obtain ha | ha := List.mem_append.1 ha
    · exact h a ha
    · rw [List.mem_singleton.1 ha]
      exact booked_enrolled
  | configure id s =>
    intro a ha
    obtain ⟨old, hold, rfl⟩ := List.mem_map.1 ha
    split
    · exact (h old hold).congr rfl rfl rfl
    · exact h old hold
  | reconcile id fails =>
    intro a ha
    obtain ⟨old, hold, rfl⟩ := List.mem_map.1 ha
    split
    · obtain ⟨hused, hcycle, hearlier⟩ := reconciled_books old fails
      exact (h old hold).congr hused hcycle hearlier
    · exact h old hold
  | remove id =>
    intro a ha
    exact h a (List.mem_filter.1 ha).1

theorem World.Booked.run (h : w.Booked) {events : List Event} (ho : OrderlyRun w events) :
    (w.run events).Booked := by
  induction events generalizing w with
  | nil => exact h
  | cons event rest ih => exact ih (h.step ho.1) ho.2

/-- In every run whose passes are orderly, each tenant is billed once for what was measured. -/
theorem orderly_runs_bill_once (events : List Event) (h : OrderlyRun .fresh events) :
    ∀ a ∈ (World.fresh.run events).accounts, BilledOnce a := by
  have hfresh : World.fresh.Booked := fun a ha => by simp [World.fresh] at ha
  intro a ha
  exact (hfresh.run h a ha).once

/-! ## A torn pass -/

def busyHour : Measured where
  servedOutRows := []
  servedInRows := []
  txRows := [("tenant-shop-0a1b2c3d", 10000000000)]
  rxRows := []
  platformBackup := []

def passAt (now : Instant) (cut : Option Cut) : Pass where
  now := now
  firstQuery := now
  lastQuery := now
  queries_le := le_rfl
  measured := some busyHour
  order := id
  order_perm := fun _ => .rfl
  cut := cut
  reconcileFails := fun _ => false

def evaluationAt (now : Instant) : Evaluation where
  now := now
  order := id
  order_perm := fun _ => .rfl
  cut := none
  reconcileFails := fun _ => false

def tickAt (now : Instant) (cut : Option Cut) : Event := .tick (passAt now cut) (evaluationAt now)

theorem shop_ns_ne : "tenant-shop-0a1b2c3d" ≠ "" := by decide

def shopEnrolled : Event := .enrol "shop" "tenant-shop-0a1b2c3d" shop_ns_ne ⟨true, false, none, some 1000⟩

theorem orderly_runs_bill_once_two_hours : (World.fresh.run
      [shopEnrolled, tickAt 3600000 none, tickAt 7200000 none]).accounts.Forall BilledOnce := by
  apply List.forall_iff_forall_mem.2
  apply orderly_runs_bill_once
  refine ⟨trivial, fun _ m hm => ?_, fun _ m hm => ?_, trivial⟩
  all_goals
    obtain rfl : busyHour = m := Option.some.inj hm
    refine ⟨fun h => h, fun mark hmark => ?_, fun t ht _ => ?_⟩
  · exact absurd (Eq.trans (by rfl) hmark) (Option.some_ne_none mark).symm
  · obtain rfl := List.mem_singleton.1 ht
    decide +kernel
  · obtain rfl : 3600000 = mark := Option.some.inj (Eq.trans (by decide +kernel) hmark)
    decide +kernel
  · have hns : t.ns ∈ ((World.fresh.step shopEnrolled).step (tickAt 3600000 none)).accounts.map
        (·.ns) := List.mem_map_of_mem ht
    have hns : t.ns ∈ ["tenant-shop-0a1b2c3d"] := Eq.mp (congrArg (t.ns ∈ ·) (by decide +kernel)) hns
    rw [List.mem_singleton.1 hns]
    decide +kernel

/-- The second pass throws at the hourly rollup, after the update of the tenant: the third one
reaches back over the same hour. -/
theorem torn_pass_bills_twice :
    ¬ ∀ (events : List Event), ∀ a ∈ (World.fresh.run events).accounts, BilledOnce a := by
  intro h
  have hwindows : (World.fresh.run [shopEnrolled, tickAt 3600000 none,
      tickAt 7200000 (some (.record "shop")), tickAt 10800000 none]).accounts.map
        (fun a => (a.cycle ++ a.earlier).map Billed.window) =
      [[⟨3600000, 10800000⟩, ⟨3600000, 7200000⟩, ⟨0, 3600000⟩]] := by
    decide +kernel
  obtain ⟨a, ha, hbooks⟩ := List.mem_map.1 (hwindows ▸ List.mem_singleton_self _)
  have hapart := List.pairwise_map.2 (h _ a ha).apart
  rw [hbooks] at hapart
  revert hapart
  decide

end Insula.Bandwidth
