import Insula.UnquiesceWaiting

/-!
# What is kept until it is back

A hold may be dropped when its workload is gone, back, or had nothing to bring back, and the call
throws when something that is there did not come back. Two kinds of entries are misjudged: one of 0
whose Deployment is held and cannot be read, or was scaled up by someone else, is taken for gone;
and what the read at the deadline says is not looked at.
-/

namespace Insula.Unquiesce

open Quiesce (Deployment Entry CronEntry QuiesceSnapshot DeploymentStatusView)

variable (e : Environment)

def recorded (d : Entry) : ℕ :=
  if 0 < d.replicas then d.replicas
  else
    match e.deployment d.name with
    | some dep => if dep.view.held then dep.view.preQuiesceReplicas.getD 0 else 0
    | none => 0

def target (d : Entry) : Entry := ⟨d.name, recorded e d⟩

/-- A read of the wait has shown enough replicas available. -/
def Confirmed (t : Entry) : Prop := ∃ s, Read.view s ∈ reads e t e.rounds 0 ∧ t.replicas ≤ s.available

/-- The scale-up to the recorded count was acknowledged and its replicas seen available. -/
def Restored (snap : QuiesceSnapshot) (d : Entry) : Prop :=
  target e d ∈ (unquiesce e snap).scaled ∧ Confirmed e (target e d)

/-- The Deployment was not there, or not there any more when the wait looked. -/
def FoundGone (snap : QuiesceSnapshot) (d : Entry) : Prop :=
  e.deployment d.name = none ∨
    (target e d ∈ (unquiesce e snap).scaled ∧ Read.gone ∈ reads e (target e d) e.rounds 0)

def StillDown (snap : QuiesceSnapshot) (d : Entry) : Prop :=
  0 < recorded e d ∧ ¬ FoundGone e snap d ∧ ¬ Restored e snap d

def CronJobFails (snap : QuiesceSnapshot) : Prop :=
  ∃ cj ∈ snap.cronJobs, cj.wasSuspended = false ∧ ∃ msg, e.unsuspend cj.name = .threw msg

structure Keeps (snap : QuiesceSnapshot) : Prop where
  cleared : ∀ d ∈ snap.deployments, d.name ∈ (unquiesce e snap).cleared → ¬ StillDown e snap d
  throws : (unquiesce e snap).failures ≠ [] ↔
    (∃ d ∈ snap.deployments, StillDown e snap d) ∨ CronJobFails e snap

/-- An entry of 0 has a hold with a count that is taken for nothing: its Deployment cannot be read,
or is not at 0. -/
def HoldOverlooked (d : Entry) : Prop :=
  d.replicas = 0 ∧ ∃ dep, e.deployment d.name = some dep ∧ dep.view.held = true ∧
    dep.view.preQuiesceReplicas.isSome = true ∧ ((e.readError d.name).isSome = true ∨ dep.replicas ≠ 0)

/-- A workload is pending in every round up to the deadline. -/
def Pending (t : Entry) (left round : ℕ) : Prop :=
  ∀ i, round ≤ i → i ≤ round + left → look e i t = none

/-- The first poll of a workload that is not pending says this. -/
def Settles (t : Entry) (left round : ℕ) (v : Verdict) : Prop :=
  ∃ i, round ≤ i ∧ i ≤ round + left ∧ (∀ j, round ≤ j → j < i → look e j t = none) ∧ look e i t = some v

def GoneOrBack (t : Entry) : Prop :=
  e.deadlineRead t.name = .gone ∨ ∃ s, e.deadlineRead t.name = .view s ∧ t.replicas ≤ s.available

def ScalesUp (d : Entry) : Prop :=
  0 < recorded e d ∧ (e.deployment d.name).isSome = true ∧ ¬ HoldOverlooked e d

def BackAtDeadline (d : Entry) : Prop :=
  ScalesUp e d ∧ e.scaleError d.name = none ∧ Pending e (target e d) e.rounds 0 ∧
  GoneOrBack e (target e d)

/-- A workload cannot be scaled up, or cannot be polled, is refused its replicas, or is late. -/
def NotBack (d : Entry) : Prop :=
  ScalesUp e d ∧ ((e.scaleError d.name).isSome = true ∨
    (∃ why, Settles e (target e d) e.rounds 0 (.failed why)) ∨
    (Pending e (target e d) e.rounds 0 ∧ ¬ GoneOrBack e (target e d)))

/-- No overlooked hold can be dropped; and something fails rightly, or there is an overlooked hold
just when there is a failure that the read at the deadline speaks against. -/
structure Judged (snap : QuiesceSnapshot) : Prop where
  stays : ∀ d ∈ snap.deployments, HoldOverlooked e d → e.releases d.name = false
  told : (∃ d ∈ snap.deployments, NotBack e d) ∨ CronJobFails e snap ∨
    ((∃ d ∈ snap.deployments, HoldOverlooked e d) ↔ ∃ d ∈ snap.deployments, BackAtDeadline e d)

def Distinct (snap : QuiesceSnapshot) : Prop := (snap.deployments.map Entry.name).Nodup

variable {e} {snap : QuiesceSnapshot} {d t : Entry} {left round : ℕ} {v : Verdict}

/-! ## The wait of one workload -/

theorem look_cases (e : Environment) (round : ℕ) (t : Entry) :
    (look e round t = none ∧ ∃ s, e.poll round t.name = .view s ∧ s.available < t.replicas) ∨
    (look e round t = some .restored ∧ ∃ s, e.poll round t.name = .view s ∧ t.replicas ≤ s.available) ∨
    (look e round t = some .gone ∧ e.poll round t.name = .gone) ∨
    ((∃ why, look e round t = some (.failed why)) ∧ e.poll round t.name ≠ .gone ∧
      ∀ s, e.poll round t.name = .view s → s.available < t.replicas) := by
  unfold look
  cases hpoll : e.poll round t.name with
  | threw msg => simp
  | gone => simp
  | view s =>
    by_cases hle : t.replicas ≤ s.available
    · simp [hle]
    · cases hfailure : s.replicaFailure <;> simp [hle, not_le.mp hle, hfailure]

theorem reads_of_look (h : look e round t = some v) :
    reads e t left round = [e.poll round t.name] := by
  unfold reads
  simp [h]

theorem reads_zero (h : look e round t = none) :
    reads e t 0 round = [e.poll round t.name, e.deadlineRead t.name] := by
  unfold reads
  simp [h]

theorem reads_succ (left : ℕ) (h : look e round t = none) :
    reads e t (left + 1) round = e.poll round t.name :: reads e t left (round + 1) := by
  conv_lhs => unfold reads
  simp [h]

/-- What the wait has come to for a workload, and what its reads have shown. -/
inductive Shows (e : Environment) (t : Entry) (left round : ℕ) : Prop
  | restored (h : verdict e t left round = .restored) (s : Status) (hs : Read.view s ∈ reads e t left round)
      (hle : t.replicas ≤ s.available)
  | gone (h : verdict e t left round = .gone) (hgone : Read.gone ∈ reads e t left round)
  | failed (why : String) (h : verdict e t left round = .failed why) (hgone : Read.gone ∉ reads e t left round)
      (hless : ∀ s, Read.view s ∈ reads e t left round → s.available < t.replicas)
  | late (why : String) (h : verdict e t left round = .failed why)
      (hpending : Pending e t left round) (hlate : GoneOrBack e t)

theorem shows_of_look (h : look e round t = some v) : Shows e t left round := by
  have hverdict : verdict e t left round = v := by
    cases left with
    | zero => rw [verdict_zero, h, Option.getD_some]
    | succ left => rw [verdict_succ, h, Option.getD_some]
  have hreads : reads e t left round = [e.poll round t.name] := reads_of_look h
  rcases look_cases e round t with ⟨hnone, -⟩ | ⟨hlook, s, hs, hle⟩ | ⟨hlook, hgone⟩ |
    ⟨⟨why, hlook⟩, hgone, hless⟩
  · rw [hnone] at h
    exact absurd h (by simp)
  · obtain rfl := Option.some.inj (h.symm.trans hlook)
    exact .restored hverdict s (by simp [hreads, hs]) hle
  · obtain rfl := Option.some.inj (h.symm.trans hlook)
    exact .gone hverdict (by simp [hreads, hgone])
  · obtain rfl := Option.some.inj (h.symm.trans hlook)
    refine .failed why hverdict (by simpa [hreads] using hgone.symm) fun s hs => hless s ?_
    rw [hreads, List.mem_singleton] at hs
    exact hs.symm

/-- While a workload is pending, what is shown later is shown. -/
theorem Shows.later (hnone : look e round t = none) (h : Shows e t left (round + 1)) :
    Shows e t (left + 1) round := by
  have hverdict : verdict e t (left + 1) round = verdict e t left (round + 1) := by
    rw [verdict_succ, hnone, Option.getD_none]
  have hreads := reads_succ left hnone
  obtain ⟨s, hs, hless⟩ : ∃ s, e.poll round t.name = .view s ∧ s.available < t.replicas := by
    rcases look_cases e round t with ⟨-, h⟩ | ⟨hlook, -⟩ | ⟨hlook, -⟩ | ⟨⟨why, hlook⟩, -⟩
    · exact h
    all_goals exact absurd (hnone.symm.trans hlook) (by simp)
  cases h with
  | restored h s' hs' hle => exact .restored (hverdict.trans h) s' (by simp [hreads, hs']) hle
  | gone h hgone => exact .gone (hverdict.trans h) (by simp [hreads, hgone])
  | failed why h hgone hless' =>
    refine .failed why (hverdict.trans h) (by simp [hreads, hs, hgone]) fun s' hs' => ?_
    rw [hreads, hs] at hs'
    rcases List.mem_cons.mp hs' with heq | hs'
    · obtain rfl := Read.view.inj heq
      exact hless
    · exact hless' s' hs'
  | late why h hpending hlate =>
    refine .late why (hverdict.trans h) (fun i hi hle => ?_) hlate
    rcases Nat.eq_or_lt_of_le hi with rfl | hi
    · exact hnone
    · exact hpending i hi (by omega)

theorem shows (e : Environment) (t : Entry) (left round : ℕ) : Shows e t left round := by
  induction left generalizing round with
  | zero =>
    cases hlook : look e round t with
    | some v => exact shows_of_look hlook
    | none =>
      have hverdict : verdict e t 0 round = .failed (deadlineFailure e t) := by
        rw [verdict_zero, hlook, Option.getD_none]
      obtain ⟨s, hs, hless⟩ : ∃ s, e.poll round t.name = .view s ∧ s.available < t.replicas := by
        rcases look_cases e round t with ⟨-, h⟩ | ⟨h, -⟩ | ⟨h, -⟩ | ⟨⟨why, h⟩, -⟩
        · exact h
        all_goals exact absurd (hlook.symm.trans h) (by simp)
      by_cases hlate : GoneOrBack e t
      · refine .late _ hverdict (fun i hi hle => ?_) hlate
        obtain rfl : i = round := by omega
        exact hlook
      · unfold GoneOrBack at hlate
        push Not at hlate
        refine .failed _ hverdict (by simp [reads_zero hlook, hs, Ne.symm hlate.1]) fun s' hs' => ?_
        rw [reads_zero hlook, hs] at hs'
        rcases List.mem_cons.mp hs' with heq | hs'
        · obtain rfl := Read.view.inj heq
          exact hless
        · exact hlate.2 s' (List.mem_singleton.mp hs').symm
  | succ left ih =>
    cases hlook : look e round t with
    | some v => exact shows_of_look hlook
    | none => exact (ih (round + 1)).later hlook

theorem pending_to_deadline (t : Entry) (left round : ℕ) (h : Pending e t left round) :
    e.deadlineRead t.name ∈ reads e t left round ∧ ∃ why, verdict e t left round = .failed why := by
  induction left generalizing round with
  | zero =>
    have hnone := h round le_rfl le_rfl
    exact ⟨by simp [reads_zero hnone], _, by rw [verdict_zero, hnone, Option.getD_none]⟩
  | succ left ih =>
    have hnone := h round le_rfl (by omega)
    obtain ⟨hread, why, hwhy⟩ := ih (round + 1) fun i hi hle => h i (by omega) (by omega)
    refine ⟨by simp [reads_succ left hnone, hread], why, ?_⟩
    rw [verdict_succ, hnone, Option.getD_none, hwhy]

theorem Settles.later (hnone : look e round t = none) (h : Settles e t left (round + 1) v) :
    Settles e t (left + 1) round v := by
  obtain ⟨i, hi, hle, hbefore, hlook⟩ := h
  refine ⟨i, by omega, by omega, fun j hj hlt => ?_, hlook⟩
  rcases Nat.eq_or_lt_of_le hj with rfl | hj
  · exact hnone
  · exact hbefore j hj hlt

theorem settles_or_pending (e : Environment) (t : Entry) (left round : ℕ) :
    Settles e t left round (verdict e t left round) ∨ Pending e t left round := by
  induction left generalizing round with
  | zero =>
    cases hlook : look e round t with
    | some v =>
      refine .inl ⟨round, le_rfl, le_rfl, fun j hj hlt => absurd hlt (not_lt.mpr hj), ?_⟩
      rw [verdict_zero, hlook, Option.getD_some]
    | none =>
      refine .inr fun i hi hle => ?_
      obtain rfl : i = round := by omega
      exact hlook
  | succ left ih =>
    cases hlook : look e round t with
    | some v =>
      refine .inl ⟨round, le_rfl, by omega, fun j hj hlt => absurd hlt (not_lt.mpr hj), ?_⟩
      rw [verdict_succ, hlook, Option.getD_some]
    | none =>
      rw [verdict_succ, hlook, Option.getD_none]
      refine (ih (round + 1)).imp (Settles.later hlook) fun hpending i hi hle => ?_
      rcases Nat.eq_or_lt_of_le hi with rfl | hi
      · exact hlook
      · exact hpending i hi (by omega)

/-- The first poll that is not pending decides. -/
theorem Settles.unique {u : Verdict} (hu : Settles e t left round u)
    (hv : Settles e t left round v) : u = v := by
  obtain ⟨i, hi, -, hui, hu⟩ := hu
  obtain ⟨j, hj, -, hvj, hv⟩ := hv
  rcases lt_trichotomy i j with hlt | rfl | hlt
  · exact absurd (hu.symm.trans (hvj i hi hlt)) (by simp)
  · exact Option.some.inj (hu.symm.trans hv)
  · exact absurd (hv.symm.trans (hui j hj hlt)) (by simp)

theorem Settles.not_pending (h : Settles e t left round v) : ¬ Pending e t left round := by
  obtain ⟨i, hi, hle, -, hlook⟩ := h
  exact fun hpending => absurd (hlook.symm.trans (hpending i hi hle)) (by simp)

/-! ## The scale-up of one entry -/

theorem pos_of_preQuiesceReplicas {dep : Deployment} {n : ℕ}
    (h : dep.view.preQuiesceReplicas = some n) : 0 < n := by
  obtain ⟨raw, -, hraw⟩ := Option.bind_eq_some_iff.mp h
  unfold Quiesce.parseReplicas at hraw
  split_ifs at hraw
  exact of_decide_eq_true (Option.filter_eq_some_iff.mp hraw).2

theorem scaleDeployment_cases (e : Environment) (name : String) (replicas : ℕ) :
    (scaleDeployment e name replicas = .goneEarly ∧ e.deployment name = none) ∨
    (scaleDeployment e name replicas = .scaled ⟨name, replicas⟩ ∧ (e.deployment name).isSome = true ∧
      e.scaleError name = none) ∨
    (∃ msg, scaleDeployment e name replicas = .failed replicas msg ∧ (e.deployment name).isSome = true ∧
      e.scaleError name = some msg) := by
  unfold scaleDeployment
  cases e.deployment name with
  | none => simp
  | some dep => cases e.scaleError name <;> simp

theorem recorded_pos_of_holdOverlooked (h : HoldOverlooked e d) : 0 < recorded e d := by
  obtain ⟨hzero, dep, hdep, hheld, hsome, -⟩ := h
  obtain ⟨n, hn⟩ := Option.isSome_iff_exists.mp hsome
  have hrecorded : recorded e d = n := by simp [recorded, hzero, hdep, hheld, hn]
  exact hrecorded ▸ pos_of_preQuiesceReplicas hn

theorem attempt_of_holdOverlooked (h : HoldOverlooked e d) : attempt e d = .goneEarly := by
  obtain ⟨hzero, dep, hdep, -, hsome, hoverlooked⟩ := h
  obtain ⟨n, hn⟩ := Option.isSome_iff_exists.mp hsome
  by_cases hread : (e.readError d.name).isSome = true
  · simp [attempt, hzero, readCaught, hread]
  · have hview : dep.view.desired ≠ 0 := hoverlooked.resolve_left hread
    simp [attempt, hzero, readCaught, hread, hdep, hn, hview]

/-- An entry is scaled to its recorded count, unless there is nothing to bring back or its hold is
overlooked, or it fails. -/
inductive Tried (e : Environment) (d : Entry) : Prop
  | nothing (h : attempt e d = .goneEarly) (hnone : e.deployment d.name = none ∨ recorded e d = 0)
  | overlooked (h : attempt e d = .goneEarly) (hoverlooked : HoldOverlooked e d)
  | scaled (h : attempt e d = .scaled (target e d)) (hup : ScalesUp e d) (hok : e.scaleError d.name = none)
  | failed (msg : String) (h : attempt e d = .failed (recorded e d) msg) (hup : ScalesUp e d)
      (herror : e.scaleError d.name = some msg)

theorem tried_of_scale (h : attempt e d = scaleDeployment e d.name (recorded e d))
    (hpos : 0 < recorded e d) (hnot : ¬ HoldOverlooked e d) : Tried e d := by
  rcases scaleDeployment_cases e d.name (recorded e d) with
    ⟨heq, hnone⟩ | ⟨heq, hsome, hok⟩ | ⟨msg, heq, hsome, herror⟩
  · exact .nothing (h.trans heq) (Or.inl hnone)
  · exact .scaled (h.trans heq) ⟨hpos, hsome, hnot⟩ hok
  · exact .failed msg (h.trans heq) ⟨hpos, hsome, hnot⟩ herror

theorem tried (e : Environment) (d : Entry) : Tried e d := by
  by_cases h : HoldOverlooked e d
  · exact .overlooked (attempt_of_holdOverlooked h) h
  by_cases hpos : 0 < d.replicas
  · have hrecorded : recorded e d = d.replicas := if_pos hpos
    exact tried_of_scale (by rw [attempt, if_neg (by omega), hrecorded]) (by omega) h
  have hzero : d.replicas ≤ 0 := not_lt.mp hpos
  cases hdep : e.deployment d.name with
  | none =>
    have hattempt : attempt e d = .goneEarly := by simp [attempt, hzero, readCaught, hdep]
    exact .nothing hattempt (Or.inl hdep)
  | some dep =>
    by_cases hheld : dep.view.held = true ∧ dep.view.preQuiesceReplicas.isSome = true
    · obtain ⟨n, hn⟩ := Option.isSome_iff_exists.mp hheld.2
      have hread : e.readError d.name = none := by
        by_contra hread
        exact h ⟨by omega, dep, hdep, hheld.1, hheld.2, Or.inl (Option.isSome_iff_ne_none.mpr hread)⟩
      have hdesired : dep.view.desired = 0 := by
        by_contra hdesired
        exact h ⟨by omega, dep, hdep, hheld.1, hheld.2, Or.inr hdesired⟩
      have hrecorded : recorded e d = n := by simp [recorded, hpos, hdep, hheld.1, hn]
      have hattempt : attempt e d = scaleDeployment e d.name n := by
        simp [attempt, hzero, readCaught, hread, hdep, hn, hheld.1, hdesired]
      exact tried_of_scale (hrecorded ▸ hattempt) (hrecorded ▸ pos_of_preQuiesceReplicas hn) h
    · have hrecorded : recorded e d = 0 := by
        unfold recorded
        rw [if_neg hpos, hdep]
        by_cases hyes : dep.view.held = true
        · have hnone : dep.view.preQuiesceReplicas = none := by
            rw [← Option.not_isSome_iff_eq_none]
            exact fun hsome => hheld ⟨hyes, hsome⟩
          simp [hnone]
        · simp [hyes]
      have hattempt : attempt e d = .goneEarly := by
        unfold attempt readCaught
        rw [if_pos hzero, hdep]
        by_cases hread : (e.readError d.name).isSome = true
        · simp [hread]
        · cases hn : dep.view.preQuiesceReplicas with
          | none => simp [hread, hn]
          | some n =>
            have hyes : dep.view.held ≠ true := fun hyes => hheld ⟨hyes, by simp [hn]⟩
            simp [hread, hn, hyes]
      exact .nothing hattempt (Or.inr hrecorded)

/-! ## A whole call -/

theorem Distinct.eq (h : Distinct snap) {a b : Entry} (ha : a ∈ snap.deployments)
    (hb : b ∈ snap.deployments) (heq : a.name = b.name) : a = b :=
  List.inj_on_of_nodup_map h ha hb heq

theorem mem_scaledBy : t ∈ scaledBy e snap ↔ ∃ d ∈ snap.deployments, attempt e d = .scaled t := by
  unfold scaledBy
  rw [List.mem_filterMap]
  refine exists_congr fun d => and_congr_right fun _ => ?_
  cases attempt e d <;> simp

theorem mem_goneEarly {name : String} :
    name ∈ goneEarly e snap ↔ ∃ d ∈ snap.deployments, d.name = name ∧ attempt e d = .goneEarly := by
  unfold goneEarly
  rw [List.mem_filterMap]
  refine exists_congr fun d => and_congr_right fun _ => ?_
  cases attempt e d <;> simp

theorem scaleFailures_ne_nil_iff :
    scaleFailures e snap ≠ [] ↔ ∃ d ∈ snap.deployments, ∃ n msg, attempt e d = .failed n msg := by
  unfold scaleFailures
  rw [ne_eq, List.filterMap_eq_nil_iff]
  push Not
  refine exists_congr fun d => and_congr_right fun _ => ?_
  cases attempt e d <;> simp

theorem cronFailures_ne_nil_iff :
    snap.cronJobs.filterMap (unsuspendFailure e) ≠ [] ↔ CronJobFails e snap := by
  unfold CronJobFails
  rw [ne_eq, List.filterMap_eq_nil_iff]
  push Not
  refine exists_congr fun cj => and_congr_right fun _ => ?_
  unfold unsuspendFailure
  cases cj.wasSuspended <;> cases e.unsuspend cj.name <;> simp

theorem scaledBy_target (ht : t ∈ scaledBy e snap) : ∃ d ∈ snap.deployments, t = target e d ∧
    attempt e d = .scaled (target e d) ∧ 0 < recorded e d := by
  obtain ⟨d, hd, hattempt⟩ := mem_scaledBy.mp ht
  cases tried e d with
  | nothing h => exact absurd (h.symm.trans hattempt) (by simp)
  | overlooked h => exact absurd (h.symm.trans hattempt) (by simp)
  | scaled h hup => exact ⟨d, hd, Attempt.scaled.inj (hattempt.symm.trans h), h, hup.1⟩
  | failed msg h => exact absurd (h.symm.trans hattempt) (by simp)

theorem waited_verdict (name : String) (u : Verdict) :
    (waitForRestored e (scaledBy e snap)).Says name u ↔
    ∃ d ∈ snap.deployments, name = d.name ∧ attempt e d = .scaled (target e d) ∧
      verdict e (target e d) e.rounds 0 = u := by
  rw [waitForRestored_verdict fun t ht => by
    obtain ⟨d, -, rfl, -, hpos⟩ := scaledBy_target ht
    exact hpos]
  constructor
  · rintro ⟨t, ht, rfl, hverdict⟩
    obtain ⟨d, hd, rfl, hattempt, -⟩ := scaledBy_target ht
    exact ⟨d, hd, rfl, hattempt, hverdict⟩
  · rintro ⟨d, hd, rfl, hattempt, hverdict⟩
    exact ⟨target e d, mem_scaledBy.mpr ⟨d, hd, hattempt⟩, rfl, hverdict⟩

def Fails (e : Environment) (d : Entry) : Prop :=
  (∃ n msg, attempt e d = .failed n msg) ∨
    (attempt e d = .scaled (target e d) ∧ ∃ why, verdict e (target e d) e.rounds 0 = .failed why)

theorem fails_iff : Fails e d ↔ NotBack e d ∨ BackAtDeadline e d := by
  unfold Fails NotBack BackAtDeadline
  cases tried e d with
  | nothing h hnone =>
    have hdown : ¬ ScalesUp e d := by
      rintro ⟨hpos, hsome, -⟩
      rcases hnone with hnone | hzero
      · simp [hnone] at hsome
      · omega
    simp [h, hdown]
  | overlooked h hoverlooked =>
    have hdown : ¬ ScalesUp e d := fun hup => hup.2.2 hoverlooked
    simp [h, hdown]
  | failed msg h hup herror => simp [h, hup, herror]
  | scaled h hup hok =>
    simp only [h, hup, hok, true_and, reduceCtorEq, exists_false, false_or, Option.isSome_none,
      Bool.false_eq_true]
    rcases settles_or_pending e (target e d) e.rounds 0 with hsettles | hpending
    · have hnot := hsettles.not_pending
      simp only [hnot, false_and, or_false]
      exact exists_congr fun why => ⟨fun heq => heq ▸ hsettles, hsettles.unique⟩
    · obtain ⟨-, why, hwhy⟩ := pending_to_deadline (target e d) e.rounds 0 hpending
      have hnot : ¬ ∃ why, Settles e (target e d) e.rounds 0 (.failed why) :=
        fun ⟨_, hsettles⟩ => hsettles.not_pending hpending
      simp [hnot, hpending, hwhy, em']

theorem releases_of_cleared (h : d.name ∈ (unquiesce e snap).cleared) : e.releases d.name = true := by
  obtain ⟨d', hd', hname⟩ := List.mem_map.mp h
  have hok := (List.mem_filter.mp hd').2
  simp only [Bool.and_eq_true] at hok
  exact hname ▸ hok.2

theorem failures_ne_nil_iff : (unquiesce e snap).failures ≠ [] ↔
    (∃ d ∈ snap.deployments, Fails e d) ∨ CronJobFails e snap := by
  have hwait : (waitForRestored e (scaledBy e snap)).failures ≠ [] ↔ ∃ d ∈ snap.deployments,
      attempt e d = .scaled (target e d) ∧ ∃ why, verdict e (target e d) e.rounds 0 = .failed why := by
    constructor
    · intro hne
      obtain ⟨⟨name, why⟩, hmem⟩ := List.exists_mem_of_ne_nil _ hne
      obtain ⟨d, hd, -, hattempt, hverdict⟩ := (waited_verdict name (.failed why)).mp hmem
      exact ⟨d, hd, hattempt, why, hverdict⟩
    · rintro ⟨d, hd, hattempt, why, hverdict⟩
      have hmem := (waited_verdict d.name (.failed why)).mpr ⟨d, hd, rfl, hattempt, hverdict⟩
      exact List.ne_nil_of_mem hmem
  have hfails : (∃ d ∈ snap.deployments, Fails e d) ↔
      scaleFailures e snap ≠ [] ∨ (waitForRestored e (scaledBy e snap)).failures ≠ [] := by
    rw [scaleFailures_ne_nil_iff, hwait]
    simp only [Fails, and_or_left, exists_or]
  rw [hfails, ← cronFailures_ne_nil_iff]
  simp only [unquiesce, ne_eq, List.append_eq_nil_iff, List.map_eq_nil_iff, not_and_or]

section Distinct

variable (hdistinct : Distinct snap) (hd : d ∈ snap.deployments)
include hdistinct hd

theorem target_mem_scaledBy : target e d ∈ scaledBy e snap ↔ attempt e d = .scaled (target e d) := by
  refine ⟨fun ht => ?_, fun h => mem_scaledBy.mpr ⟨d, hd, h⟩⟩
  obtain ⟨d', hd', heq, hattempt, -⟩ := scaledBy_target ht
  have hname : (target e d).name = (target e d').name := congrArg Entry.name heq
  exact hdistinct.eq hd hd' hname ▸ hattempt

theorem stillDown_iff : StillDown e snap d ↔ HoldOverlooked e d ∨ NotBack e d := by
  have hmem : target e d ∈ (unquiesce e snap).scaled ↔ attempt e d = .scaled (target e d) :=
    target_mem_scaledBy hdistinct hd
  unfold StillDown FoundGone Restored
  rw [hmem]
  cases tried e d with
  | nothing h hnone =>
    have hdown : ¬ NotBack e d := by
      rintro ⟨⟨hpos, hsome, -⟩, -⟩
      rcases hnone with hnone | hzero
      · simp [hnone] at hsome
      · omega
    have hheld : ¬ HoldOverlooked e d := by
      intro hheld
      rcases hnone with hnone | hzero
      · obtain ⟨-, dep, hdep, -⟩ := hheld
        simp [hnone] at hdep
      · exact absurd hzero (recorded_pos_of_holdOverlooked hheld).ne'
    rcases hnone with hnone | hzero
    · simp [h, hnone, hdown, hheld]
    · simp [h, hzero, hdown, hheld]
  | overlooked h hoverlooked =>
    have hpos := recorded_pos_of_holdOverlooked hoverlooked
    obtain ⟨-, dep, hdep, -⟩ := id hoverlooked
    simp [h, hpos, hdep, hoverlooked]
  | failed msg h hup herror =>
    have hthere : e.deployment d.name ≠ none := Option.isSome_iff_ne_none.mp hup.2.1
    simp [h, hup.1, hthere, NotBack, hup, herror]
  | scaled h hup hok =>
    have hthere : e.deployment d.name ≠ none := Option.isSome_iff_ne_none.mp hup.2.1
    simp only [h, hup.1, hthere, true_and, false_or, NotBack, hup, hok, hup.2.2, Option.isSome_none,
      Bool.false_eq_true]
    cases shows e (target e d) e.rounds 0 with
    | restored hverdict s hs hle =>
      have hconfirmed : Confirmed e (target e d) := ⟨s, hs, hle⟩
      rcases settles_or_pending e (target e d) e.rounds 0 with hsettles | hpending
      · have hfails : ¬ ∃ why, Settles e (target e d) e.rounds 0 (.failed why) := by
          rintro ⟨why, hwhy⟩
          exact absurd (hverdict.symm.trans (hsettles.unique hwhy)) (by simp)
        simp [hconfirmed, hfails, hsettles.not_pending]
      · obtain ⟨-, why, hwhy⟩ := pending_to_deadline (target e d) e.rounds 0 hpending
        exact absurd (hverdict.symm.trans hwhy) (by simp)
    | gone hverdict hgone =>
      rcases settles_or_pending e (target e d) e.rounds 0 with hsettles | hpending
      · have hfails : ¬ ∃ why, Settles e (target e d) e.rounds 0 (.failed why) := by
          rintro ⟨why, hwhy⟩
          exact absurd (hverdict.symm.trans (hsettles.unique hwhy)) (by simp)
        simp [hgone, hfails, hsettles.not_pending]
      · obtain ⟨-, why, hwhy⟩ := pending_to_deadline (target e d) e.rounds 0 hpending
        exact absurd (hverdict.symm.trans hwhy) (by simp)
    | failed why hverdict hgone hless =>
      have hnot : ¬ Confirmed e (target e d) := by
        rintro ⟨s, hs, hle⟩
        exact absurd (hless s hs) (not_lt.mpr hle)
      simp only [hgone, hnot, not_false_eq_true, and_self, true_iff]
      rcases settles_or_pending e (target e d) e.rounds 0 with hsettles | hpending
      · exact .inl ⟨why, hverdict ▸ hsettles⟩
      · refine .inr ⟨hpending, ?_⟩
        obtain ⟨hread, -⟩ := pending_to_deadline (target e d) e.rounds 0 hpending
        rintro (hlate | ⟨s, hs, hle⟩)
        · exact hgone (hlate ▸ hread)
        · exact absurd (hless s (hs ▸ hread)) (not_lt.mpr hle)
    | late why hverdict hpending hlate =>
      obtain ⟨hread, -⟩ := pending_to_deadline (target e d) e.rounds 0 hpending
      have hfails : ¬ ∃ why, Settles e (target e d) e.rounds 0 (.failed why) :=
        fun ⟨_, hsettles⟩ => hsettles.not_pending hpending
      simp only [hfails, hlate, not_true_eq_false, and_false, or_self, iff_false, not_and, not_not]
      rcases hlate with hgone | ⟨s, hs, hle⟩
      · exact fun hnot => absurd (hgone ▸ hread) hnot
      · exact fun _ => ⟨s, hs ▸ hread, hle⟩

/-- What failed keeps its hold. -/
theorem not_fails_of_cleared (hcleared : d.name ∈ (unquiesce e snap).cleared) : ¬ Fails e d := by
  obtain ⟨d', hd', hname⟩ := List.mem_map.mp hcleared
  obtain ⟨hd', hok⟩ := List.mem_filter.mp hd'
  obtain rfl := hdistinct.eq hd' hd hname
  simp only [Bool.and_eq_true, Bool.or_eq_true, decide_eq_true_eq] at hok
  have hwaited : ∀ u, (waitForRestored e (scaledBy e snap)).Says d'.name u →
      attempt e d' = .scaled (target e d') ∧ verdict e (target e d') e.rounds 0 = u := by
    intro u hu
    obtain ⟨x, hx, hname, hattempt, hverdict⟩ := (waited_verdict d'.name u).mp hu
    obtain rfl := hdistinct.eq hd hx hname
    exact ⟨hattempt, hverdict⟩
  unfold Fails
  rcases hok.1 with (hrestored | hgone) | hearly
  · obtain ⟨hattempt, hverdict⟩ := hwaited .restored hrestored
    simp [hattempt, hverdict]
  · obtain ⟨hattempt, hverdict⟩ := hwaited .gone hgone
    simp [hattempt, hverdict]
  · obtain ⟨x, hx, hname, hattempt⟩ := mem_goneEarly.mp hearly
    obtain rfl := hdistinct.eq hx hd hname
    simp [hattempt]

omit hdistinct in
/-- An overlooked hold is dropped as that of a Deployment that is gone. -/
theorem cleared_of_holdOverlooked (h : HoldOverlooked e d) (hreleases : e.releases d.name = true) :
    d.name ∈ (unquiesce e snap).cleared := by
  have hearly : d.name ∈ goneEarly e snap := mem_goneEarly.mpr ⟨d, hd, rfl, attempt_of_holdOverlooked h⟩
  refine List.mem_map.mpr ⟨d, List.mem_filter.mpr ⟨hd, ?_⟩, rfl⟩
  simp [hearly, hreleases]

end Distinct

theorem told_iff {notBack back cron overlooked : Prop} :
    ((notBack ∨ back ∨ cron) ↔ (overlooked ∨ notBack) ∨ cron) ↔ notBack ∨ cron ∨
    (overlooked ↔ back) := by
  tauto

def only (name : String) (replicas : ℕ) : QuiesceSnapshot := ⟨[⟨name, replicas⟩], []⟩

theorem distinct_only (name : String) (replicas : ℕ) : Distinct (only name replicas) :=
  List.nodup_singleton name

def flaky : Environment where
  deployment name := if name = "web" then some ⟨0, some "true", some "3"⟩ else none
  readError name := if name = "web" then some "read ECONNRESET" else none
  scaleError _ := none
  poll _ _ := .view ⟨3, none⟩
  rounds := 100
  timeoutSeconds := 300
  deadlineRead _ := .view ⟨3, none⟩
  releases _ := true
  unsuspend _ := .ok

end Insula.Unquiesce
