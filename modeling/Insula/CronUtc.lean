import Insula.CronSearch

/-!
# The next run in UTC

In UTC the search finds the first minute that the matcher fires at, from the year 100 on. Before
that, `Date.UTC` puts the clock into another century, and nothing is found.
-/

namespace Insula.CronSearch

open Calendar ZoneClock
open CronGrammar (CronFields parseCron)

theorem weekday_lt (day : ℤ) : weekday day < 7 := by
  unfold weekday
  omega

theorem cronMatches_eq (schedule : Text) (n : ℤ) :
    cronMatchesMinute schedule (60000 * n) = (parseCron schedule).any fun f => matchesMinute f n := by
  have hclock := clock_eq n
  have hmonth : (fieldsOf (60000 * n)).month = (civil (n / 1440)).month :=
    congrArg WallTime.month hclock
  have hday : (fieldsOf (60000 * n)).day = (civil (n / 1440)).day := congrArg WallTime.day hclock
  have hhour : (fieldsOf (60000 * n)).hour = (n % 1440 / 60).toNat := congrArg WallTime.hour hclock
  have hminute : (fieldsOf (60000 * n)).minute = (n % 60).toNat := congrArg WallTime.minute hclock
  have hweekday : 60000 * n / dayMs = n / 1440 := by
    unfold dayMs
    omega
  by_cases hlength : (CronGrammar.fields schedule).length = 5
  · obtain ⟨a, b, c, d, e, hfields⟩ := CronGrammar.five_of_length hlength
    rw [CronGrammar.parseCron_of_fields hfields, cronMatchesMinute, hfields, hmonth, hday, hhour,
      hminute, hweekday]
    dsimp only
    rcases CronGrammar.expandCronField CronGrammar.minuteSpec a with _ | minutes
    · rfl
    rcases CronGrammar.expandCronField CronGrammar.hourSpec b with _ | hours
    · rfl
    rcases CronGrammar.expandCronField CronGrammar.domSpec c with _ | doms
    · rfl
    rcases CronGrammar.expandCronField CronGrammar.monthSpec d with _ | months
    · rfl
    rcases CronGrammar.expandCronField CronGrammar.dowSpec e with _ | dows
    · rfl
    have hsunday := CronGrammar.mem_sundayZero dows (weekday_lt (n / 1440))
    simp only [Option.any_some, matchesMinute, onDay, inHour, atMinute, dayMatches, hsunday]
    by_cases hdomField : c = ['*'] <;> by_cases hdowField : e = ['*'] <;>
      simp [hdomField, hdowField] <;> grind
  · have hnone : parseCron schedule = none := by
      rw [← Option.not_isSome_iff_eq_none, CronGrammar.parseCron_isSome_iff]
      exact fun h => hlength h.1
    rw [hnone, cronMatchesMinute]
    split
    · next hfields => exact absurd (by rw [hfields]; rfl) hlength
    · rfl

/-! ## The clock of UTC -/

theorem wallTimeIn_utc_eq (t : ℤ) :
    wallTimeIn utc t = { clock (t / 60000) with year := shownYear (clock (t / 60000)).year } := by
  have hclock := clock_of_ms t
  unfold wallTimeIn formatToParts
  rw [hclock, utc, zero_mul, add_zero]
  rfl

variable {t n : ℤ}

theorem wallTimeIn_utc (h : 100 ≤ yearOf (t / dayMs)) : wallTimeIn utc t = clock (t / 60000) := by
  have hyear : (clock (t / 60000)).year = yearOf (t / dayMs) := by
    rw [clock_of_ms]
    rfl
  have hshown : shownYear (clock (t / 60000)).year = (clock (t / 60000)).year := by
    unfold shownYear
    rw [if_neg (by omega)]
  rw [wallTimeIn_utc_eq, hshown]

theorem offsetMsAt_utc (h : 100 ≤ yearOf (t / dayMs)) : offsetMsAt utc t = 0 := by
  have hrecent : Recent (t / 60000) := by
    unfold Recent
    rwa [show t / 60000 / 1440 = t / dayMs by unfold dayMs; omega]
  unfold offsetMsAt
  rw [wallTimeIn_utc h, toUtcDate_clock hrecent]
  omega

theorem Recent.year (h : Recent n) (hle : 60000 * n ≤ t) : 100 ≤ yearOf (t / dayMs) := by
  have hyears := yearOf_mono (show n / 1440 ≤ t / dayMs by unfold dayMs; omega)
  unfold Recent at h
  omega

theorem recent_dayBefore (h : Recent n) :
    100 ≤ yearOf ((60000 * n - dayMs) / dayMs) ∨ n / 1440 = -683003 := by
  by_cases hday : n / 1440 = -683003
  · exact Or.inr hday
  · left
    have hlow : dayFromYear 100 ≤ n / 1440 := by
      have hspec := (yearOf_spec (n / 1440)).1
      exact (dayFromYear_mono h).trans hspec
    have hfirst : dayFromYear 100 = -683003 := by decide
    have hyear := yearOf_mono (show -683003 ≤ (60000 * n - dayMs) / dayMs by unfold dayMs; omega)
    have hhundred : yearOf (-683003) = 100 := by decide
    omega

theorem instantFromWall_utc (h : Recent n) : instantFromWall utc (clock n) = 60000 * n := by
  have hafter : offsetMsAt utc (60000 * n + dayMs) = 0 :=
    offsetMsAt_utc (h.year (by unfold dayMs; omega))
  unfold instantFromWall
  dsimp only
  rw [toUtcDate_clock h, hafter, sub_zero]
  rcases recent_dayBefore h with hbefore | hday
  · rw [offsetMsAt_utc hbefore]
    simp
  · -- `Date.UTC` puts the last day of the year 99 into 1999
    have hlast : wallTimeIn utc (60000 * n - dayMs) =
        ⟨99, 12, 31, (n % 1440 / 60).toNat, (n % 60).toNat⟩ := by
      have hcivil : civil (-683004) = ⟨99, 12, 31⟩ := by rfl
      rw [wallTimeIn_utc_eq, show (60000 * n - dayMs) / 60000 = n - 1440 by unfold dayMs; omega,
        clock_eq, show (n - 1440) / 1440 = -683004 by omega,
        show (n - 1440) % 1440 = n % 1440 by omega, show (n - 1440) % 60 = n % 60 by omega, hcivil]
      rfl
    have hmoved : offsetMsAt utc (60000 * n - dayMs) = 693960 * dayMs := by
      have hday : dayOf ⟨1999, 12, 31⟩ = 10956 := by rfl
      unfold offsetMsAt WallTime.toUtcDate dateUtc
      rw [hlast]
      dsimp only
      rw [if_pos (by decide), show (1900 : ℤ) + 99 = 1999 by decide, hday]
      unfold dayMs
      omega
    have hmin : min (60000 * n - 693960 * dayMs) (60000 * n) = 60000 * n - 693960 * dayMs :=
      min_eq_left (by unfold dayMs; omega)
    have hmax : max (60000 * n - 693960 * dayMs) (60000 * n) = 60000 * n :=
      max_eq_right (by unfold dayMs; omega)
    rw [hmoved, hmin, hmax, if_neg]
    intro heq
    have hyear := congrArg WallTime.year heq
    have hshown : shownYear (civil (-1376963)).year ≠ (civil (-683003)).year := by decide
    rw [wallTimeIn_utc_eq, show (60000 * n - 693960 * dayMs) / 60000 =
      n - 693960 * 1440 by unfold dayMs; omega,
      clock_eq, clock_eq, show (n - 693960 * 1440) / 1440 = -1376963 by omega, hday] at hyear
    exact hshown hyear

theorem shown_utc (h : Recent n) : Shown utc n := by
  unfold Shown
  rw [instantFromWall_utc h, wallTimeIn_utc (h.year le_rfl), show 60000 * n / 60000 = n by omega]
  exact ⟨rfl, rfl, rfl⟩

/-! ## The result -/

def Upcoming (schedule : Text) (since : ℤ) : Set ℤ :=
  {t | 60000 ∣ t ∧ since < t ∧ t ≤ since + horizon ∧ cronMatchesMinute schedule t = true}

/-- The next run is the first of these minutes, and never if there is none. -/
def AgreesWithMatcher (schedule : Text) (since : ℤ) : Prop :=
  (∀ r, getNextRunTime schedule since (some utc) = some r → IsLeast (Upcoming schedule since) r) ∧
    (getNextRunTime schedule since (some utc) = none ↔ Upcoming schedule since = ∅)

variable {schedule : Text} {f : CronFields} {since : ℤ}

theorem mem_upcoming (hf : parseCron schedule = some f) : 60000 * n ∈ Upcoming schedule since ↔
    since / 60000 + 1 ≤ n ∧ n ≤ since / 60000 + horizon / 60000 ∧ matchesMinute f n = true := by
  have hmatches := cronMatches_eq schedule n
  rw [hf, Option.any_some] at hmatches
  unfold Upcoming horizon dayMs
  rw [Set.mem_ofPred_eq, hmatches]
  constructor
  · rintro ⟨-, hafter, hbefore, hm⟩
    exact ⟨by omega, by omega, hm⟩
  · rintro ⟨hafter, hbefore, hm⟩
    exact ⟨Dvd.intro n rfl, by omega, by omega, hm⟩

theorem exists_of_mem_upcoming (h : t ∈ Upcoming schedule since) : ∃ n, t = 60000 * n := h.1

theorem runs_utc_iff (h : Recent n) : Runs utc f n ↔ matchesMinute f n = true :=
  and_iff_left (shown_utc h)

theorem agrees_of_recent (hf : parseCron schedule = some f) (hyear : 100 ≤ (fieldsOf since).year) :
    AgreesWithMatcher schedule since := by
  have hrecent : Recent (since / 60000) := by
    unfold Recent
    rw [show since / 60000 / 1440 = since / dayMs by unfold dayMs; omega]
    exact hyear
  have hnext : Recent (since / 60000 + 1) := hrecent.mono (by omega)
  have hwall : wallTimeIn utc since = clock (since / 60000) := wallTimeIn_utc hyear
  have hbase : (wallTimeIn utc since).toUtcDate = 60000 * (since / 60000) := by
    rw [hwall, toUtcDate_clock hrecent]
  have hget : getNextRunTime schedule since (some utc) =
      search utc f since (4 * 366 * 24 * 60) (clock (since / 60000 + 1)) := by
    unfold getNextRunTime nextMatch
    rw [hf, Option.bind_some, Option.getD_some, hwall, addMinutes_clock hrecent]
  have hrecents : ∀ k, since / 60000 + 1 ≤ k → Recent k := fun k hk => hnext.mono hk
  have hsome : ∀ r, getNextRunTime schedule since (some utc) = some r →
    IsLeast (Upcoming schedule since) r := by
    intro r hr
    rw [hget] at hr
    obtain ⟨m, hle, hruns, rfl, hlimit, hfirst⟩ := search_some hnext hbase hr
    rw [instantFromWall_utc (hrecents m hle)] at hlimit ⊢
    refine ⟨(mem_upcoming hf).mpr ⟨hle, ?_, hruns.1⟩, fun t ht => ?_⟩
    · unfold horizon dayMs at hlimit ⊢
      omega
    · obtain ⟨k, rfl⟩ := exists_of_mem_upcoming ht
      obtain ⟨hk, -, hmatches⟩ := (mem_upcoming hf).mp ht
      by_contra hlt
      exact (hfirst k hk (by omega)).not_runs ((runs_utc_iff (hrecents k hk)).mpr hmatches)
  refine ⟨hsome, fun hnone => ?_, fun hempty => ?_⟩
  · rw [hget] at hnone
    have hguard : since / 60000 + horizon / 60000 < since / 60000 + 1 + (4 * 366 * 24 * 60 : ℕ) := by
      unfold horizon dayMs
      omega
    refine Set.eq_empty_iff_forall_notMem.mpr fun t ht => ?_
    obtain ⟨k, rfl⟩ := exists_of_mem_upcoming ht
    obtain ⟨hk, hkb, hmatches⟩ := (mem_upcoming hf).mp ht
    have hruns := (runs_utc_iff (hrecents k hk)).mpr hmatches
    rcases search_none hnext hbase hguard hnone with hnever | ⟨m, hle, -, hlimit, hfirst⟩
    · exact hnever k hk hkb hruns
    · rw [instantFromWall_utc (hrecents m hle)] at hlimit
      refine hfirst k hk ?_ hruns
      unfold horizon dayMs at hlimit hkb
      omega
  · cases hr : getNextRunTime schedule since (some utc) with
    | none => rfl
    | some r =>
      have hmem := (hsome r hr).1
      rw [hempty] at hmem
      exact absurd hmem (Set.notMem_empty r)

theorem toUtcDate_multiple (w : WallTime) : ∃ n, w.toUtcDate = 60000 * n := by
  unfold WallTime.toUtcDate dateUtc dayMs
  dsimp only
  generalize dayOf _ = day
  refine ⟨day * 1440 + w.hour * 60 + w.minute, ?_⟩
  push_cast
  ring

/-- The year that `Date.UTC` makes of a shown year. -/
def takenYear (y : ℤ) : ℤ := if 0 ≤ shownYear y ∧
    shownYear y ≤ 99 then 1900 + shownYear y else shownYear y

theorem takenYear_bounds {y : ℤ} (h : y < 100) : y + 100 ≤ takenYear y ∧ 100 ≤ takenYear y := by
  unfold takenYear shownYear
  split_ifs <;> omega

/-- Before the year 100 the clock is taken for one of a later century. -/
theorem lt_wall_of_early (hyear : (fieldsOf since).year < 100) :
    since + 36000 * dayMs < (wallTimeIn utc since).toUtcDate ∧
    Recent ((wallTimeIn utc since).toUtcDate / 60000) := by
  have hy : yearOf (since / dayMs) < 100 := hyear
  obtain ⟨hlater, hhundred⟩ := takenYear_bounds hy
  have hend := (yearOf_spec (since / dayMs)).2
  have hfar := dayFromYear_add_le (show yearOf (since / dayMs) + 1 ≤
    takenYear (yearOf (since / dayMs)) by omega)
  have htaken : (wallTimeIn utc since).toUtcDate = dayOf ⟨takenYear (yearOf (since / dayMs)),
      (civil (since / dayMs)).month, (civil (since / dayMs)).day⟩ * dayMs +
        (fieldsOf since).hour * 3600000 + (fieldsOf since).minute * 60000 + (0 : ℕ) * 1000 := by
    rw [wallTimeIn_utc_eq, clock_of_ms]
    rfl
  have hday : dayFromYear (takenYear (yearOf (since / dayMs))) ≤
    dayOf ⟨takenYear (yearOf (since / dayMs)),
      (civil (since / dayMs)).month, (civil (since / dayMs)).day⟩ := by
    have hpositive : 1 ≤ (civil (since / dayMs)).day := Nat.le_add_left 1 _
    unfold dayOf
    dsimp only
    omega
  have hwall : dayFromYear (takenYear (yearOf (since / dayMs))) * dayMs ≤
    (wallTimeIn utc since).toUtcDate := by
    rw [htaken]
    unfold dayMs at hday ⊢
    omega
  constructor
  · unfold dayMs at *
    omega
  · have hself : yearOf (dayFromYear (takenYear (yearOf (since / dayMs)))) =
      takenYear (yearOf (since / dayMs)) :=
      yearOf_eq le_rfl (dayFromYear_lt_iff.mpr (by omega))
    have hyears := yearOf_mono (show dayFromYear (takenYear (yearOf (since / dayMs))) ≤
      (wallTimeIn utc since).toUtcDate / 60000 / 1440 by unfold dayMs at *; omega)
    unfold Recent
    omega

theorem getNextRunTime_early (hf : parseCron schedule = some f) (hyear : (fieldsOf since).year < 100) :
    getNextRunTime schedule since (some utc) = none := by
  obtain ⟨hfar, hrecent⟩ := lt_wall_of_early hyear
  obtain ⟨b, hb⟩ := toUtcDate_multiple (wallTimeIn utc since)
  rw [hb] at hfar hrecent
  rw [show 60000 * b / 60000 = b by omega] at hrecent
  have hstart : addMinutes (wallTimeIn utc since) 1 = clock (b + 1) := by
    unfold addMinutes clock
    rw [hb]
    congr 1
    ring
  cases hr : getNextRunTime schedule since (some utc) with
  | none => rfl
  | some r =>
    have hnext : Recent (b + 1) := hrecent.mono (by omega)
    unfold getNextRunTime nextMatch at hr
    rw [hf, Option.bind_some, Option.getD_some, hstart] at hr
    obtain ⟨m, hle, -, rfl, hlimit, -⟩ := search_some hnext hb hr
    rw [instantFromWall_utc (hnext.mono hle)] at hlimit
    unfold horizon dayMs at *
    omega

/-- The search agrees with the matcher if and only if it begins in a year from 100 on or there is
nothing to find. -/
theorem agreesWithMatcher_iff (hf : parseCron schedule = some f) :
    AgreesWithMatcher schedule since ↔ 100 ≤ (fieldsOf since).year ∨ Upcoming schedule since = ∅ := by
  by_cases hyear : 100 ≤ (fieldsOf since).year
  · exact iff_of_true (agrees_of_recent hf hyear) (Or.inl hyear)
  · have hnone := getNextRunTime_early hf (not_le.mp hyear)
    unfold AgreesWithMatcher
    rw [hnone]
    simp [hyear]

def nightly : Text := "0 3 * * *".toList

theorem parseCron_nightly : ∃ f, parseCron nightly = some f := Option.isSome_iff_exists.mp (by rfl)

/-- From the twenty-fifth of July 2026. -/
theorem nightly_agrees : AgreesWithMatcher nightly 1785000000000 := by
  obtain ⟨f, hf⟩ := parseCron_nightly
  exact (agreesWithMatcher_iff hf).mpr (Or.inl (by decide))

/-- From the first of January of the year 50 a nightly job never runs. -/
theorem nightly_never_runs : ¬ ∀ (schedule : Text) (f : CronFields) (since : ℤ),
    parseCron schedule = some f →
    AgreesWithMatcher schedule since := by
  intro h
  obtain ⟨f, hf⟩ := parseCron_nightly
  have hagrees := h nightly f (-60589296000000) hf
  have hempty := hagrees.2.mp (getNextRunTime_early hf (by decide))
  have hmem : (-60589285200000 : ℤ) ∈ Upcoming nightly (-60589296000000) :=
    ⟨by decide, by decide, by decide, by rfl⟩
  rw [hempty] at hmem
  exact Set.notMem_empty _ hmem

end Insula.CronSearch
