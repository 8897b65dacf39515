import Insula.CronZones

/-!
# Next runs move forward

From an instant on, the next run of a job is its first minute that matches, unless the clock showed
the reading of this minute before, or it lies behind the four years of the search.
-/

namespace Insula.CronSearch

open Calendar ZoneClock
open CronGrammar (CronFields parseCron)

def MatchingMinutes (schedule : Text) (zone : Zone) (since : ℤ) : Set ℤ :=
  {t | 60000 ∣ t ∧ since < t ∧ cronMatchesMinute schedule (t + zone t * 1000) = true}

/-- The next run is later than the instant, and no minute between them matches. `NEVER` comes after
every minute. -/
structure MovesForward (schedule : Text) (zone : Zone) (since : ℤ) : Prop where
  later : ∀ r, getNextRunTime schedule since (some zone) = some r → since < r
  first : ∀ r, getNextRunTime schedule since (some zone) = some r →
    ∀ t ∈ MatchingMinutes schedule zone since, ¬ t < r
  never : getNextRunTime schedule since (some zone) = none → MatchingMinutes schedule zone since = ∅

def ZoneRules.reading (z : ZoneRules) (since : ℤ) : ℤ := z.shows (since / 60000)

/-- The clock has not shown the reading of a minute yet. -/
def Fresh (z : ZoneRules) (since N : ℤ) : Prop := ∀ u, u ≤ since / 60000 → z.shows u ≠ z.shows N

/-- A minute is within the four years, on the clock as well, and so are the instants of the readings
before it that match. Behind the four years on the clock, only readings that match are passed
over. -/
structure InReach (z : ZoneRules) (f : CronFields) (since N : ℤ) : Prop where
  limit : 60000 * N ≤ since + horizon
  before : ∀ k, z.reading since < k → k < z.shows N → matchesMinute f k = true →
    60000 * max (z.before k) (z.after k) ≤ since + horizon
  behind : ∀ k, z.reading since < k → k < z.shows N → z.reading since + horizon / 60000 ≤ k →
    matchesMinute f k = true

variable {schedule : Text} {f : CronFields} {z : ZoneRules} {since N : ℤ}

theorem mem_matchingMinutes (hf : parseCron schedule = some f) (u : ℤ) :
    60000 * u ∈ MatchingMinutes schedule z.zone since ↔
      since / 60000 < u ∧ matchesMinute f (z.shows u) = true := by
  have hmoved : 60000 * u + z.zone (60000 * u) * 1000 = 60000 * z.shows u := by
    unfold ZoneRules.zone ResetClock.shows
    rw [show 60000 * u / 60000 = u by omega]
    ring
  have hmatches := cronMatches_eq schedule (z.shows u)
  rw [hf, Option.any_some] at hmatches
  unfold MatchingMinutes
  rw [Set.mem_ofPred_eq, hmoved, hmatches]
  constructor
  · rintro ⟨-, hafter, hm⟩
    exact ⟨by omega, hm⟩
  · rintro ⟨hafter, hm⟩
    exact ⟨Dvd.intro u rfl, by omega, hm⟩

theorem isLeast_matchingMinutes (hf : parseCron schedule = some f) :
    IsLeast (MatchingMinutes schedule z.zone since) (60000 * N) ↔
      IsLeast {u | since / 60000 < u ∧ matchesMinute f (z.shows u) = true} N := by
  constructor
  · rintro ⟨hmem, hleast⟩
    refine ⟨(mem_matchingMinutes hf N).mp hmem, fun u hu => ?_⟩
    have hle := hleast ((mem_matchingMinutes hf u).mpr hu)
    omega
  · rintro ⟨hmem, hleast⟩
    refine ⟨(mem_matchingMinutes hf N).mpr hmem, fun t ht => ?_⟩
    obtain ⟨u, rfl⟩ : ∃ u, t = 60000 * u := ht.1
    have hle : N ≤ u := hleast ((mem_matchingMinutes hf u).mp ht)
    omega

/-! ## The beginning of the search -/

theorem toUtcDate_reading (h : Recent (z.reading since)) :
    (wallTimeIn z.zone since).toUtcDate = 60000 * z.reading since := by
  rw [wallTimeIn_zone, wallTimeIn_utc, show 60000 * z.shows (since / 60000) / 60000 = z.reading since by
    unfold ZoneRules.reading; omega, toUtcDate_clock h]
  exact h.year le_rfl

theorem getNextRunTime_zone (hf : parseCron schedule = some f) (h : Recent (z.reading since)) :
    getNextRunTime schedule since (some z.zone) =
      search z.zone f since (4 * 366 * 24 * 60) (clock (z.reading since + 1)) := by
  have hwall : wallTimeIn z.zone since = clock (z.reading since) := by
    rw [wallTimeIn_zone]
    change wallTimeIn utc (60000 * z.reading since) = clock (z.reading since)
    rw [wallTimeIn_utc (h.year le_rfl), show 60000 * z.reading since / 60000 = z.reading since by omega]
  unfold getNextRunTime nextMatch
  rw [hf, Option.bind_some, Option.getD_some, hwall, addMinutes_clock h]

/-- Before the year 100 the search begins in a later century. -/
theorem getNextRunTime_zone_early (hf : parseCron schedule = some f) (h : ¬ Recent (z.reading since)) :
    getNextRunTime schedule since (some z.zone) = none := by
  have hyear : (fieldsOf (60000 * z.reading since)).year < 100 := by
    unfold Recent at h
    change yearOf (60000 * z.reading since / dayMs) < 100
    rw [show 60000 * z.reading since / dayMs = z.reading since / 1440 by unfold dayMs; omega]
    exact not_le.mp h
  obtain ⟨hfar, hrecent⟩ := lt_wall_of_early hyear
  obtain ⟨b, hb⟩ := toUtcDate_multiple (wallTimeIn utc (60000 * z.reading since))
  rw [hb] at hfar hrecent
  rw [show 60000 * b / 60000 = b by omega] at hrecent
  have hbase : (wallTimeIn z.zone since).toUtcDate = 60000 * b := by
    rw [wallTimeIn_zone]
    exact hb
  have hstart : addMinutes (wallTimeIn z.zone since) 1 = clock (b + 1) := by
    unfold addMinutes clock
    rw [hbase]
    congr 1
    ring
  cases hr : getNextRunTime schedule since (some z.zone) with
  | none => rfl
  | some r =>
    have hnext : Recent (b + 1) := hrecent.mono (by omega)
    unfold getNextRunTime nextMatch at hr
    rw [hf, Option.bind_some, Option.getD_some, hstart] at hr
    obtain ⟨m, hle, -, rfl, hlimit, -⟩ := search_some hnext hbase hr
    rw [instantFromWall_zone (hnext.mono hle)] at hlimit
    have hcases := z.instant_cases m
    have hbefore := z.bounded (m - 1440)
    have hafter := z.bounded (m + 1440)
    have hsince := z.bounded (since / 60000)
    unfold horizon dayMs ZoneRules.reading at *
    unfold ResetClock.shows at hfar
    unfold ResetClock.before ResetClock.after at hcases
    omega

/-! ## Only a minute that is fresh and in reach -/

/-- What is found is the first instant of a reading that the clock has ahead, and shows. -/
theorem exists_of_getNextRunTime (hf : parseCron schedule = some f) {r : ℤ}
    (hr : getNextRunTime schedule since (some z.zone) = some r) :
    Recent (z.reading since) ∧ ∃ m, z.reading since < m ∧ matchesMinute f m = true ∧
      IsLeast {u | z.shows u = m} (z.instant m) ∧ r = 60000 * z.instant m ∧ r ≤ since + horizon ∧
        ∀ k, z.reading since < k → k < m → Passes z.zone f since (z.reading since) k := by
  by_cases hrecent : Recent (z.reading since)
  · have hnext : Recent (z.reading since + 1) := hrecent.mono (by omega)
    obtain ⟨m, hle, hruns, hinstant, hlimit, hpasses⟩ :=
      search_some hnext (toUtcDate_reading hrecent) ((getNextRunTime_zone hf hrecent).symm.trans hr)
    have hm : Recent m := hnext.mono hle
    obtain ⟨hmatches, u, hu⟩ := (runs_iff hm).mp hruns
    rw [instantFromWall_zone hm] at hinstant
    exact ⟨hrecent, m, by omega, hmatches, ResetClock.isLeast_instant hu, hinstant, hlimit, hpasses⟩
  · rw [getNextRunTime_zone_early hf hrecent] at hr
    exact absurd hr (by simp)

theorem fresh_of_movesForward (hf : parseCron schedule = some f)
    (h : MovesForward schedule z.zone since) :
    MatchingMinutes schedule z.zone since = ∅ ∨
      ∃ N, IsLeast (MatchingMinutes schedule z.zone since) (60000 * N) ∧ Recent (z.reading since) ∧
        Fresh z since N ∧ InReach z f since N := by
  cases hr : getNextRunTime schedule since (some z.zone) with
  | none => exact Or.inl (h.never hr)
  | some r =>
    obtain ⟨hrecent, m, hlow, hmatches, hleast, hinstant, hlimit, hpasses⟩ :=
      exists_of_getNextRunTime hf hr
    have hrecents : ∀ k, z.reading since < k → Recent k := fun k hk => hrecent.mono hk.le
    have hshows : z.shows (z.instant m) = m := hleast.1
    have hlater := h.later r hr
    have hmem : 60000 * z.instant m ∈ MatchingMinutes schedule z.zone since :=
      (mem_matchingMinutes hf _).mpr ⟨by omega, by rw [hshows]; exact hmatches⟩
    refine Or.inr ⟨z.instant m, ⟨hmem, fun t ht => ?_⟩, hrecent, ?_, ?_⟩
    · rw [← hinstant]
      exact not_lt.mp (h.first r hr t ht)
    · intro v hv hshown
      have hfirst : z.instant m ≤ v := hleast.2 (hshown.trans hshows)
      omega
    · refine ⟨hinstant ▸ hlimit, fun k hk hkm hmatch => ?_, fun k hk hkm hbehind => ?_⟩
      · rw [hshows] at hkm
        obtain ⟨hout, hbefore⟩ := (hpasses k hk hkm).1 hmatch
        rw [shown_iff (hrecents k hk)] at hout
        rwa [instantFromWall_zone (hrecents k hk),
          ResetClock.instant_of_left_out fun v hv => hout ⟨v, hv⟩] at hbefore
      · rw [hshows] at hkm
        exact (hpasses k hk hkm).2 hbehind

/-- What is found matches at some minute after the instant, so that nothing is found if no minute
does. -/
theorem getNextRunTime_of_empty (hf : parseCron schedule = some f)
    (hempty : MatchingMinutes schedule z.zone since = ∅) :
    getNextRunTime schedule since (some z.zone) = none := by
  cases hr : getNextRunTime schedule since (some z.zone) with
  | none => rfl
  | some r =>
    obtain ⟨-, m, hlow, hmatches, hleast, -⟩ := exists_of_getNextRunTime hf hr
    obtain ⟨v, hv, hshown⟩ := ResetClock.shown_after hleast.1 hlow
    have hmem : 60000 * v ∈ MatchingMinutes schedule z.zone since :=
      (mem_matchingMinutes hf v).mpr ⟨hv, hshown.symm ▸ hmatches⟩
    rw [hempty] at hmem
    exact absurd hmem (Set.notMem_empty _)

/-! ## Such a minute is found -/

section Found

variable (hfirst : IsLeast {u | since / 60000 < u ∧ matchesMinute f (z.shows u) = true} N)
  (hreach : InReach z f since N)
include hfirst hreach

/-- When the search goes on behind the horizon, of three days one does not match, for its reading at
the time of day of the instant is shown. -/
theorem exists_free_day (hfar : z.reading since + horizon / 60000 < z.shows N) (a : ℤ) (ha : 0 < a)
    (hnear : a ≤ 1000) :
    ∃ day, z.reading since / 1440 + a ≤ day ∧ day ≤ z.reading since / 1440 + a + 2 ∧
    onDay f (day * 1440) = false := by
  obtain ⟨i, hi, hi', u, hu⟩ := z.shown_of_three (z.reading since + 1440 * a)
  refine ⟨z.reading since / 1440 + a + i, by omega, by omega, ?_⟩
  have hhorizon : horizon / 60000 = 2108160 := by decide
  rw [hhorizon] at hfar
  by_contra hday
  have hbehind := hreach.behind (z.reading since + 2108160) (by omega) hfar (by rw [hhorizon])
  have hsameDay : onDay f (z.reading since + 1440 * a + 1440 * i) = true := by
    rw [Bool.not_eq_false] at hday
    unfold onDay at hday ⊢
    rwa [show (z.reading since + 1440 * a + 1440 * i) / 1440 =
      (z.reading since / 1440 + a + i) * 1440 / 1440 by omega]
  have hmatches : matchesMinute f (z.reading since + 1440 * a + 1440 * i) = true := by
    unfold matchesMinute inHour atMinute at hbehind ⊢
    rw [show (z.reading since + 1440 * a + 1440 * i) % 1440 =
      (z.reading since + 2108160) % 1440 by omega,
      show (z.reading since + 1440 * a + 1440 * i) % 60 = (z.reading since + 2108160) % 60 by omega,
        hsameDay]
    simp_all
  have hlow : z.reading since < z.reading since + 1440 * a + 1440 * i := by omega
  have hout := ResetClock.left_out_of_first
    (P := fun k => matchesMinute f k = true) hfirst hmatches hlow (by omega)
  exact hout u hu

variable (hrecent : Recent (z.reading since))
include hrecent

theorem passes_of_inReach {k : ℤ} (hk : z.reading since < k) (hkN : k < z.shows N) :
    Passes z.zone f since (z.reading since) k := by
  have hkRecent : Recent k := hrecent.mono hk.le
  refine ⟨fun hmatches => ?_, hreach.behind k hk hkN⟩
  have hout := ResetClock.left_out_of_first
    (P := fun k => matchesMinute f k = true) hfirst hmatches hk hkN
  rw [shown_iff hkRecent, instantFromWall_zone hkRecent, ResetClock.instant_of_left_out hout]
  exact ⟨fun ⟨u, hu⟩ => hout u hu, hreach.before k hk hkN hmatches⟩

/-- Over the minutes before it, the search gets to the minute with a turn left. Behind the horizon
it is two days of one turn each that have saved the turns. -/
theorem search_reaches (hlater : z.reading since < z.shows N) : ∃ guard : ℕ, 0 < guard ∧
    search z.zone f since (4 * 366 * 24 * 60) (clock (z.reading since + 1)) =
      search z.zone f since guard (clock (z.shows N)) := by
  have hbase := toUtcDate_reading hrecent
  have hmatches : matchesMinute f (z.shows N) = true := hfirst.1.2
  have hpasses : ∀ k, z.reading since < k → k < z.shows N → Passes z.zone f since (z.reading since) k :=
    fun k => passes_of_inReach hfirst hreach hrecent
  have hrecents : ∀ k, z.reading since < k → Recent k := fun k hk => hrecent.mono hk.le
  have hhorizon : horizon / 60000 = 2108160 := by decide
  have hnext : Recent (z.reading since + 1) := hrecents _ (by omega)
  rcases le_or_gt (z.shows N) (z.reading since + horizon / 60000) with hnear | hfar
  · rw [hhorizon] at hnear
    obtain ⟨guard, hfuel, hsearch⟩ := search_past hbase (4 * 366 * 24 * 60) _ _ hnext
      (Or.inl hmatches) (by omega) (by push_cast; omega) fun k hk => hpasses k (by omega)
    exact ⟨guard, by push_cast at hfuel; omega, hsearch⟩
  · have hreached : z.shows N ≤ z.reading since + 2108160 + 2878 := by
      have hlimit := hreach.limit
      have hN := z.bounded N
      have hsince := z.bounded (since / 60000)
      unfold horizon dayMs at hlimit
      unfold ZoneRules.reading ResetClock.shows
      omega
    obtain ⟨day, hlow, hhigh, hfree⟩ := exists_free_day hfirst hreach hfar 1 (by omega) (by omega)
    obtain ⟨day', hlow', hhigh', hfree'⟩ := exists_free_day hfirst hreach hfar 4 (by omega) (by omega)
    rw [hhorizon] at hfar
    obtain ⟨g₁, hfuel₁, hsearch₁⟩ := search_past_day hbase (4 * 366 * 24 * 60) _ day hnext hfree
      (by omega) (by rw [hhorizon]; omega) (by push_cast; omega)
      fun k hk hkm => hpasses k (by omega) (by omega)
    push_cast at hfuel₁
    obtain ⟨g₂, hfuel₂, hsearch₂⟩ := search_past_day hbase g₁ ((day + 1) * 1440) day'
      (hrecents _ (by omega)) hfree' (by omega) (by rw [hhorizon]; omega) (by omega)
      fun k hk hkm => hpasses k (by omega) (by omega)
    obtain ⟨g₃, hfuel₃, hsearch₃⟩ := search_past hbase g₂ ((day' + 1) * 1440) _ (hrecents _ (by omega))
      (Or.inl hmatches) (by omega) (by omega) fun k hk => hpasses k (by omega)
    exact ⟨g₃, by omega, hsearch₁.trans (hsearch₂.trans hsearch₃)⟩

end Found

theorem movesForward_of_inReach (hf : parseCron schedule = some f)
    (hleast : IsLeast (MatchingMinutes schedule z.zone since) (60000 * N))
    (hrecent : Recent (z.reading since))
    (hfresh : Fresh z since N) (hreach : InReach z f since N) : MovesForward schedule z.zone since := by
  have hfirst := (isLeast_matchingMinutes hf).mp hleast
  have hlater : z.reading since < z.shows N := ResetClock.shows_lt_of_fresh hfirst.1.1 hfresh
  have hN : Recent (z.shows N) := hrecent.mono hlater.le
  have hinstant : z.instant (z.shows N) = N := by
    have hleast' := ResetClock.isLeast_instant (rfl : z.shows N = z.shows N)
    apply le_antisymm (hleast'.2 rfl)
    by_contra hbefore
    have hshown : z.shows (z.instant (z.shows N)) = z.shows N := hleast'.1
    rcases lt_or_ge (since / 60000) (z.instant (z.shows N)) with hafter | hpast
    · have hle : N ≤ z.instant (z.shows N) := hfirst.2 ⟨hafter, by rw [hshown]; exact hfirst.1.2⟩
      exact hbefore hle
    · exact hfresh _ hpast hshown
  have hruns : Runs z.zone f (z.shows N) := (runs_iff hN).mpr ⟨hfirst.1.2, N, rfl⟩
  have hwall : instantFromWall z.zone (clock (z.shows N)) =
    60000 * N := by rw [instantFromWall_zone hN, hinstant]
  obtain ⟨guard, hguard, hsearch⟩ := search_reaches hfirst hreach hrecent hlater
  have hresult : getNextRunTime schedule since (some z.zone) = some (60000 * N) := by
    rw [getNextRunTime_zone hf hrecent, hsearch,
      search_found hN (toUtcDate_reading hrecent) hruns (hwall ▸ hreach.limit) hguard, hwall]
  constructor
  · intro r hr
    rw [hresult, Option.some.injEq] at hr
    exact hr ▸ hleast.1.2.1
  · intro r hr t ht
    rw [hresult, Option.some.injEq] at hr
    exact hr ▸ not_lt.mpr (hleast.2 ht)
  · intro hnone
    rw [hresult] at hnone
    exact absurd hnone (by simp)

/-- The next run moves forward if and only if no minute matches any more, or the first one that does
shows a reading for the first time and is in reach, in a year from 100 on. -/
theorem movesForward_iff (z : ZoneRules) (hf : parseCron schedule = some f) :
    MovesForward schedule z.zone since ↔ MatchingMinutes schedule z.zone since = ∅ ∨
      ∃ N, IsLeast (MatchingMinutes schedule z.zone since) (60000 * N) ∧ Recent (z.reading since) ∧
        Fresh z since N ∧ InReach z f since N := by
  constructor
  · exact fresh_of_movesForward hf
  · rintro (hempty | ⟨N, hleast, hrecent, hfresh, hreach⟩)
    · have hnone := getNextRunTime_of_empty hf hempty
      exact ⟨fun r hr => by simp [hnone] at hr, fun r hr => by simp [hnone] at hr, fun _ => hempty⟩
    · exact movesForward_of_inReach hf hleast hrecent hfresh hreach

/-! ## Two nights -/

def ZoneRules.setAt (c a b : ℤ) (hc : firstRules < c) (ha : -1440 < a ∧ a < 1440)
    (hb : -1440 < b ∧ b < 1440) :
    ZoneRules where
  offset u := if u < c then a else b
  bounded u := by
    split_ifs
    · exact ha
    · exact hb
  calm u v w := by
    intros
    split_ifs <;> omega
  settled u v hu hv := by rw [if_pos (hu.trans_lt hc), if_pos (hv.trans_lt hc)]

def springForward : ZoneRules := .setAt 30103260 60 120 (by decide) (by decide) (by decide)

def fallBack : ZoneRules := .setAt 29881500 120 60 (by decide) (by decide) (by decide)

def everyMinute : Text := "* * * * *".toList

theorem parseCron_everyMinute : ∃ f, parseCron everyMinute = some f :=
  Option.isSome_iff_exists.mp (by decide +kernel)

/-- After 01:59 comes 03:00. -/
theorem everyMinute_springs_forward : MovesForward everyMinute springForward.zone
    (30103259 * 60000) := by
  obtain ⟨f, hf⟩ := parseCron_everyMinute
  refine (movesForward_iff springForward hf).mpr (Or.inr ⟨30103260, ⟨?_, ?_⟩, ?_, ?_, ?_⟩)
  · exact ⟨by decide, by decide, by decide +kernel⟩
  · rintro t ⟨hminute, hafter, -⟩
    omega
  · exact recent_iff.mpr (by decide)
  · intro u hu
    unfold ResetClock.shows springForward ZoneRules.setAt
    dsimp only
    split_ifs <;> omega
  · have hreading : springForward.reading (30103259 * 60000) = 30103319 := by decide
    have hshows : springForward.shows 30103260 = 30103380 := by decide
    refine ⟨by decide, fun k hk hkN _ => ?_, fun k hk hkN hbehind => ?_⟩
    · rw [hreading] at hk
      rw [hshows] at hkN
      unfold horizon dayMs ResetClock.before ResetClock.after springForward ZoneRules.setAt
      dsimp only
      split_ifs <;> omega
    · rw [hreading] at hbehind
      rw [hshows] at hkN
      unfold horizon dayMs at hbehind
      omega

/-- At the second 02:15 of the night, a job of every minute is sent back to the first 02:16. -/
theorem everyMinute_falls_back : ¬ ∀ (schedule : Text) (f : CronFields) (z : ZoneRules) (since : ℤ),
    parseCron schedule = some f → MovesForward schedule z.zone since := by
  intro h
  obtain ⟨f, hf⟩ := parseCron_everyMinute
  have hnext : 60000 * 29881516 ∈ MatchingMinutes everyMinute fallBack.zone (29881515 * 60000) :=
    ⟨by decide, by decide, by decide +kernel⟩
  rcases fresh_of_movesForward hf (h everyMinute f fallBack (29881515 * 60000) hf) with
    hempty | ⟨N, ⟨⟨-, hafter, -⟩, hleast⟩, -, hfresh, -⟩
  · rw [hempty] at hnext
    exact Set.notMem_empty _ hnext
  · have hle := hleast hnext
    obtain rfl : N = 29881516 := by omega
    exact hfresh 29881456 (by decide) (by decide)

end Insula.CronSearch
