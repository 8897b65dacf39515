import Insula.CronUtc
import Insula.ResetClock

/-!
# The next run on the clock of a zone

The clock of a zone leaves readings out when it is set forward, and shows them twice when it is set
back. A run that falls on a reading shown before the search begins is sought where it was shown
first.
-/

namespace Insula.CronSearch

open Calendar ZoneClock
open CronGrammar (CronFields parseCron)

def firstRules : ℤ := dayFromYear 1800 * 1440

structure ZoneRules extends ResetClock 1440 where
  settled : ∀ u v, u ≤ firstRules → v ≤ firstRules → offset u = offset v

namespace ZoneRules

variable (z : ZoneRules)

def zone : Zone := fun t => z.offset (t / 60000) * 60

end ZoneRules

/-! ## The clock -/

variable {z : ZoneRules} {n u : ℤ}

theorem wallTimeIn_zone (z : ZoneRules) (t : ℤ) :
    wallTimeIn z.zone t = wallTimeIn utc (60000 * z.shows (t / 60000)) := by
  have hmoved : clock (z.shows (t / 60000)) = utcDateToWall (t + z.zone t * 1000) := by
    rw [← clock_of_ms]
    congr 1
    unfold ZoneRules.zone ResetClock.shows
    omega
  rw [wallTimeIn_utc_eq, show 60000 * z.shows (t / 60000) / 60000 = z.shows (t / 60000) by omega,
    hmoved]
  rfl

theorem recent_iff : Recent n ↔ -983524320 ≤ n := by
  have hfirst : dayFromYear 100 = -683003 := by decide
  have hspec := yearOf_spec (n / 1440)
  unfold Recent
  constructor
  · intro h
    have hle := dayFromYear_mono h
    omega
  · intro h
    have hle := dayFromYear_lt_iff.mp (show dayFromYear 100 <
      dayFromYear (yearOf (n / 1440) + 1) by omega)
    omega

theorem clock_injective {m : ℤ} (h : clock m = clock n) : m = n := by
  rw [clock_eq, clock_eq] at h
  obtain ⟨hyear, hmonth, hday, hhour, hminute⟩ := WallTime.mk.inj h
  have hdays : civil (m / 1440) = civil (n / 1440) := by
    cases hm : civil (m / 1440)
    cases hn : civil (n / 1440)
    simp_all
  have hsame := civil_injective hdays
  omega

/-- Two days before the year 100 the era makes no difference yet. -/
theorem reads_iff (hu : -983527200 ≤ z.shows u) :
    wallTimeIn z.zone (60000 * u) = clock n ↔ z.shows u = n := by
  have hyear : 0 < yearOf (z.shows u / 1440) := by
    have hlow : 0 < yearOf (-683005) := by decide
    have hmono := yearOf_mono (show -683005 ≤ z.shows u / 1440 by omega)
    omega
  have hshown : wallTimeIn z.zone (60000 * u) = clock (z.shows u) := by
    have hclock : (clock (z.shows u)).year = yearOf (z.shows u / 1440) := by rw [clock_eq]; rfl
    have hera : shownYear (clock (z.shows u)).year = (clock (z.shows u)).year := by
      unfold shownYear
      rw [if_neg (by omega)]
    rw [wallTimeIn_zone, wallTimeIn_utc_eq, show 60000 * u / 60000 = u by omega,
      show 60000 * z.shows u / 60000 = z.shows u by omega, hera]
  rw [hshown]
  exact ⟨clock_injective, congrArg clock⟩

theorem offsetMsAt_zone (h : Recent (z.shows u)) :
    offsetMsAt z.zone (60000 * u) = 60000 * z.offset u := by
  have hclock : wallTimeIn z.zone (60000 * u) = clock (z.shows u) :=
    (reads_iff (by rw [recent_iff] at h; omega)).mpr rfl
  unfold offsetMsAt
  rw [hclock, toUtcDate_clock h]
  unfold ResetClock.shows
  omega

/-- `Date.UTC` puts the last days of the year 99 into 1999. -/
theorem offsetMsAt_moved (hlow : -983527200 ≤ z.shows u) (hhigh : z.shows u < -983524320) :
    offsetMsAt z.zone (60000 * u) = 60000 * (z.offset u + 693960 * 1440) := by
  have hclock : wallTimeIn z.zone (60000 * u) = clock (z.shows u) := (reads_iff hlow).mpr rfl
  have hyear : yearOf (z.shows u / 1440) = 99 := by
    have hfrom : dayFromYear 99 ≤ z.shows u / 1440 := by
      have hfirst : dayFromYear 99 = -683368 := by decide
      omega
    have hto : z.shows u / 1440 < dayFromYear (99 + 1) := by
      have hlast : dayFromYear (99 + 1) = -683003 := by decide
      omega
    exact yearOf_eq hfrom hto
  have hcivil : (civil (z.shows u / 1440)).year = 99 := hyear
  have hday := dayOf_civil (z.shows u / 1440)
  have hfar : dayFromYear 1999 = dayFromYear 99 + 693960 := by decide
  have hleap : leapYear 1999 = leapYear 99 := by decide
  unfold dayOf at hday
  rw [hcivil] at hday
  unfold offsetMsAt WallTime.toUtcDate dateUtc dayOf
  rw [hclock, clock_eq]
  dsimp only
  rw [hcivil, if_pos (by decide), show (1900 : ℤ) + 99 = 1999 by decide, hfar, hleap]
  unfold dayMs
  unfold ResetClock.shows at *
  omega

/-! ## The instant of a reading -/

theorem sixty_min (x y : ℤ) : min (60000 * x) (60000 * y) = 60000 * min x y := by omega

theorem sixty_max (x y : ℤ) : max (60000 * x) (60000 * y) = 60000 * max x y := by omega

/-- The code and the clock agree on the instant of a reading. -/
theorem instantFromWall_zone (hn : Recent n) :
    instantFromWall z.zone (clock n) = 60000 * z.instant n := by
  have hbefore := z.bounded (n - 1440)
  have hafter := z.bounded (n + 1440)
  rw [recent_iff] at hn
  have hlater : Recent (z.shows (n + 1440)) := by
    rw [recent_iff]
    unfold ResetClock.shows
    omega
  unfold instantFromWall
  dsimp only
  rw [toUtcDate_clock (recent_iff.mpr hn),
    show 60000 * n - dayMs = 60000 * (n - 1440) by unfold dayMs; omega,
    show 60000 * n + dayMs = 60000 * (n + 1440) by unfold dayMs; omega, offsetMsAt_zone hlater]
  by_cases hrecent : Recent (z.shows (n - 1440))
  · have hb : 60000 * n - 60000 * z.offset (n - 1440) = 60000 * z.before n := by
      unfold ResetClock.before
      omega
    have ha : 60000 * n - 60000 * z.offset (n + 1440) = 60000 * z.after n := by
      unfold ResetClock.after
      omega
    have hlow : -983527200 ≤ z.shows (min (z.before n) (z.after n)) := by
      have hmin := z.bounded (min (z.before n) (z.after n))
      unfold ResetClock.shows
      unfold ResetClock.before ResetClock.after at *
      omega
    rw [offsetMsAt_zone hrecent, hb, ha, sixty_min, sixty_max]
    unfold ResetClock.instant
    simp only [reads_iff hlow]
    split_ifs <;> rfl
  · -- the sample of the day before is the one that `Date.UTC` moves
    rw [recent_iff] at hrecent
    have hlow : -983527200 ≤ z.shows (n - 1440) := by
      unfold ResetClock.shows
      omega
    have hearly : firstRules = -89411040 := by decide
    have hsame : z.offset (n - 1440) = z.offset (n + 1440) := by
      unfold ResetClock.shows at hrecent
      exact z.settled _ _ (by omega) (by omega)
    have hinstant : z.instant n = n - z.offset (n + 1440) := by
      have hcases := z.instant_cases n
      unfold ResetClock.before ResetClock.after at hcases
      omega
    rw [offsetMsAt_moved hlow (not_le.mp hrecent), hsame, hinstant, min_eq_left (by omega),
      max_eq_right (by omega), if_neg]
    · omega
    intro heq
    have hyear := congrArg WallTime.year heq
    have hnYear : (clock n).year ≤ 100 := by
      have hlast : yearOf (-682999) ≤ 100 := by decide
      have hmono := yearOf_mono (show n / 1440 ≤ -682999 by unfold ResetClock.shows at hrecent; omega)
      rw [clock_eq]
      change yearOf (n / 1440) ≤ 100
      omega
    generalize hmoved : n - z.offset (n + 1440) - 693960 * 1440 = v at *
    have hv : 60000 * n - 60000 * (z.offset (n + 1440) + 693960 * 1440) = 60000 * v := by omega
    have hold : yearOf (z.shows v / 1440) ≤ -1799 := by
      have hlast : yearOf (-1376950) ≤ -1799 := by decide
      have hv' := z.bounded v
      have hmono := yearOf_mono (show z.shows v / 1440 ≤
        -1376950 by unfold ResetClock.shows at *; omega)
      omega
    rw [hv, wallTimeIn_zone, wallTimeIn_utc_eq, show 60000 * v / 60000 = v by omega,
      show 60000 * z.shows v / 60000 = z.shows v by omega] at hyear
    have hera : shownYear (clock (z.shows v)).year = 1 - yearOf (z.shows v / 1440) := by
      rw [clock_eq]
      change shownYear (yearOf (z.shows v / 1440)) = _
      unfold shownYear
      rw [if_pos (by omega)]
    dsimp only at hyear
    omega

/-- The check of hour, minute and date finds out whether the clock shows the reading. -/
theorem shown_iff (hn : Recent n) : Shown z.zone n ↔ ∃ u, z.shows u = n := by
  have hinstant : Shown z.zone n ↔ (clock (z.shows (z.instant n))).hour = (clock n).hour ∧
      (clock (z.shows (z.instant n))).minute = (clock n).minute ∧
      (clock (z.shows (z.instant n))).day = (clock n).day := by
    unfold Shown
    rw [instantFromWall_zone hn, wallTimeIn_zone, wallTimeIn_utc_eq,
      show 60000 * z.instant n / 60000 = z.instant n by omega,
      show 60000 * z.shows (z.instant n) / 60000 = z.shows (z.instant n) by omega]
  rw [hinstant]
  constructor
  · rintro ⟨hhour, hminute, hday⟩
    refine ⟨z.instant n, ?_⟩
    have hnear : z.shows (z.instant n) < n + 2880 ∧ n < z.shows (z.instant n) + 2880 := by
      have hbounded := z.bounded (z.instant n)
      have hbefore := z.bounded (n - 1440)
      have hafter := z.bounded (n + 1440)
      have hcases := z.instant_cases n
      unfold ResetClock.shows
      unfold ResetClock.before ResetClock.after at hcases
      omega
    generalize z.shows (z.instant n) = m at *
    rw [clock_eq, clock_eq] at hhour hminute hday
    dsimp only at hhour hminute hday
    have hnext := day_succ_ne (n / 1440)
    have hprevious := day_succ_ne (m / 1440)
    rcases lt_trichotomy (m / 1440) (n / 1440) with hlt | heq | hgt
    · rw [show m / 1440 + 1 = n / 1440 by omega] at hprevious
      exact absurd hday.symm hprevious
    · omega
    · rw [show n / 1440 + 1 = m / 1440 by omega] at hnext
      exact absurd hday hnext
  · rintro ⟨u, hu⟩
    have hshows : z.shows (z.instant n) = n := (ResetClock.isLeast_instant hu).1
    rw [hshows]
    exact ⟨rfl, rfl, rfl⟩

theorem runs_iff {f : CronFields} (hn : Recent n) :
    Runs z.zone f n ↔ matchesMinute f n = true ∧ ∃ u, z.shows u = n := by
  unfold Runs
  rw [shown_iff hn]

end Insula.CronSearch
