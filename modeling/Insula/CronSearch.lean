import Insula.CronSchedules
import Insula.ZoneClock

/-!
# The next run of a cron job

The search for the next run goes over the clock of a zone. It leaves out whole days and hours that
cannot match, turns the first minute that matches into an instant, and looks whether the clock then
shows it.
-/

namespace Insula.CronSearch

open Calendar ZoneClock
open CronGrammar (CronFields parseCron)

abbrev Text := List Char

/-! ## The matcher -/

def dayMatches (f : CronFields) (day weekday : ℕ) : Bool :=
  if f.domRestricted && f.dowRestricted then day ∈ f.dayOfMonth || weekday ∈ f.dayOfWeek
  else if f.domRestricted then day ∈ f.dayOfMonth
  else if f.dowRestricted then weekday ∈ f.dayOfWeek
  else true

def cronMatchesMinute (expr : Text) (t : ℤ) : Bool :=
  match CronGrammar.fields expr with
  | [minuteField, hourField, domField, monthField, dowField] =>
    match CronGrammar.expandCronField CronGrammar.minuteSpec minuteField,
        CronGrammar.expandCronField CronGrammar.hourSpec hourField,
        CronGrammar.expandCronField CronGrammar.domSpec domField,
        CronGrammar.expandCronField CronGrammar.monthSpec monthField,
        CronGrammar.expandCronField CronGrammar.dowSpec dowField with
    | some minutes, some hours, some doms, some months, some dows =>
      let dowSet := if 7 ∈ dows then insert 0 dows else dows
      let domRestricted := domField ≠ ['*']
      let dowRestricted := dowField ≠ ['*']
      (fieldsOf t).minute ∈ minutes && (fieldsOf t).hour ∈ hours && (fieldsOf t).month ∈ months &&
        if domRestricted ∧ dowRestricted then (fieldsOf t).day ∈ doms || weekday (t / dayMs) ∈ dowSet
        else if domRestricted then (fieldsOf t).day ∈ doms
        else if dowRestricted then weekday (t / dayMs) ∈ dowSet
        else true
    | _, _, _, _, _ => false
  | _ => false

/-! ## The search -/

structure WallTime where
  year : ℤ
  month : ℕ
  day : ℕ
  hour : ℕ
  minute : ℕ
deriving DecidableEq

def Fields.wall (f : ZoneClock.Fields) : WallTime := ⟨f.year, f.month, f.day, f.hour, f.minute⟩

def wallTimeIn (zone : Zone) (t : ℤ) : WallTime := Fields.wall (formatToParts zone t)

def WallTime.toUtcDate (w : WallTime) : ℤ := dateUtc ⟨w.year, w.month, w.day, w.hour, w.minute, 0⟩

def utcDateToWall (t : ℤ) : WallTime := Fields.wall (fieldsOf t)

def addMinutes (w : WallTime) (n : ℤ) : WallTime := utcDateToWall (w.toUtcDate + n * 60000)

def startOfNextDay (w : WallTime) : WallTime :=
  utcDateToWall (WallTime.toUtcDate { w with hour := 0, minute := 0 } + dayMs)

def startOfNextHour (w : WallTime) : WallTime :=
  utcDateToWall (WallTime.toUtcDate { w with minute := 0 } + 3600000)

def weekdayOf (w : WallTime) : ℕ := weekday (w.toUtcDate / dayMs)

def offsetMsAt (zone : Zone) (t : ℤ) : ℤ := (wallTimeIn zone t).toUtcDate - t / 60000 * 60000

/-- Of the instants that the offsets of the day before and of the day after give, the earlier one if
it shows the wall time, and else the later one, whatever it shows. -/
def instantFromWall (zone : Zone) (wall : WallTime) : ℤ :=
  let naive := wall.toUtcDate
  let before := naive - offsetMsAt zone (naive - dayMs)
  let after := naive - offsetMsAt zone (naive + dayMs)
  if wallTimeIn zone (min before after) = wall then min before after else max before after

def horizon : ℤ := 4 * 366 * dayMs

section Search

variable (zone : Zone) (f : CronFields) (base : ℤ)

/-- The loop; `none` is `NEVER`. -/
def search : ℕ → WallTime → Option ℤ
  | 0, _ => none
  | guard + 1, wall =>
    let goOn (wall' : WallTime) :=
      if horizon < wall'.toUtcDate - (wallTimeIn zone base).toUtcDate then none else search guard wall'
    if wall.month ∉ f.month ∨ dayMatches f wall.day (weekdayOf wall) =
      false then goOn (startOfNextDay wall)
    else if wall.hour ∉ f.hour then goOn (startOfNextHour wall)
    else if wall.minute ∉ f.minute then goOn (addMinutes wall 1)
    else
      let instant := instantFromWall zone wall
      if base + horizon < instant then none
      else
        let check := wallTimeIn zone instant
        if check.hour = wall.hour ∧ check.minute = wall.minute ∧ check.day = wall.day then some instant
        -- a minute that the clock leaves out is passed over
        else search guard (addMinutes wall 1)

def nextMatch : Option ℤ := search zone f base (4 * 366 * 24 * 60) (addMinutes (wallTimeIn zone base) 1)

end Search

def getNextRunTime (schedule : Text) (since : ℤ) (zone : Option Zone) : Option ℤ :=
  (parseCron schedule).bind fun f => nextMatch (zone.getD utc) f since

/-! ## Minutes of a clock -/

def clock (n : ℤ) : WallTime := utcDateToWall (60000 * n)

theorem clock_eq (n : ℤ) : clock n = ⟨(civil (n / 1440)).year, (civil (n / 1440)).month,
    (civil (n / 1440)).day, (n % 1440 / 60).toNat, (n % 60).toNat⟩ := by
  have hday : 60000 * n / dayMs = n / 1440 := by
    unfold dayMs
    omega
  have hhour : 60000 * n % dayMs / 3600000 = n % 1440 / 60 := by
    unfold dayMs
    omega
  have hminute : 60000 * n % 3600000 / 60000 = n % 60 := by omega
  unfold clock utcDateToWall Fields.wall fieldsOf
  rw [hday, hhour, hminute]

theorem clock_of_ms (t : ℤ) : clock (t / 60000) = utcDateToWall t := by
  have hday : t / 60000 / 1440 = t / dayMs := by
    unfold dayMs
    omega
  have hhour : t / 60000 % 1440 / 60 = t % dayMs / 3600000 := by
    unfold dayMs
    omega
  have hminute : t / 60000 % 60 = t % 3600000 / 60000 := by omega
  rw [clock_eq, hday, hhour, hminute]
  rfl

/-- The years from which a clock can be read back. -/
def Recent (n : ℤ) : Prop := 100 ≤ yearOf (n / 1440)

variable {n k : ℤ} {guard : ℕ}

theorem Recent.mono {m : ℤ} (h : Recent m) (hle : m ≤ n) : Recent n := by
  have hyears := yearOf_mono (show m / 1440 ≤ n / 1440 by omega)
  unfold Recent at *
  omega

theorem toUtcDate_set (h : Recent n) (hour minute : ℕ) :
    WallTime.toUtcDate { clock n with hour := hour, minute := minute } =
      60000 * (n / 1440 * 1440 + 60 * hour + minute) := by
  have hyear : (civil (n / 1440)).year = yearOf (n / 1440) := rfl
  have hday := dayOf_civil (n / 1440)
  unfold Recent at h
  rw [clock_eq]
  unfold WallTime.toUtcDate dateUtc
  dsimp only
  rw [if_neg (by omega), hday]
  unfold dayMs
  push_cast
  ring

theorem toUtcDate_clock (h : Recent n) : (clock n).toUtcDate = 60000 * n := by
  have hset := toUtcDate_set h (n % 1440 / 60).toNat (n % 60).toNat
  have hclock : { clock n with hour := (n % 1440 / 60).toNat, minute := (n % 60).toNat } = clock n := by
    rw [clock_eq]
  rw [hclock] at hset
  omega

theorem addMinutes_clock (h : Recent n) : addMinutes (clock n) 1 = clock (n + 1) := by
  unfold addMinutes
  rw [toUtcDate_clock h, show 60000 * n + 1 * 60000 = 60000 * (n + 1) by ring]
  rfl

theorem startOfNextDay_clock (h : Recent n) :
    startOfNextDay (clock n) = clock ((n / 1440 + 1) * 1440) := by
  unfold startOfNextDay
  rw [toUtcDate_set h, clock, show (60000 * ((n / 1440 + 1) * 1440) : ℤ) =
    60000 * (n / 1440 * 1440 + 60 * (0 : ℕ) + (0 : ℕ)) + dayMs by unfold dayMs; push_cast; ring]

theorem startOfNextHour_clock (h : Recent n) :
    startOfNextHour (clock n) = clock ((n / 60 + 1) * 60) := by
  have hset := toUtcDate_set h (n % 1440 / 60).toNat 0
  have hclock : { clock n with hour := (n % 1440 / 60).toNat, minute := 0 } =
    { clock n with minute := 0 } := by
    rw [clock_eq]
  rw [hclock] at hset
  unfold startOfNextHour
  rw [hset, clock]
  congr 1
  omega

theorem weekdayOf_clock (h : Recent n) : weekdayOf (clock n) = weekday (n / 1440) := by
  unfold weekdayOf
  rw [toUtcDate_clock h, show 60000 * n / dayMs = n / 1440 by unfold dayMs; omega]

/-! ## Minutes that match -/

variable {f : CronFields}

def onDay (f : CronFields) (n : ℤ) : Bool :=
  (civil (n / 1440)).month ∈ f.month && dayMatches f (civil (n / 1440)).day (weekday (n / 1440))

def inHour (f : CronFields) (n : ℤ) : Bool := (n % 1440 / 60).toNat ∈ f.hour

def atMinute (f : CronFields) (n : ℤ) : Bool := (n % 60).toNat ∈ f.minute

def matchesMinute (f : CronFields) (n : ℤ) : Bool := onDay f n && inHour f n && atMinute f n

/-- No minute is left out with a day or an hour. -/
theorem not_matches_of_day (h : onDay f n = false) (hle : n ≤ k) (hlt : k < (n / 1440 + 1) * 1440) :
    matchesMinute f k = false := by
  have hday : k / 1440 = n / 1440 := by omega
  have hk : onDay f k = false := by
    unfold onDay at h ⊢
    rwa [hday]
  simp [matchesMinute, hk]

theorem not_matches_of_hour (h : inHour f n = false) (hle : n ≤ k) (hlt : k < (n / 60 + 1) * 60) :
    matchesMinute f k = false := by
  have hhour : k % 1440 / 60 = n % 1440 / 60 := by omega
  have hk : inHour f k = false := by
    unfold inHour at h ⊢
    rwa [hhour]
  simp [matchesMinute, hk]

/-! ## What the loop finds -/

variable {zone : Zone} {base b n : ℤ}

def Shown (zone : Zone) (n : ℤ) : Prop :=
  (wallTimeIn zone (instantFromWall zone (clock n))).hour = (clock n).hour ∧
    (wallTimeIn zone (instantFromWall zone (clock n))).minute = (clock n).minute ∧
    (wallTimeIn zone (instantFromWall zone (clock n))).day = (clock n).day

instance (zone : Zone) (n : ℤ) : Decidable (Shown zone n) := inferInstanceAs (Decidable (_ ∧ _ ∧ _))

def Runs (zone : Zone) (f : CronFields) (n : ℤ) : Prop := matchesMinute f n = true ∧ Shown zone n

def goOn (zone : Zone) (f : CronFields) (base b : ℤ) (guard : ℕ) (n : ℤ) : Option ℤ :=
  if horizon < 60000 * n - 60000 * b then none else search zone f base guard (clock n)

theorem search_clock (hn : Recent n) (hbase : (wallTimeIn zone base).toUtcDate = 60000 * b)
    (guard : ℕ) :
    search zone f base (guard + 1) (clock n) =
      if onDay f n = false then goOn zone f base b guard ((n / 1440 + 1) * 1440)
      else if inHour f n = false then goOn zone f base b guard ((n / 60 + 1) * 60)
      else if atMinute f n = false then goOn zone f base b guard (n + 1)
      else if base + horizon < instantFromWall zone (clock n) then none
      else if Shown zone n then some (instantFromWall zone (clock n))
      else search zone f base guard (clock (n + 1)) := by
  have hday : ((clock n).month ∉ f.month ∨ dayMatches f (clock n).day (weekdayOf (clock n)) = false) ↔
      onDay f n = false := by
    rw [weekdayOf_clock hn, clock_eq]
    unfold onDay
    simp only [Bool.and_eq_false_iff, decide_eq_false_iff_not]
  have hhour : (clock n).hour ∉ f.hour ↔ inHour f n = false := by
    rw [clock_eq]
    simp [inHour]
  have hminute : (clock n).minute ∉ f.minute ↔ atMinute f n = false := by
    rw [clock_eq]
    simp [atMinute]
  have hnextDay : Recent ((n / 1440 + 1) * 1440) := hn.mono (by omega)
  have hnextHour : Recent ((n / 60 + 1) * 60) := hn.mono (by omega)
  have hnext : Recent (n + 1) := hn.mono (by omega)
  rw [search]
  simp only [hday, hhour, hminute, startOfNextDay_clock hn, startOfNextHour_clock hn,
    addMinutes_clock hn, goOn, hbase, toUtcDate_clock hnextDay, toUtcDate_clock hnextHour,
    toUtcDate_clock hnext, Shown]
  rfl

theorem not_runs_of_not_matches (h : matchesMinute f k = false) : ¬ Runs zone f k := by
  rintro ⟨hmatches, -⟩
  rw [h] at hmatches
  exact absurd hmatches (by decide)

/-- One turn: the loop goes on over minutes that do not match, gives up behind the limit, ends with
a run, or passes over a minute that the clock leaves out. -/
theorem search_turn (zone : Zone) (f : CronFields) {base b : ℤ} (hn : Recent n)
    (hbase : (wallTimeIn zone base).toUtcDate = 60000 * b) (guard : ℕ) :
    (∃ n', n < n' ∧ n' ≤ (n / 1440 + 1) * 1440 ∧ (∀ k, n ≤ k → k < n' → matchesMinute f k = false) ∧
      search zone f base (guard + 1) (clock n) = goOn zone f base b guard n') ∨
    (matchesMinute f n = true ∧ base + horizon < instantFromWall zone (clock n) ∧
      search zone f base (guard + 1) (clock n) = none) ∨
    (Runs zone f n ∧ instantFromWall zone (clock n) ≤ base + horizon ∧
      search zone f base (guard + 1) (clock n) = some (instantFromWall zone (clock n))) ∨
    (matchesMinute f n = true ∧ ¬ Shown zone n ∧ instantFromWall zone (clock n) ≤ base + horizon ∧
      search zone f base (guard + 1) (clock n) = search zone f base guard (clock (n + 1))) := by
  rw [search_clock hn hbase]
  split_ifs with hday hhour hminute hlimit hshown
  · exact Or.inl ⟨_, by omega, le_rfl, fun k => not_matches_of_day hday, rfl⟩
  · exact Or.inl ⟨_, by omega, by omega, fun k => not_matches_of_hour hhour, rfl⟩
  · refine Or.inl ⟨_, by omega, by omega, fun k hk hkn => ?_, rfl⟩
    obtain rfl : k = n := by omega
    simp [matchesMinute, hminute]
  · exact Or.inr (Or.inl ⟨by simp_all [matchesMinute], hlimit, rfl⟩)
  · exact Or.inr (Or.inr (Or.inl ⟨⟨by simp_all [matchesMinute], hshown⟩, not_lt.mp hlimit, rfl⟩))
  · exact Or.inr (Or.inr (Or.inr ⟨by simp_all [matchesMinute], hshown, not_lt.mp hlimit, rfl⟩))

/-- The search gets past a minute: if it matches, the clock leaves it out and its instant is not
behind the limit, and behind the horizon it does match, for there only such minutes are passed
over. -/
def Passes (zone : Zone) (f : CronFields) (base b k : ℤ) : Prop :=
  (matchesMinute f k = true → ¬ Shown zone k ∧ instantFromWall zone (clock k) ≤ base + horizon) ∧
    (b + horizon / 60000 ≤ k → matchesMinute f k = true)

theorem Passes.not_runs (h : Passes zone f base b k) : ¬ Runs zone f k :=
  fun hruns => (h.1 hruns.1).1 hruns.2

theorem passes_of_not_matches (h : matchesMinute f k = false) (hlt : k < b + horizon / 60000) :
    Passes zone f base b k := by
  constructor
  · intro hmatches
    rw [h] at hmatches
    exact absurd hmatches (by decide)
  · intro hle
    exact absurd hle (not_le.mpr hlt)

theorem goOn_eq_some {r : ℤ} (h : goOn zone f base b guard n = some r) :
    n ≤ b + horizon / 60000 ∧ search zone f base guard (clock n) = some r := by
  unfold goOn at h
  split_ifs at h with hpast
  refine ⟨?_, h⟩
  unfold horizon dayMs at *
  omega

/-- The first minute at which the job runs is found, and the search gets past the minutes before
it. -/
theorem search_some (hn : Recent n) (hbase : (wallTimeIn zone base).toUtcDate = 60000 * b) {r : ℤ}
    (h : search zone f base guard (clock n) = some r) :
    ∃ m, n ≤ m ∧ Runs zone f m ∧ r = instantFromWall zone (clock m) ∧ r ≤ base + horizon ∧
      ∀ k, n ≤ k → k < m → Passes zone f base b k := by
  induction guard generalizing n with
  | zero => simp [search] at h
  | succ guard ih =>
    rcases search_turn zone f hn hbase guard with ⟨n', hlt, -, hskip, hturn⟩ | ⟨-, -, hturn⟩ |
      ⟨hruns, hlimit, hturn⟩ | ⟨hmatches, hshown, hlimit, hturn⟩
    · obtain ⟨hbelow, hsearch⟩ := goOn_eq_some (hturn.symm.trans h)
      obtain ⟨m, hle, hruns, hr, hlimit, hpasses⟩ := ih (hn.mono hlt.le) hsearch
      refine ⟨m, hlt.le.trans hle, hruns, hr, hlimit, fun k hk hkm => ?_⟩
      rcases lt_or_ge k n' with hskipped | hafter
      · exact passes_of_not_matches (hskip k hk hskipped) (hskipped.trans_le hbelow)
      · exact hpasses k hafter hkm
    · rw [h] at hturn
      exact absurd hturn (by simp)
    · rw [h, Option.some.injEq] at hturn
      exact ⟨n, le_rfl, hruns, hturn, hturn ▸ hlimit, fun k hk hkn => absurd hk (not_le.mpr hkn)⟩
    · obtain ⟨m, hle, hruns, hr, hlimit', hpasses⟩ := ih (hn.mono (by omega)) (hturn.symm.trans h)
      refine ⟨m, by omega, hruns, hr, hlimit', fun k hk hkm => ?_⟩
      rcases eq_or_lt_of_le hk with rfl | hafter
      · exact ⟨fun _ => ⟨hshown, hlimit⟩, fun _ => hmatches⟩
      · exact hpasses k hafter hkm

/-- The search is given up at a minute behind the limit, or when the horizon has been passed without
a run. -/
theorem search_none (hn : Recent n) (hbase : (wallTimeIn zone base).toUtcDate = 60000 * b)
    (hguard : b + horizon / 60000 < n + guard) (h : search zone f base guard (clock n) = none) :
    (∀ k, n ≤ k → k ≤ b + horizon / 60000 → ¬ Runs zone f k) ∨
      ∃ m, n ≤ m ∧ matchesMinute f m = true ∧ base + horizon < instantFromWall zone (clock m) ∧
        ∀ k, n ≤ k → k < m → ¬ Runs zone f k := by
  induction guard generalizing n with
  | zero =>
    exact Or.inl fun k hk hkb => by omega
  | succ guard ih =>
    have hgo : ∀ n', n < n' → (∀ k, n ≤ k → k < n' → ¬ Runs zone f k) →
        search zone f base guard (clock n') = none →
        (∀ k, n ≤ k → k ≤ b + horizon / 60000 → ¬ Runs zone f k) ∨
          ∃ m, n ≤ m ∧ matchesMinute f m = true ∧ base + horizon < instantFromWall zone (clock m) ∧
            ∀ k, n ≤ k → k < m → ¬ Runs zone f k := by
      intro n' hlt hskip hsearch
      rcases ih (hn.mono hlt.le) (by push_cast at hguard; omega) hsearch with hnone |
        ⟨m, hle, hm, hlimit, hfirst⟩
      · refine Or.inl fun k hk hkb => ?_
        rcases lt_or_ge k n' with hbelow | habove
        · exact hskip k hk hbelow
        · exact hnone k habove hkb
      · refine Or.inr ⟨m, hlt.le.trans hle, hm, hlimit, fun k hk hkm => ?_⟩
        rcases lt_or_ge k n' with hbelow | habove
        · exact hskip k hk hbelow
        · exact hfirst k habove hkm
    rcases search_turn zone f hn hbase guard with ⟨n', hlt, -, hskip, hturn⟩ | ⟨hmatches, hlimit, -⟩ |
      ⟨-, -, hturn⟩ | ⟨-, hshown, -, hturn⟩
    · have hruns : ∀ k, n ≤ k → k < n' → ¬ Runs zone f k :=
        fun k hk hkn => not_runs_of_not_matches (hskip k hk hkn)
      rw [h, goOn] at hturn
      split_ifs at hturn with hpast
      · refine Or.inl fun k hk hkb => hruns k hk ?_
        unfold horizon dayMs at hpast hkb
        omega
      · exact hgo n' hlt hruns hturn.symm
    · exact Or.inr ⟨n, le_rfl, hmatches, hlimit, fun k hk hkn => absurd hk (not_le.mpr hkn)⟩
    · rw [h] at hturn
      exact absurd hturn (by simp)
    · refine hgo (n + 1) (by omega) (fun k hk hkn hruns => ?_) (hturn.symm.trans h)
      obtain rfl : k = n := by omega
      exact hshown hruns.2

/-! ## What the loop reaches -/

variable {m : ℤ}

/-- No day and no hour is skipped over a minute that matches, or over the beginning of a day. -/
theorem search_past (hbase : (wallTimeIn zone base).toUtcDate = 60000 * b) (guard : ℕ) (n m : ℤ)
    (hn : Recent n) (hm : matchesMinute f m = true ∨ m % 1440 = 0) (hle : n ≤ m)
    (hguard : m - n ≤ guard) (hpasses : ∀ k, n ≤ k → k < m → Passes zone f base b k) :
    ∃ guard' : ℕ, guard ≤ guard' + (m - n) ∧
      search zone f base guard (clock n) = search zone f base guard' (clock m) := by
  induction guard generalizing n with
  | zero =>
    obtain rfl : n = m := by push_cast at hguard; omega
    exact ⟨0, by omega, rfl⟩
  | succ guard ih =>
    rcases eq_or_lt_of_le hle with rfl | hlt
    · exact ⟨guard + 1, by omega, rfl⟩
    have hpass := hpasses n le_rfl hlt
    have hgo : ∀ n', n < n' → n' ≤ m →
        search zone f base (guard + 1) (clock n) = search zone f base guard (clock n') →
        ∃ guard' : ℕ, (guard + 1 : ℕ) ≤ guard' + (m - n) ∧
          search zone f base (guard + 1) (clock n) = search zone f base guard' (clock m) := by
      intro n' hafter hle' hturn
      obtain ⟨guard', hfuel, hsearch⟩ := ih n' (hn.mono hafter.le) hle' (by push_cast at hguard; omega)
        fun k hk hkm => hpasses k (hafter.le.trans hk) hkm
      exact ⟨guard', by push_cast; omega, hturn.trans hsearch⟩
    rcases search_turn zone f hn hbase guard with ⟨n', hafter, hnextDay, hskip, hturn⟩ |
      ⟨hmatches, hlimit, -⟩ | ⟨hruns, -⟩ | ⟨-, -, -, hturn⟩
    · have hle' : n' ≤ m := by
        rcases hm with hmatches | hday
        · by_contra hover
          have hnot := hskip m hlt.le (not_le.mp hover)
          rw [hmatches] at hnot
          exact absurd hnot (by decide)
        · omega
      -- a minute behind the horizon would match
      have hbelow : n' ≤ b + horizon / 60000 := by
        by_contra hover
        have hmatches := (hpasses (max n (b + horizon / 60000)) (by omega) (by omega)).2
          (le_max_right _ _)
        have hnot := hskip (max n (b + horizon / 60000)) (le_max_left _ _) (by omega)
        rw [hmatches] at hnot
        exact absurd hnot (by decide)
      apply hgo n' hafter hle'
      rw [hturn, goOn, if_neg]
      unfold horizon dayMs at *
      omega
    · exact absurd (hpass.1 hmatches).2 (not_le.mpr hlimit)
    · exact absurd hruns hpass.not_runs
    · exact hgo (n + 1) (by omega) (by omega) hturn

theorem search_found (hn : Recent n) (hbase : (wallTimeIn zone base).toUtcDate = 60000 * b)
    (hruns : Runs zone f n) (hlimit : instantFromWall zone (clock n) ≤ base + horizon)
    (hguard : 0 < guard) :
    search zone f base guard (clock n) = some (instantFromWall zone (clock n)) := by
  obtain ⟨guard, rfl⟩ := Nat.exists_eq_add_of_lt hguard
  rw [Nat.zero_add]
  rcases search_turn zone f hn hbase guard with ⟨n', hlt, -, hskip, -⟩ | ⟨-, hover, -⟩ | ⟨-, -, hturn⟩ |
    ⟨-, hshown, -⟩
  · have hnot := hskip n le_rfl hlt
    rw [hruns.1] at hnot
    exact absurd hnot (by decide)
  · exact absurd hlimit (not_le.mpr hover)
  · exact hturn
  · exact absurd hruns.2 hshown

/-- A day that does not match takes one turn. -/
theorem search_past_day (hbase : (wallTimeIn zone base).toUtcDate = 60000 * b) (guard : ℕ)
    (n day : ℤ) (hn : Recent n) (hday : onDay f (day * 1440) = false) (hle : n ≤ day * 1440)
    (hbelow : (day + 1) * 1440 ≤ b + horizon / 60000)
    (hguard : day * 1440 - n < guard) (hpasses : ∀ k, n ≤ k → k < day * 1440 → Passes zone f base b k) :
    ∃ guard' : ℕ, guard + 1439 ≤ guard' + ((day + 1) * 1440 - n) ∧
      search zone f base guard (clock n) = search zone f base guard' (clock ((day + 1) * 1440)) := by
  obtain ⟨reached, hfuel, hsearch⟩ := search_past hbase guard n (day * 1440) hn
    (Or.inr (by omega)) hle hguard.le hpasses
  obtain ⟨left, rfl⟩ : ∃ left, reached = left + 1 := ⟨reached - 1, by omega⟩
  have hskip : search zone f base (left + 1) (clock (day * 1440)) =
    goOn zone f base b left ((day + 1) * 1440) := by
    rw [search_clock (hn.mono hle) hbase, if_pos hday, show day * 1440 / 1440 = day by omega]
  refine ⟨left, by push_cast at hfuel; omega, ?_⟩
  rw [hsearch, hskip, goOn, if_neg]
  unfold horizon dayMs at *
  omega

end Insula.CronSearch
