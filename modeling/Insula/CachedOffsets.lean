import Insula.ZoneClock

/-!
# The cached zone shifter

The minute matcher reads a zone's clock through a shifter that resolves the offset of the zone once
for each UTC hour it is asked about. It is compared here with resolving the offset at every instant.
-/

namespace Insula.CachedOffsets

open ZoneClock

abbrev Text := List Char

abbrev Zones := Text → Option Zone

variable (zones : Zones)

/-- Under `hour12: false` midnight may be shown as 24. -/
def shownHour (hour : ℕ) : ℕ := if hour = 0 then 24 else hour

def zoneOffsetMs (t : ℤ) (timeZone : Text) : ℤ :=
  match zones timeZone with
  | none => 0
  | some zone =>
    let parts := formatToParts zone t
    let hour := if shownHour parts.hour = 24 then 0 else shownHour parts.hour
    dateUtc { parts with hour := hour } - t

structure Cache where
  hour : Option ℤ
  offset : ℤ

def readsUtc (timeZone : Option Text) : Bool :=
  timeZone = none || timeZone = some [] || timeZone = some "UTC".toList || timeZone = some "Etc/UTC".toList

def shift (timeZone : Text) (cache : Cache) (utcMs : ℤ) : Cache × ℤ :=
  let cache := if cache.hour = some (utcMs / 3600000) then cache
    else ⟨some (utcMs / 3600000), zoneOffsetMs zones utcMs timeZone⟩
  (cache, utcMs + cache.offset)

def shifts (timeZone : Text) (cache : Cache) : List ℤ → List ℤ
  | [] => []
  | utcMs :: rest =>
    (shift zones timeZone cache utcMs).2 :: shifts timeZone (shift zones timeZone cache utcMs).1 rest

def makeZoneShifter (timeZone : Option Text) (queries : List ℤ) : List ℤ :=
  if readsUtc timeZone then queries else shifts zones (timeZone.getD []) ⟨none, 0⟩ queries

def shiftDirectly (timeZone : Option Text) (utcMs : ℤ) : ℤ :=
  utcMs + (timeZone.map (zoneOffsetMs zones utcMs)).getD 0

/-- Instants one after the other in the same hour have the same offset. -/
def Steady (timeZone : Text) (queries : List ℤ) : Prop :=
  queries.IsChain fun a b => a / 3600000 = b / 3600000 →
  zoneOffsetMs zones a timeZone = zoneOffsetMs zones b timeZone

/-- The cache holds the offset of the instant before. -/
theorem shifts_eq_iff (timeZone : Text) (last : ℤ) (queries : List ℤ) :
    shifts zones timeZone ⟨some (last / 3600000), zoneOffsetMs zones last timeZone⟩ queries =
      queries.map (fun t => t + zoneOffsetMs zones t timeZone) ↔
      Steady zones timeZone (last :: queries) := by
  induction queries generalizing last with
  | nil => simp [shifts, Steady]
  | cons t rest ih =>
    have htail := ih t
    unfold Steady at htail ⊢
    rw [List.isChain_cons_cons, shifts, List.map_cons, List.cons.injEq]
    by_cases hhour : last / 3600000 = t / 3600000
    · have hshift : shift zones timeZone ⟨some (last / 3600000), zoneOffsetMs zones last timeZone⟩ t =
          (⟨some (last / 3600000), zoneOffsetMs zones last timeZone⟩,
            t + zoneOffsetMs zones last timeZone) := by
        simp [shift, hhour]
      rw [hshift]
      by_cases hoffset : zoneOffsetMs zones last timeZone = zoneOffsetMs zones t timeZone
      · rw [hoffset, hhour, htail]
        simp
      · simp [hhour, hoffset]
    · have hshift : shift zones timeZone ⟨some (last / 3600000), zoneOffsetMs zones last timeZone⟩ t =
          (⟨some (t / 3600000), zoneOffsetMs zones t timeZone⟩, t + zoneOffsetMs zones t timeZone) := by
        simp [shift, hhour]
      rw [hshift, htail]
      simp [hhour]

/-- The offsets that the shifter uses are those that hold. -/
def Agrees (timeZone : Option Text) (queries : List ℤ) : Prop :=
  ∀ name, timeZone = some name →
    if readsUtc (some name) then ∀ t ∈ queries,
    zoneOffsetMs zones t name = 0 else Steady zones name queries

/-- A shifter returns what the offsets at the instants give if and only if it never keeps an offset
past its time. -/
theorem makeZoneShifter_eq_iff (timeZone : Option Text) (queries : List ℤ) :
    makeZoneShifter zones timeZone queries = queries.map (shiftDirectly zones timeZone) ↔
      Agrees zones timeZone queries := by
  unfold makeZoneShifter Agrees
  cases timeZone with
  | none =>
    have hdirect : shiftDirectly zones none = id := by
      funext t
      simp [shiftDirectly]
    simp [readsUtc, hdirect]
  | some name =>
    have hdirect : shiftDirectly zones (some name) = fun t => t + zoneOffsetMs zones t name := rfl
    simp only [Option.some.injEq, forall_eq']
    by_cases hutc : readsUtc (some name) = true
    · rw [if_pos hutc, if_pos hutc]
      induction queries with
      | nil => simp
      | cons t rest ih =>
        rw [List.map_cons, List.cons.injEq, List.forall_mem_cons]
        exact and_congr (by simp [shiftDirectly]) ih
    · rw [if_neg hutc, if_neg hutc]
      cases queries with
      | nil => simp [shifts, Steady]
      | cons t rest =>
        have hfirst : shift zones name ⟨none, 0⟩ t =
            (⟨some (t / 3600000), zoneOffsetMs zones t name⟩, t + zoneOffsetMs zones t name) := by
          simp [shift]
        rw [Option.getD_some, shifts, hfirst, hdirect, List.map_cons, List.cons.injEq, ← shifts_eq_iff]
        simp

/-- Half an hour of summer time begins at half past the hour of UTC. -/
def lordHowe : Zone := fun t => if t < 1791041400000 then 37800 else 39600

def someZones : Zones := fun name => if name = "Australia/Lord_Howe".toList then some lordHowe else none

theorem summer_time_begins_late : ¬ ∀ (zones : Zones) (timeZone : Option Text) (queries : List ℤ),
    makeZoneShifter zones timeZone queries = queries.map (shiftDirectly zones timeZone) := by
  intro h
  have hhowe := h someZones (some "Australia/Lord_Howe".toList) [1791041340000, 1791041400000]
  exact absurd hhowe (by decide)

end Insula.CachedOffsets
