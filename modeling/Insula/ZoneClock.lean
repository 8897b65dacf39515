import Insula.Calendar

/-!
# Clocks of time zones

An instant counts milliseconds. A zone has an offset from UTC at every instant, and its clock shows
the fields of the instant moved by the offset. Two habits of the host come between a clock and the
instant it shows: years before the first are shown without their era, and `Date.UTC` takes a year
below 100 for one of the twentieth century.
-/

namespace Insula.ZoneClock

open Calendar

def dayMs : ℤ := 86400000

abbrev Zone := ℤ → ℤ

def utc : Zone := fun _ => 0

structure Fields where
  year : ℤ
  month : ℕ
  day : ℕ
  hour : ℕ
  minute : ℕ
  second : ℕ
deriving DecidableEq

def fieldsOf (ms : ℤ) : Fields where
  year := (civil (ms / dayMs)).year
  month := (civil (ms / dayMs)).month
  day := (civil (ms / dayMs)).day
  hour := (ms % dayMs / 3600000).toNat
  minute := (ms % 3600000 / 60000).toNat
  second := (ms % 60000 / 1000).toNat

def shownYear (y : ℤ) : ℤ := if y ≤ 0 then 1 - y else y

def formatToParts (zone : Zone) (t : ℤ) : Fields :=
  { fieldsOf (t + zone t * 1000) with year := shownYear (fieldsOf (t + zone t * 1000)).year }

def dateUtc (f : Fields) : ℤ :=
  let year := if 0 ≤ f.year ∧ f.year ≤ 99 then 1900 + f.year else f.year
  dayOf ⟨year, f.month, f.day⟩ * dayMs + f.hour * 3600000 + f.minute * 60000 + f.second * 1000

end Insula.ZoneClock
