import Mathlib.Tactic.Positivity

/-!
# The Gregorian calendar

Days are counted from the first of January 1970, in both directions. A day is written as its year,
month and date, and read back from them. A weekday counts from Sunday.
-/

namespace Insula.Calendar

def leapYear (y : ℤ) : Bool := y % 4 = 0 && (y % 100 ≠ 0 || y % 400 = 0)

def dayFromYear (y : ℤ) : ℤ :=
  365 * (y - 1970) + (y - 1969) / 4 - (y - 1901) / 100 + (y - 1601) / 400

theorem dayFromYear_succ (y : ℤ) :
    dayFromYear (y + 1) = dayFromYear y + if leapYear y then 366 else 365 := by
  unfold dayFromYear leapYear
  by_cases h4 : y % 4 = 0
  · by_cases h100 : y % 100 = 0
    · by_cases h400 : y % 400 = 0
      · simp [h4, h400]
        omega
      · simp [h4, h100, h400]
        omega
    · simp [h4, h100]
      omega
  · simp [h4]
    omega

variable {a b : ℤ}

theorem dayFromYear_lt_iff : dayFromYear a < dayFromYear b ↔ a < b := by
  have hstrict := strictMono_int_of_lt_succ (f := dayFromYear) fun y => by
    rw [dayFromYear_succ]
    split_ifs <;> omega
  exact hstrict.lt_iff_lt

theorem dayFromYear_mono (h : a ≤ b) : dayFromYear a ≤ dayFromYear b :=
  not_lt.mp fun hlt => absurd (dayFromYear_lt_iff.mp hlt) (not_lt.mpr h)

theorem dayFromYear_add_le (h : a ≤ b) : dayFromYear a + 365 * (b - a) ≤ dayFromYear b := by
  induction b, h using Int.leInduction with
  | base => simp
  | succ b _ ih =>
    rw [dayFromYear_succ]
    split_ifs <;> omega

def yearOf (day : ℤ) : ℤ :=
  let y := 1970 + day * 400 / 146097
  if day < dayFromYear y then y - 1
  else if dayFromYear (y + 1) ≤ day then y + 1
  else y

theorem yearOf_spec (day : ℤ) : dayFromYear (yearOf day) ≤ day ∧
    day < dayFromYear (yearOf day + 1) := by
  have hbelow : dayFromYear (1970 + day * 400 / 146097 - 1) ≤ day := by
    unfold dayFromYear
    omega
  have habove : day < dayFromYear (1970 + day * 400 / 146097 + 1 + 1) := by
    unfold dayFromYear
    omega
  unfold yearOf
  dsimp only
  split_ifs with hbefore hafter
  · exact ⟨hbelow, by simpa using hbefore⟩
  · exact ⟨hafter, habove⟩
  · exact ⟨not_lt.mp hbefore, not_le.mp hafter⟩

theorem yearOf_eq {day y : ℤ} (h : dayFromYear y ≤ day) (h' : day < dayFromYear (y + 1)) :
    yearOf day = y := by
  obtain ⟨hfrom, hto⟩ := yearOf_spec day
  have hle := dayFromYear_lt_iff.mp (hfrom.trans_lt h')
  have hge := dayFromYear_lt_iff.mp (h.trans_lt hto)
  omega

theorem yearOf_mono (h : a ≤ b) : yearOf a ≤ yearOf b := by
  have hlt := (yearOf_spec a).1.trans_lt (h.trans_lt (yearOf_spec b).2)
  have hyears := dayFromYear_lt_iff.mp hlt
  omega

def daysBefore (leap : Bool) (month : ℕ) : ℕ :=
  [0, 31, 59, 90, 120, 151, 181, 212, 243, 273, 304, 334, 365].getD month 0 + if 2 ≤ month &&
  leap then 1 else 0

def monthOf (leap : Bool) (day : ℕ) : ℕ :=
  Nat.findGreatest (fun month => daysBefore leap month ≤ day) 11

theorem daysBefore_monthOf_le (leap : Bool) (day : ℕ) : daysBefore leap (monthOf leap day) ≤ day :=
  Nat.findGreatest_spec (P := fun month => daysBefore leap month ≤ day) (Nat.zero_le 11)
  (Nat.zero_le day)

structure Civil where
  year : ℤ
  month : ℕ
  day : ℕ
deriving DecidableEq

def civil (day : ℤ) : Civil :=
  let y := yearOf day
  let dayInYear := (day - dayFromYear y).toNat
  let month := monthOf (leapYear y) dayInYear
  ⟨y, month + 1, dayInYear - daysBefore (leapYear y) month + 1⟩

def dayOf (c : Civil) : ℤ :=
  dayFromYear c.year + daysBefore (leapYear c.year) (c.month - 1) + c.day - 1

theorem dayOf_civil (day : ℤ) : dayOf (civil day) = day := by
  obtain ⟨hfrom, hto⟩ := yearOf_spec day
  have hmonth := daysBefore_monthOf_le (leapYear (yearOf day)) (day - dayFromYear (yearOf day)).toNat
  unfold dayOf civil
  dsimp only
  rw [Nat.add_sub_cancel]
  omega

example : civil 11016 = ⟨2000, 2, 29⟩ ∧ civil (-1) = ⟨1969, 12, 31⟩ := by decide

/-- Days that are written alike are one. -/
theorem civil_injective : Function.Injective civil := Function.LeftInverse.injective dayOf_civil

theorem monthOf_le (leap : Bool) (day : ℕ) : monthOf leap day ≤ 11 := Nat.findGreatest_le 11

theorem daysBefore_le : ∀ leap : Bool, ∀ month ≤ 11, daysBefore leap month ≤ 335 := by decide

theorem daysBefore_ne_succ : ∀ leap : Bool, ∀ month ≤ 11, ∀ month' ≤ 11,
    daysBefore leap month' ≠ daysBefore leap month + 1 := by decide

theorem day_succ_ne (day : ℤ) : (civil (day + 1)).day ≠ (civil day).day := by
  intro heq
  have hday := dayOf_civil day
  have hnext := dayOf_civil (day + 1)
  obtain ⟨hfrom, hto⟩ := yearOf_spec day
  have hfrom' := (yearOf_spec (day + 1)).1
  have hle := yearOf_mono (show day ≤ day + 1 by omega)
  have hge := dayFromYear_lt_iff.mp (show dayFromYear (yearOf (day + 1)) <
    dayFromYear (yearOf day + 1 + 1) by
    have hlater := dayFromYear_add_le (show yearOf day + 1 ≤ yearOf day + 1 + 1 by omega)
    omega)
  unfold dayOf at hday hnext
  rw [heq] at hnext
  have hmonth := monthOf_le (leapYear (yearOf day)) (day - dayFromYear (yearOf day)).toNat
  have hmonth' := monthOf_le (leapYear (yearOf (day + 1)))
    (day + 1 - dayFromYear (yearOf (day + 1))).toNat
  have hbefore := daysBefore_le (leapYear (yearOf day)) _ hmonth
  have hyear : (civil day).year = yearOf day := rfl
  have hyear' : (civil (day + 1)).year = yearOf (day + 1) := rfl
  have hm : (civil day).month - 1 = monthOf (leapYear (yearOf day))
    (day - dayFromYear (yearOf day)).toNat := rfl
  have hm' : (civil (day + 1)).month - 1 =
      monthOf (leapYear (yearOf (day + 1))) (day + 1 - dayFromYear (yearOf (day + 1))).toNat := rfl
  rw [hyear, hm] at hday
  rw [hyear', hm'] at hnext
  rcases eq_or_lt_of_le hle with hsame | hlater
  · rw [← hsame] at hnext hmonth'
    have hne := daysBefore_ne_succ (leapYear (yearOf day)) _ hmonth _ hmonth'
    omega
  · have hlong := dayFromYear_add_le (show yearOf day + 1 ≤ yearOf (day + 1) by omega)
    have hyears := dayFromYear_add_le (show yearOf day ≤ yearOf day + 1 by omega)
    omega

def weekday (day : ℤ) : ℕ := ((day + 4) % 7).toNat

end Insula.Calendar
