import Insula.Versions
import Insula.WireFormat

/-!
# Four readers of cron schedules

A schedule has five fields: minute, hour, day of the month, month and day of the week. The API takes
what a pattern matches, or what a validator passes; the scheduler of cron jobs and the minute
matcher each read a field into the set of its values.
-/

namespace Insula.CronGrammar

open Javascript (isSpace digits number trim)
open DnsServers (Text splitSpaces)

/-! ## What the API accepts -/

structure FieldSpec where
  min : ℕ
  max : ℕ
deriving DecidableEq

def minuteSpec : FieldSpec := ⟨0, 59⟩

def hourSpec : FieldSpec := ⟨0, 23⟩

def domSpec : FieldSpec := ⟨1, 31⟩

def monthSpec : FieldSpec := ⟨1, 12⟩

def dowSpec : FieldSpec := ⟨0, 7⟩

def fieldSpecs : List FieldSpec := [minuteSpec, hourSpec, domSpec, monthSpec, dowSpec]

def cronChar (c : Char) : Bool := c.isDigit || c = '*' || c = ',' || c = '-' || c = '/'

def matchFields : ℕ → Text → Bool
  | 0, _ => false
  | 1, s => s ≠ [] && s.all cronChar
  | n + 1, s =>
    let rest := s.dropWhile cronChar
    s.takeWhile cronChar ≠ [] && rest.head?.any isSpace && matchFields n (rest.dropWhile isSpace)

def cronRegex (schedule : Text) : Bool := matchFields 5 schedule

def cutAt (c : Char) (s : Text) : Option (Text × Text) :=
  if c ∈ s then some (s.takeWhile (· ≠ c), (s.dropWhile (· ≠ c)).tail) else none

def rangeMatch (base : Text) : Option (ℕ × ℕ) :=
  match cutAt '-' base with
  | some (a, b) => if digits a ∧ digits b then some (number a, number b) else none
  | none => none

def validateBase (spec : FieldSpec) (base : Text) : Bool :=
  if base = ['*'] then true
  else if digits base then spec.min ≤ number base ∧ number base ≤ spec.max
  else
    match rangeMatch base with
    | some (a, b) => spec.min ≤ a ∧ a ≤ spec.max ∧ spec.min ≤ b ∧ b ≤ spec.max ∧ a ≤ b
    | none => false

def validatePart (spec : FieldSpec) (token : Text) : Bool :=
  if token = [] then false
  else
    match cutAt '/' token with
    | none => validateBase spec token
    | some (base, step) =>
      digits step && 1 ≤ number step && number step ≤ spec.max && validateBase spec base

def validateField (spec : FieldSpec) (token : Text) : Bool :=
  if ',' ∈ token then (token.splitOn ',').all (validatePart spec) else validatePart spec token

def fields (schedule : Text) : List Text := splitSpaces (trim schedule)

def validateCronExpression (expr : Text) : Bool :=
  trim expr ≠ [] && (fields expr).length = 5 && ((fields expr).zip fieldSpecs).all fun x =>
  validateField x.2 x.1

/-! ## What the scheduler of cron jobs reads -/

def stepsFrom (first last step : ℕ) : Finset ℕ :=
  (List.range' first ((last - first) / step + 1) step).toFinset

/-- The range of one part: what `parseField` makes of the text before the step. -/
def parseRange (spec : FieldSpec) (rangePart : Text) (stepped : Bool) : Option (ℕ × ℕ) :=
  if rangePart = ['*'] then some (spec.min, spec.max)
  else if digits rangePart then
    some (number rangePart, if stepped then spec.max else number rangePart)
  else
    match rangePart.splitOn '-' with
    | [a, b] => if digits a ∧ digits b then some (number a, number b) else none
    | _ => none

def parsePart (spec : FieldSpec) (part : Text) : Option (Finset ℕ) :=
  if part = [] then none
  else
    match part.splitOn '/' with
    | [rangePart] => values rangePart false 1
    | [rangePart, stepPart] =>
      if digits stepPart ∧ 1 ≤ number stepPart then values rangePart true (number stepPart) else none
    | _ => none
where
  values (rangePart : Text) (stepped : Bool) (step : ℕ) : Option (Finset ℕ) :=
    match parseRange spec rangePart stepped with
    | none => none
    | some (first, last) =>
      if first < spec.min ∨ spec.max < last ∨ last < first then none
      else some (stepsFrom first last step)

def unionParts (read : Text → Option (Finset ℕ)) : List Text → Option (Finset ℕ)
  | [] => some ∅
  | part :: parts =>
    match read part, unionParts read parts with
    | some a, some b => some (a ∪ b)
    | _, _ => none

def parseField (spec : FieldSpec) (field : Text) : Option (Finset ℕ) :=
  (unionParts (parsePart spec) (field.splitOn ',')).filter (· ≠ ∅)

structure CronFields where
  minute : Finset ℕ
  hour : Finset ℕ
  dayOfMonth : Finset ℕ
  month : Finset ℕ
  dayOfWeek : Finset ℕ
  domRestricted : Bool
  dowRestricted : Bool
deriving DecidableEq

def sundayZero (days : Finset ℕ) : Finset ℕ := days.image fun d => if d = 7 then 0 else d

def parseCron (schedule : Text) : Option CronFields :=
  match fields schedule with
  | [minuteField, hourField, domField, monthField, dowField] =>
    match parseField minuteSpec minuteField, parseField hourSpec hourField,
        parseField domSpec domField, parseField monthSpec monthField, parseField dowSpec dowField with
    | some minute, some hour, some dayOfMonth, some month, some dowRaw =>
      some ⟨minute, hour, dayOfMonth, month, sundayZero dowRaw, domField ≠ ['*'], dowField ≠ ['*']⟩
    | _, _, _, _, _ => none
  | _ => none

/-! ## What the minute matcher reads -/

def expandPart (spec : FieldSpec) (token : Text) : Option (Finset ℕ) :=
  if token = [] then none
  else
    match cutAt '/' token with
    | none => values token false 1
    | some (base, stepStr) =>
      if digits stepStr ∧ 1 ≤ number stepStr then values base true (number stepStr) else none
where
  values (base : Text) (slash : Bool) (step : ℕ) : Option (Finset ℕ) :=
    if base = ['*'] then some (stepsFrom spec.min spec.max step)
    else if digits base then
      if number base < spec.min ∨ spec.max < number base then none
      else some (stepsFrom (number base) (if slash then spec.max else number base) step)
    else
      match rangeMatch base with
      | none => none
      | some (lo, hi) =>
        if lo < spec.min ∨ spec.max < hi ∨ hi < lo then none else some (stepsFrom lo hi step)

def expandCronField (spec : FieldSpec) (token : Text) : Option (Finset ℕ) :=
  if ',' ∈ token then unionParts (expandPart spec) (token.splitOn ',') else expandPart spec token

/-! ## The grammar -/

/-- A star, a number of the field, or a range of them. -/
def BaseOk (spec : FieldSpec) (base : Text) : Prop :=
  base = ['*'] ∨ (digits base = true ∧ spec.min ≤ number base ∧ number base ≤ spec.max) ∨
    ∃ a b, base = a ++ '-' :: b ∧ digits a = true ∧ digits b = true ∧ spec.min ≤ number a ∧
      number a ≤ number b ∧ number b ≤ spec.max

def PartOk (spec : FieldSpec) (part : Text) : Prop :=
  BaseOk spec part ∨
    ∃ base step, part = base ++ '/' :: step ∧ BaseOk spec base ∧ digits step = true ∧ 1 ≤ number step

def FieldOk (spec : FieldSpec) (field : Text) : Prop := ∀ part ∈ field.splitOn ',', PartOk spec part

def WellFormed (schedule : Text) : Prop :=
  (fields schedule).length = 5 ∧ ∀ x ∈ (fields schedule).zip fieldSpecs, FieldOk x.2 x.1

/-! ## The readers of one part -/

variable {c : Char}

theorem not_mem_of_digits {s : Text} (h : digits s = true) (hc : c.isDigit = false) : c ∉ s := by
  intro hmem
  simp only [digits, Bool.and_eq_true, List.all_eq_true] at h
  rw [h.2 c hmem] at hc
  cases hc

theorem cutAt_none {s : Text} (h : c ∉ s) : cutAt c s = none := if_neg h

theorem cutAt_append {a b : Text} (h : c ∉ a) : cutAt c (a ++ c :: b) = some (a, b) := by
  have hall : ∀ x ∈ a, decide (x ≠ c) = true := by
    intro x hx
    rw [decide_eq_true_eq]
    rintro rfl
    exact h hx
  unfold cutAt
  rw [if_pos (by simp), List.takeWhile_append_of_pos hall, List.dropWhile_append_of_pos hall]
  simp

theorem cutAt_cases (c : Char) (s : Text) :
    (c ∉ s ∧ cutAt c s = none) ∨ ∃ a b, s = a ++ c :: b ∧ c ∉ a ∧ cutAt c s = some (a, b) := by
  by_cases h : c ∈ s
  · obtain ⟨a, b, rfl, ha⟩ := List.eq_append_cons_of_mem h
    exact .inr ⟨a, b, rfl, ha, cutAt_append ha⟩
  · exact .inl ⟨h, cutAt_none h⟩

/-- What a list of parts comes to when it must have two of which the second is a number. -/
theorem splitOn_tail {b : Text} (h : c ∈ b) : ∃ x y zs, b.splitOn c = x :: y :: zs := by
  obtain ⟨a, b, rfl, ha⟩ := List.eq_append_cons_of_mem h
  rw [List.splitOn_append_cons_self_of_not_mem ha]
  cases hb : b.splitOn c with
  | nil => exact absurd hb (List.splitOn_ne_nil _ _)
  | cons y zs => exact ⟨a, y, zs, rfl⟩

theorem rangeMatch_eq (base : Text) :
    (match base.splitOn '-' with
      | [a, b] => if digits a = true ∧ digits b = true then some (number a, number b) else none
      | _ => none) = rangeMatch base := by
  unfold rangeMatch
  rcases cutAt_cases '-' base with ⟨hnot, hcut⟩ | ⟨a, b, rfl, ha, hcut⟩
  · rw [hcut, List.splitOn_eq_singleton hnot]
  · rw [hcut, List.splitOn_append_cons_self_of_not_mem ha]
    by_cases hb : '-' ∈ b
    · obtain ⟨x, y, zs, hsplit⟩ := splitOn_tail hb
      have hdigits : digits b = false := by
        rw [Bool.eq_false_iff]
        exact fun h => not_mem_of_digits h (by decide) hb
      simp [hsplit, hdigits]
    · rw [List.splitOn_eq_singleton hb]

section Readers

variable {spec : FieldSpec} {base : Text}

theorem values_eq (h : spec.min ≤ spec.max) (base : Text) (stepped : Bool) (step : ℕ) :
    parsePart.values spec base stepped step = expandPart.values spec base stepped step := by
  unfold parsePart.values expandPart.values parseRange
  by_cases hstar : base = ['*']
  · simp only [hstar, ↓reduceIte]
    exact if_neg (by omega)
  · by_cases hdigits : digits base = true
    · simp only [hstar, hdigits, ↓reduceIte]
      cases stepped with
      | false =>
        simp only [Bool.false_eq_true, ↓reduceIte]
        congr 1
        simp
      | true =>
        simp only [↓reduceIte]
        congr 1
        simp
    · simp only [hstar, hdigits, ↓reduceIte]
      rw [rangeMatch_eq]
      rfl

/-- The scheduler and the minute matcher read a part alike. -/
theorem parsePart_eq (h : spec.min ≤ spec.max) (part : Text) :
    parsePart spec part = expandPart spec part := by
  unfold parsePart expandPart
  by_cases hempty : part = []
  · rw [if_pos hempty, if_pos hempty]
  · rw [if_neg hempty, if_neg hempty]
    rcases cutAt_cases '/' part with ⟨hnot, hcut⟩ | ⟨base, step, rfl, hbase, hcut⟩
    · rw [hcut, List.splitOn_eq_singleton hnot]
      exact values_eq h part false 1
    · rw [hcut, List.splitOn_append_cons_self_of_not_mem hbase]
      by_cases hstep : '/' ∈ step
      · obtain ⟨x, y, zs, hsplit⟩ := splitOn_tail hstep
        have hdigits : digits step = false := by
          rw [Bool.eq_false_iff]
          exact fun h => not_mem_of_digits h (by decide) hstep
        simp [hsplit, hdigits]
      · rw [List.splitOn_eq_singleton hstep]
        dsimp only
        rw [values_eq h]

theorem stepsFrom_ne_empty (first last step : ℕ) : stepsFrom first last step ≠ ∅ := by
  have hmem : first ∈ stepsFrom first last step := by
    rw [stepsFrom, List.mem_toFinset, List.mem_range']
    exact ⟨0, Nat.succ_pos _, by simp⟩
  intro hempty
  rw [hempty] at hmem
  exact absurd hmem (Finset.notMem_empty _)

theorem values_ne_empty {stepped : Bool} {step : ℕ} {a : Finset ℕ}
    (h : expandPart.values spec base stepped step = some a) : a ≠ ∅ := by
  unfold expandPart.values at h
  split at h
  · cases h
    exact stepsFrom_ne_empty _ _ _
  · split at h
    · split at h
      · cases h
      · cases h
        exact stepsFrom_ne_empty _ _ _
    · split at h
      · cases h
      · split at h
        · cases h
        · cases h
          exact stepsFrom_ne_empty _ _ _

theorem expandPart_ne_empty {part : Text} {a : Finset ℕ} (h : expandPart spec part = some a) :
    a ≠ ∅ := by
  unfold expandPart at h
  split at h
  · cases h
  · split at h
    · exact values_ne_empty h
    · split at h
      · exact values_ne_empty h
      · cases h

/-- A base has no slash and no comma, and is no empty text. -/
theorem BaseOk.not_mem {c : Char} (h : BaseOk spec base) (hc : c = '/' ∨ c = ',') : c ∉ base := by
  have hdigit : c.isDigit = false := by
    rcases hc with rfl | rfl <;> decide
  rcases h with rfl | ⟨hbase, -⟩ | ⟨a, b, rfl, ha, hb, -⟩
  · rcases hc with rfl | rfl <;> decide
  · exact not_mem_of_digits hbase hdigit
  · rw [List.mem_append, List.mem_cons, not_or, not_or]
    refine ⟨not_mem_of_digits ha hdigit, ?_, not_mem_of_digits hb hdigit⟩
    rcases hc with rfl | rfl <;> decide

theorem BaseOk.ne_nil (h : BaseOk spec base) : base ≠ [] := by
  rcases h with rfl | ⟨hbase, -⟩ | ⟨a, b, rfl, -⟩
  · exact List.cons_ne_nil _ _
  · rintro rfl
    cases hbase
  · exact List.append_ne_nil_of_right_ne_nil a (List.cons_ne_nil _ _)

theorem rangeMatch_iff {lo hi : ℕ} : rangeMatch base = some (lo, hi) ↔
      ∃ a b, base = a ++ '-' :: b ∧ digits a = true ∧ digits b = true ∧ lo = number a ∧
      hi = number b := by
  unfold rangeMatch
  constructor
  · intro h
    rcases cutAt_cases '-' base with ⟨-, hcut⟩ | ⟨a, b, rfl, -, hcut⟩
    · rw [hcut] at h
      cases h
    · simp only [hcut] at h
      split at h
      · next hdigits =>
        cases h
        exact ⟨a, b, rfl, hdigits.1, hdigits.2, rfl, rfl⟩
      · cases h
  · rintro ⟨a, b, rfl, ha, hb, rfl, rfl⟩
    rw [cutAt_append (not_mem_of_digits ha (by decide))]
    exact if_pos ⟨ha, hb⟩

theorem values_isSome_iff {stepped : Bool} {step : ℕ} :
    (expandPart.values spec base stepped step).isSome = true ↔ BaseOk spec base := by
  unfold expandPart.values BaseOk
  by_cases hstar : base = ['*']
  · simp [hstar]
  · by_cases hdigits : digits base = true
    · have hrange : ∀ a b : Text, base ≠ a ++ '-' :: b := by
        rintro a b rfl
        exact not_mem_of_digits hdigits (c := '-') (by decide) (by simp)
      simp only [hstar, hdigits, ↓reduceIte, false_or, true_and, hrange, false_and, exists_false,
        or_false]
      by_cases hbounds : number base < spec.min ∨ spec.max < number base
      · rw [if_pos hbounds]
        simp only [Option.isSome_none, Bool.false_eq_true, false_iff]
        omega
      · rw [if_neg hbounds]
        simp only [Option.isSome_some, true_iff]
        omega
    · simp only [hstar, hdigits, ↓reduceIte, false_or, Bool.false_eq_true, false_and]
      cases hmatch : rangeMatch base with
      | none =>
        simp only [Option.isSome_none, Bool.false_eq_true, false_iff, not_exists]
        rintro a b ⟨hbase, ha, hb, -⟩
        have hsome := rangeMatch_iff.mpr ⟨a, b, hbase, ha, hb, rfl, rfl⟩
        rw [hmatch] at hsome
        cases hsome
      | some range =>
        obtain ⟨lo, hi⟩ := range
        dsimp only
        constructor
        · intro hsome
          split at hsome
          · cases hsome
          · next hbounds =>
            obtain ⟨a, b, hbase, ha, hb, rfl, rfl⟩ := rangeMatch_iff.mp hmatch
            exact ⟨a, b, hbase, ha, hb, by omega, by omega, by omega⟩
        · rintro ⟨a, b, hbase, ha, hb, hbounds⟩
          have hsome := rangeMatch_iff.mpr ⟨a, b, hbase, ha, hb, rfl, rfl⟩
          rw [hmatch, Option.some.injEq, Prod.mk.injEq] at hsome
          obtain ⟨rfl, rfl⟩ := hsome
          rw [if_neg (by omega)]
          rfl

/-- The minute matcher reads the parts of the grammar. -/
theorem expandPart_isSome_iff {part : Text} :
    (expandPart spec part).isSome = true ↔ PartOk spec part := by
  unfold expandPart
  by_cases hempty : part = []
  · subst hempty
    simp only [↓reduceIte, Option.isSome_none, Bool.false_eq_true, false_iff]
    rintro (h | ⟨base, step, h, -⟩)
    · exact h.ne_nil rfl
    · exact List.append_ne_nil_of_right_ne_nil base (List.cons_ne_nil _ _) h.symm
  · rw [if_neg hempty]
    rcases cutAt_cases '/' part with ⟨hnot, hcut⟩ | ⟨base, step, rfl, hbase, hcut⟩
    · rw [hcut]
      refine values_isSome_iff.trans ⟨.inl, ?_⟩
      rintro (h | ⟨base, step, rfl, -⟩)
      · exact h
      · exact absurd (by simp) hnot
    · rw [hcut]
      dsimp only
      constructor
      · intro h
        split at h
        · next hstep => exact .inr ⟨base, step, rfl, values_isSome_iff.mp h, hstep.1, hstep.2⟩
        · cases h
      · rintro (h | ⟨base', step', heq, hok, hdigits, hone⟩)
        · exact absurd (by simp) (h.not_mem (.inl rfl))
        · have hcut' := cutAt_append (b := step') (hok.not_mem (.inl rfl))
          rw [← heq, hcut, Option.some.injEq, Prod.mk.injEq] at hcut'
          obtain ⟨rfl, rfl⟩ := hcut'
          rw [if_pos ⟨hdigits, hone⟩]
          exact values_isSome_iff.mpr hok

end Readers

end Insula.CronGrammar
