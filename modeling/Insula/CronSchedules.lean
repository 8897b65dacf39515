import Insula.CronGrammar

/-!
# Schedules that are accepted, read and due

All readers take the same schedules, those of the grammar, and read the same sets; the pattern of
the API takes more. A schedule is due when a minute of the calendar matches it.
-/

namespace Insula.CronGrammar

open Javascript (digits number trim)
open DnsServers (Text)

section Fields

variable {spec : FieldSpec} {field : Text}

theorem validateBase_ok {base : Text} (h : validateBase spec base = true) : BaseOk spec base := by
  unfold validateBase at h
  split at h
  · next hstar => exact .inl hstar
  · split at h
    · next hdigits =>
      simp only [decide_eq_true_eq] at h
      exact .inr (.inl ⟨hdigits, h⟩)
    · cases hmatch : rangeMatch base with
      | none => simp [hmatch] at h
      | some range =>
        obtain ⟨lo, hi⟩ := range
        obtain ⟨a, b, hbase, ha, hb, rfl, rfl⟩ := rangeMatch_iff.mp hmatch
        simp only [hmatch, decide_eq_true_eq] at h
        exact .inr (.inr ⟨a, b, hbase, ha, hb, h.1, h.2.2.2.2, h.2.2.2.1⟩)

theorem validatePart_ok {part : Text} (h : validatePart spec part = true) : PartOk spec part := by
  unfold validatePart at h
  split at h
  · cases h
  · rcases cutAt_cases '/' part with ⟨-, hcut⟩ | ⟨base, step, rfl, -, hcut⟩
    · rw [hcut] at h
      exact .inl (validateBase_ok h)
    · simp only [hcut, Bool.and_eq_true, decide_eq_true_eq] at h
      exact .inr ⟨base, step, rfl, validateBase_ok h.2, h.1.1.1, h.1.1.2⟩

theorem validateField_ok (h : validateField spec field = true) : FieldOk spec field := by
  unfold validateField at h
  split at h
  · intro part hpart
    exact validatePart_ok (List.all_eq_true.mp h part hpart)
  · next hcomma =>
    intro part hpart
    rw [List.splitOn_eq_singleton hcomma, List.mem_singleton] at hpart
    rw [hpart]
    exact validatePart_ok h

theorem unionParts_isSome_iff {read : Text → Option (Finset ℕ)} {parts : List Text} :
    (unionParts read parts).isSome = true ↔ ∀ part ∈ parts, (read part).isSome = true := by
  induction parts with
  | nil => simp [unionParts]
  | cons part parts ih =>
    rw [List.forall_mem_cons, ← ih, unionParts]
    cases read part <;> cases unionParts read parts <;> simp

/-- The minute matcher reads the fields of the grammar. -/
theorem expandCronField_isSome_iff :
    (expandCronField spec field).isSome = true ↔ FieldOk spec field := by
  unfold expandCronField FieldOk
  split
  · rw [unionParts_isSome_iff]
    exact forall₂_congr fun _ _ => expandPart_isSome_iff
  · next hcomma =>
    rw [List.splitOn_eq_singleton hcomma, expandPart_isSome_iff]
    simp

theorem unionParts_ne_empty {read : Text → Option (Finset ℕ)}
    (hread : ∀ part a, read part = some a → a ≠ ∅) {parts : List Text} (hparts : parts ≠ [])
    {a : Finset ℕ} (h : unionParts read parts = some a) : a ≠ ∅ := by
  cases parts with
  | nil => exact absurd rfl hparts
  | cons part parts =>
    rw [unionParts] at h
    split at h
    · next b c hb hc =>
      cases h
      obtain ⟨v, hv⟩ := Finset.nonempty_iff_ne_empty.mpr (hread part b hb)
      exact Finset.nonempty_iff_ne_empty.mp ⟨v, Finset.mem_union_left _ hv⟩
    · cases h

/-- Both readers make the same set of a field, or none. -/
theorem parseField_eq (hspec : spec.min ≤ spec.max) (field : Text) :
    parseField spec field = expandCronField spec field := by
  have hread : parsePart spec = expandPart spec := funext (parsePart_eq hspec)
  have hunion : unionParts (parsePart spec) (field.splitOn ',') = expandCronField spec field := by
    rw [hread]
    unfold expandCronField
    split
    · rfl
    · next hcomma =>
      rw [List.splitOn_eq_singleton hcomma, unionParts]
      cases expandPart spec field <;> simp [unionParts]
  unfold parseField
  cases hfield : expandCronField spec field with
  | none => rw [hunion, hfield]; rfl
  | some a =>
    have hne : a ≠ ∅ := by
      rw [← hunion, hread] at hfield
      exact unionParts_ne_empty (fun _ _ => expandPart_ne_empty) (List.splitOn_ne_nil _ _) hfield
    rw [hunion, hfield]
    exact if_pos (decide_eq_true hne)

theorem parseField_isSome_iff (hspec : spec.min ≤ spec.max) :
    (parseField spec field).isSome = true ↔ FieldOk spec field := by
  rw [parseField_eq hspec, expandCronField_isSome_iff]

end Fields

/-! ## Schedules -/

theorem bounds_of_fieldSpecs : ∀ spec ∈ fieldSpecs, spec.min ≤ spec.max := by decide

theorem five_of_length {l : List Text} (h : l.length = 5) : ∃ a b c d e, l = [a, b, c, d, e] := by
  match l, h with
  | [a, b, c, d, e], _ => exact ⟨a, b, c, d, e, rfl⟩

variable {schedule : Text}

theorem parseCron_isSome_iff : (parseCron schedule).isSome = true ↔ WellFormed schedule := by
  unfold parseCron WellFormed
  by_cases hlength : (fields schedule).length = 5
  · obtain ⟨a, b, c, d, e, hfields⟩ := five_of_length hlength
    rw [hfields]
    simp only [fieldSpecs, List.zip_cons_cons, List.zip_nil_right, List.forall_mem_cons,
      List.not_mem_nil, false_implies, implies_true, and_true, List.length_cons, List.length_nil,
      true_and]
    have hbounds := bounds_of_fieldSpecs
    simp only [fieldSpecs, List.forall_mem_cons, List.not_mem_nil, false_implies, implies_true,
      and_true] at hbounds
    obtain ⟨hminute, hhour, hdom, hmonth, hdow⟩ := hbounds
    rw [← parseField_isSome_iff hminute, ← parseField_isSome_iff hhour, ← parseField_isSome_iff hdom,
      ← parseField_isSome_iff hmonth, ← parseField_isSome_iff hdow]
    cases parseField minuteSpec a <;> cases parseField hourSpec b <;> cases parseField domSpec c <;>
      cases parseField monthSpec d <;> cases parseField dowSpec e <;> simp
  · simp only [hlength, false_and, iff_false, Bool.not_eq_true, Option.isSome_eq_false_iff,
      Option.isNone_iff_eq_none]
    split
    · next heq => exact absurd (by rw [heq]; rfl) hlength
    · rfl

theorem wellFormed_of_validate (h : validateCronExpression schedule = true) :
    WellFormed schedule := by
  simp only [validateCronExpression, Bool.and_eq_true, decide_eq_true_eq, List.all_eq_true] at h
  exact ⟨h.1.2, fun x hx => validateField_ok (h.2 x hx)⟩

/-! ## Minutes of the calendar -/

def leapYear (year : ℕ) : Bool := year % 4 = 0 && (year % 100 ≠ 0 || year % 400 = 0)

def monthLength (year month : ℕ) : ℕ :=
  if month = 2 then if leapYear year then 29 else 28
  else if month ∈ [4, 6, 9, 11] then 30
  else 31

structure WallTime where
  year : ℕ
  month : ℕ
  day : ℕ
  hour : ℕ
  minute : ℕ
deriving DecidableEq

namespace WallTime

variable (w : WallTime)

structure Valid : Prop where
  year : 1 ≤ w.year
  month : 1 ≤ w.month ∧ w.month ≤ 12
  day : 1 ≤ w.day ∧ w.day ≤ monthLength w.year w.month
  hour : w.hour < 24
  minute : w.minute < 60

def daysBefore : ℕ :=
  365 * (w.year - 1) + (w.year - 1) / 4 - (w.year - 1) / 100 + (w.year - 1) / 400 +
    ((List.range' 1 (w.month - 1)).map (monthLength w.year)).sum

def weekday : ℕ := (w.daysBefore + w.day) % 7

theorem weekday_lt : w.weekday < 7 := Nat.mod_lt _ (by decide)

end WallTime

namespace CronFields

variable (f : CronFields) (w : WallTime)

def dayMatches : Bool :=
  if f.domRestricted && f.dowRestricted then w.day ∈ f.dayOfMonth || w.weekday ∈ f.dayOfWeek
  else if f.domRestricted then w.day ∈ f.dayOfMonth
  else if f.dowRestricted then w.weekday ∈ f.dayOfWeek
  else true

def matchesWall : Bool :=
  w.month ∈ f.month && f.dayMatches w && w.hour ∈ f.hour && w.minute ∈ f.minute

end CronFields

def cronMatchesMinute (expr : Text) (w : WallTime) : Bool :=
  match fields expr with
  | [minuteField, hourField, domField, monthField, dowField] =>
    match expandCronField minuteSpec minuteField, expandCronField hourSpec hourField,
        expandCronField domSpec domField, expandCronField monthSpec monthField,
        expandCronField dowSpec dowField with
    | some minutes, some hours, some doms, some months, some dows =>
      let dowSet := if 7 ∈ dows then insert 0 dows else dows
      let domRestricted := domField ≠ ['*']
      let dowRestricted := dowField ≠ ['*']
      w.minute ∈ minutes && w.hour ∈ hours && w.month ∈ months &&
        if domRestricted ∧ dowRestricted then w.day ∈ doms || w.weekday ∈ dowSet
        else if domRestricted then w.day ∈ doms
        else if dowRestricted then w.weekday ∈ dowSet
        else true
    | _, _, _, _, _ => false
  | _ => false

theorem mem_sundayZero (days : Finset ℕ) {d : ℕ} (hd : d < 7) :
    d ∈ sundayZero days ↔ d ∈ if 7 ∈ days then insert 0 days else days := by
  unfold sundayZero
  rw [Finset.mem_image]
  constructor
  · rintro ⟨x, hx, rfl⟩
    by_cases hseven : x = 7
    · subst hseven
      rw [if_pos rfl, if_pos hx]
      exact Finset.mem_insert_self _ _
    · rw [if_neg hseven]
      split
      · exact Finset.mem_insert_of_mem hx
      · exact hx
  · intro h
    by_cases hseven : 7 ∈ days
    · rw [if_pos hseven, Finset.mem_insert] at h
      rcases h with rfl | h
      · exact ⟨7, hseven, rfl⟩
      · exact ⟨d, h, if_neg (by omega)⟩
    · rw [if_neg hseven] at h
      exact ⟨d, h, if_neg (by omega)⟩

theorem parseCron_of_fields {a b c d e : Text} (h : fields schedule = [a, b, c, d, e]) :
    parseCron schedule =
      match expandCronField minuteSpec a, expandCronField hourSpec b, expandCronField domSpec c,
        expandCronField monthSpec d, expandCronField dowSpec e with
      | some minutes, some hours, some doms, some months, some dows =>
        some ⟨minutes, hours, doms, months, sundayZero dows, c ≠ ['*'], e ≠ ['*']⟩
      | _, _, _, _, _ => none := by
  have hbounds := bounds_of_fieldSpecs
  simp only [fieldSpecs, List.forall_mem_cons, List.not_mem_nil, false_implies, implies_true,
    and_true] at hbounds
  obtain ⟨hminute, hhour, hdom, hmonth, hdow⟩ := hbounds
  rw [← parseField_eq hminute, ← parseField_eq hhour, ← parseField_eq hdom, ← parseField_eq hmonth,
    ← parseField_eq hdow]
  unfold parseCron
  generalize fields schedule = parts at h
  subst h
  rfl

/-- The two matchers agree on every schedule and every minute. -/
theorem cronMatchesMinute_eq (schedule : Text) (w : WallTime) :
    cronMatchesMinute schedule w = (parseCron schedule).any (·.matchesWall w) := by
  by_cases hlength : (fields schedule).length = 5
  · obtain ⟨a, b, c, d, e, hfields⟩ := five_of_length hlength
    rw [parseCron_of_fields hfields, cronMatchesMinute, hfields]
    dsimp only
    split
    · next minutes hours doms months dows hminute hhour hdom hmonth hdow =>
      have hday := mem_sundayZero dows w.weekday_lt
      simp only [Option.any_some, CronFields.matchesWall, CronFields.dayMatches, hday]
      by_cases hdomField : c = ['*'] <;> by_cases hdowField : e = ['*'] <;>
        simp [hdomField, hdowField] <;> grind
    · rfl
  · have hnone : parseCron schedule = none := by
      rw [← Option.not_isSome_iff_eq_none, parseCron_isSome_iff]
      exact fun h => hlength h.1
    rw [hnone, cronMatchesMinute]
    split
    · next hfields => exact absurd (by rw [hfields]; rfl) hlength
    · rfl

/-! ## Schedules that are due -/

/-- Some minute of the calendar matches the schedule. -/
def EverDue (schedule : Text) : Prop :=
  ∃ f ∈ parseCron schedule, ∃ w : WallTime, w.Valid ∧ f.matchesWall w = true

/-- Where the day of the month alone decides, some day is one of some month, in a leap year. -/
def Dated (schedule : Text) : Prop :=
  ∀ f ∈ parseCron schedule, f.domRestricted = true → f.dowRestricted = false →
    ∃ month ∈ f.month, ∃ day ∈ f.dayOfMonth, day ≤ monthLength 2028 month

theorem monthLength_le (year month : ℕ) : monthLength year month ≤ monthLength 2028 month := by
  have hleap : leapYear 2028 = true := by decide
  unfold monthLength
  rw [hleap]
  split
  · split <;> simp
  · exact le_rfl

theorem le_monthLength (year month : ℕ) : 28 ≤ monthLength year month := by
  unfold monthLength
  split
  · split <;> omega
  · split <;> omega

/-- The values of a loop lie between its ends. -/
theorem mem_stepsFrom {first last step v : ℕ} (h : v ∈ stepsFrom first last step) (hle : first ≤ last) :
    first ≤ v ∧ v ≤ last := by
  rw [stepsFrom, List.mem_toFinset, List.mem_range'] at h
  obtain ⟨i, hi, rfl⟩ := h
  have hmul : step * i ≤ step * ((last - first) / step) := Nat.mul_le_mul_left step (by omega)
  have hdiv : step * ((last - first) / step) ≤ last - first := Nat.mul_div_le _ _
  omega

section Bounds

variable {spec : FieldSpec} {a : Finset ℕ} {v : ℕ}

theorem values_bounds (hspec : spec.min ≤ spec.max) {base : Text} {stepped : Bool} {step : ℕ}
    (h : expandPart.values spec base stepped step = some a) (hv : v ∈ a) :
    spec.min ≤ v ∧ v ≤ spec.max := by
  unfold expandPart.values at h
  split at h
  · cases h
    exact mem_stepsFrom hv hspec
  · split at h
    · split at h
      · cases h
      · next hbounds =>
        cases h
        cases stepped with
        | false =>
          have hmem := mem_stepsFrom hv le_rfl
          simp only [Bool.false_eq_true, ↓reduceIte] at hmem
          omega
        | true =>
          have hmem := mem_stepsFrom hv (by simp only [↓reduceIte]; omega)
          simp only [↓reduceIte] at hmem
          omega
    · split at h
      · cases h
      · split at h
        · cases h
        · next hbounds =>
          cases h
          have hmem := mem_stepsFrom hv (by omega)
          omega

theorem expandPart_bounds (hspec : spec.min ≤ spec.max) {part : Text}
    (h : expandPart spec part = some a)
    (hv : v ∈ a) : spec.min ≤ v ∧ v ≤ spec.max := by
  unfold expandPart at h
  split at h
  · cases h
  · split at h
    · exact values_bounds hspec h hv
    · split at h
      · exact values_bounds hspec h hv
      · cases h

theorem unionParts_bounds (hspec : spec.min ≤ spec.max) {parts : List Text}
    (h : unionParts (expandPart spec) parts = some a) (hv : v ∈ a) : spec.min ≤ v ∧ v ≤ spec.max := by
  induction parts generalizing a with
  | nil =>
    cases h
    exact absurd hv (Finset.notMem_empty _)
  | cons part parts ih =>
    rw [unionParts] at h
    split at h
    · next b c hb hc =>
      cases h
      rcases Finset.mem_union.mp hv with hv | hv
      · exact expandPart_bounds hspec hb hv
      · exact ih hc hv
    · cases h

theorem expandCronField_bounds (hspec : spec.min ≤ spec.max) {field : Text}
    (h : expandCronField spec field = some a) (hv : v ∈ a) : spec.min ≤ v ∧ v ≤ spec.max := by
  unfold expandCronField at h
  split at h
  · exact unionParts_bounds hspec h hv
  · exact expandPart_bounds hspec h hv

theorem expandCronField_nonempty {field : Text} (h : expandCronField spec field = some a) :
    a.Nonempty := by
  rw [Finset.nonempty_iff_ne_empty]
  unfold expandCronField at h
  split at h
  · exact unionParts_ne_empty (fun _ _ => expandPart_ne_empty) (List.splitOn_ne_nil _ _) h
  · exact expandPart_ne_empty h

end Bounds

structure Read (f : CronFields) : Prop where
  minute : ∃ v ∈ f.minute, v < 60
  hour : ∃ v ∈ f.hour, v < 24
  month : f.month.Nonempty ∧ ∀ v ∈ f.month, 1 ≤ v ∧ v ≤ 12
  dayOfMonth : ∀ v ∈ f.dayOfMonth, 1 ≤ v
  dayOfWeek : ∃ v ∈ f.dayOfWeek, v < 7

theorem read_of_parseCron {f : CronFields} (h : parseCron schedule = some f) : Read f := by
  have hwell := parseCron_isSome_iff.mp (by rw [h]; rfl)
  obtain ⟨a, b, c, d, e, hfields⟩ := five_of_length hwell.1
  rw [parseCron_of_fields hfields] at h
  split at h
  · next minutes hours doms months dows hminute hhour hdom hmonth hdow =>
    cases h
    obtain ⟨minute, hm⟩ := expandCronField_nonempty hminute
    obtain ⟨hour, hh⟩ := expandCronField_nonempty hhour
    obtain ⟨dow, hd⟩ := expandCronField_nonempty hdow
    have hminutes := expandCronField_bounds (by decide) hminute hm
    have hhours := expandCronField_bounds (by decide) hhour hh
    have hdows := expandCronField_bounds (by decide) hdow hd
    refine ⟨⟨minute, hm, Nat.lt_succ_of_le hminutes.2⟩, ⟨hour, hh, Nat.lt_succ_of_le hhours.2⟩,
      ⟨expandCronField_nonempty hmonth, fun v hv => expandCronField_bounds (by decide) hmonth hv⟩,
      fun v hv => (expandCronField_bounds (by decide) hdom hv).1, ?_⟩
    refine ⟨if dow = 7 then 0 else dow, Finset.mem_image_of_mem _ hd, ?_⟩
    have hle : dow ≤ 7 := hdows.2
    split <;> omega
  · cases h

theorem exists_weekday (year month hour minute k : ℕ) (hk : k < 7) :
    ∃ day, 1 ≤ day ∧ day ≤ 7 ∧ (WallTime.mk year month day hour minute).weekday = k := by
  have hbefore : ∀ day, (WallTime.mk year month day hour minute).daysBefore =
      (WallTime.mk year month 0 hour minute).daysBefore := fun _ => rfl
  refine ⟨(k + 6 - (WallTime.mk year month 0 hour minute).daysBefore % 7)
    % 7 + 1, by omega, by omega, ?_⟩
  rw [WallTime.weekday, hbefore]
  dsimp only
  omega

theorem everDue_iff (h : WellFormed schedule) : EverDue schedule ↔ Dated schedule := by
  obtain ⟨f, hf⟩ := Option.isSome_iff_exists.mp (parseCron_isSome_iff.mpr h)
  have hread := read_of_parseCron hf
  unfold EverDue Dated
  rw [hf]
  simp only [Option.mem_some_iff, exists_eq_left', forall_eq']
  constructor
  · rintro ⟨w, hvalid, hmatch⟩ hdom hdow
    simp only [CronFields.matchesWall, CronFields.dayMatches, hdom, hdow, Bool.and_false,
      Bool.false_eq_true, ↓reduceIte, Bool.and_eq_true, decide_eq_true_eq] at hmatch
    exact ⟨w.month, hmatch.1.1.1, w.day, hmatch.1.1.2,
      hvalid.day.2.trans (monthLength_le w.year w.month)⟩
  · intro hdated
    obtain ⟨minute, hminute, hminutes⟩ := hread.minute
    obtain ⟨hour, hhour, hhours⟩ := hread.hour
    obtain ⟨⟨month, hmonth⟩, hmonths⟩ := hread.month
    cases hdow : f.dowRestricted with
    | true =>
      obtain ⟨k, hk, hlt⟩ := hread.dayOfWeek
      obtain ⟨day, hone, hseven, hday⟩ := exists_weekday 2028 month hour minute k hlt
      refine ⟨⟨2028, month, day, hour, minute⟩,
        ⟨by simp, hmonths month hmonth, ⟨hone, ?_⟩, hhours, hminutes⟩, ?_⟩
      · exact hseven.trans ((by omega : 7 ≤ 28).trans (le_monthLength 2028 month))
      · cases hdom : f.domRestricted <;>
          simp [CronFields.matchesWall, CronFields.dayMatches, hdom, hdow, hday, hk, hmonth, hhour,
            hminute]
    | false =>
      cases hdom : f.domRestricted with
      | true =>
        obtain ⟨m, hm, day, hday, hlength⟩ := hdated hdom hdow
        refine ⟨⟨2028, m, day, hour, minute⟩,
          ⟨by simp, hmonths m hm, ⟨hread.dayOfMonth day hday, hlength⟩, hhours, hminutes⟩, ?_⟩
        simp [CronFields.matchesWall, CronFields.dayMatches, hdow, hdom, hday, hm, hhour, hminute]
      | false =>
        refine ⟨⟨2028, month, 1, hour, minute⟩,
          ⟨by simp, hmonths month hmonth, ⟨le_rfl, ?_⟩, hhours, hminutes⟩, ?_⟩
        · exact (by omega : 1 ≤ 28).trans (le_monthLength 2028 month)
        · simp [CronFields.matchesWall, CronFields.dayMatches, hdow, hdom, hmonth, hhour, hminute]

/-! ## One grammar -/

def apiAccepts (schedule : Text) : Bool := cronRegex schedule || validateCronExpression schedule

def Evaluates (schedule : Text) : Prop :=
  (fields schedule).length = 5 ∧
    ∀ x ∈ (fields schedule).zip fieldSpecs, (expandCronField x.2 x.1).isSome = true

/-- The readers take the schedule, and alike; what was taken on create is due at some minute. -/
structure OneGrammar (schedule : Text) : Prop where
  parses : (parseCron schedule).isSome = true
  evaluates : Evaluates schedule
  agree : ∀ x ∈ (fields schedule).zip fieldSpecs, parseField x.2 x.1 = expandCronField x.2 x.1
  due : cronRegex schedule = true → EverDue schedule

theorem evaluates_iff : Evaluates schedule ↔ WellFormed schedule :=
  and_congr_right fun _ => forall₂_congr fun _ _ => expandCronField_isSome_iff

theorem oneGrammar_of_wellFormed (h : WellFormed schedule)
    (hdue : cronRegex schedule = true → Dated schedule) : OneGrammar schedule where
  parses := parseCron_isSome_iff.mpr h
  evaluates := evaluates_iff.mpr h
  agree x hx := parseField_eq (bounds_of_fieldSpecs x.2 (List.of_mem_zip hx).2) x.1
  due hregex := (everDue_iff h).mpr (hdue hregex)

/-- Whatever the API takes is read alike and comes due, exactly when what the pattern takes is of
the grammar and names a day. -/
theorem one_grammar_iff (schedule : Text) : (apiAccepts schedule = true → OneGrammar schedule) ↔
      (cronRegex schedule = true → WellFormed schedule ∧ Dated schedule) := by
  rw [apiAccepts, Bool.or_eq_true]
  constructor
  · intro h hregex
    have hone := h (.inl hregex)
    have hwell := parseCron_isSome_iff.mp hone.parses
    exact ⟨hwell, (everDue_iff hwell).mp (hone.due hregex)⟩
  · rintro h (hregex | hvalid)
    · exact oneGrammar_of_wellFormed (h hregex).1 fun _ => (h hregex).2
    · exact oneGrammar_of_wellFormed (wellFormed_of_validate hvalid) fun hregex => (h hregex).2

/-- A minute that no hour has. -/
theorem late_minute_is_accepted :
    ¬ ∀ schedule : Text, apiAccepts schedule = true → OneGrammar schedule := by
  intro h
  have hone := h "99 * * * *".toList (by rfl)
  have hnone : (parseCron "99 * * * *".toList).isSome = false := by rfl
  rw [hone.parses] at hnone
  cases hnone

/-- The thirty-first of February never comes. -/
example : cronRegex "0 0 31 2 *".toList = true ∧ WellFormed "0 0 31 2 *".toList := by
  rw [← parseCron_isSome_iff]
  decide

end Insula.CronGrammar
