import Mathlib

/-!
# The bandwidth meter and the bandwidth cap

An hourly pass reads the transmitted bytes of every tenant namespace since the last recorded pass,
adds them to the month-to-date totals one tenant after the other, and records its own time last. The
threshold evaluation behind it raises the cap of a tenant whose total has reached its limit. Every
store call may throw; what was written by then stays.
-/

namespace Insula.Bandwidth

def minGapS : ℤ := 60

def maxGapS : ℤ := 2 * 3600

def defaultGapS : ℤ := 3600

def bytesPerGb : ℚ := 1000000000

abbrev Instant := ℤ

def msPerDay : ℤ := 86400000

/-- Year and month of a day of the proleptic Gregorian calendar, counted in days since the epoch. -/
def civilMonth (day : ℤ) : ℤ × ℤ :=
  let z := day + 719468
  let era := z / 146097
  let doe := z - era * 146097
  let yoe := (doe - doe / 1460 + doe / 36524 - doe / 146096) / 365
  let doy := doe - (365 * yoe + yoe / 4 - yoe / 100)
  let mp := (5 * doy + 2) / 153
  -- The computation counts years that begin in March.
  if mp < 10 then (yoe + era * 400, mp + 3) else (yoe + era * 400 + 1, mp - 9)

def firstDay (year month : ℤ) : ℤ :=
  let y := if month ≤ 2 then year - 1 else year
  let era := y / 400
  let yoe := y - era * 400
  let doy := (153 * (if month ≤ 2 then month + 9 else month - 3) + 2) / 5
  era * 146097 + (yoe * 365 + yoe / 4 - yoe / 100 + doy) - 719468

def utcMonth (t : Instant) : ℤ × ℤ := civilMonth (t / msPerDay)

def monthStartUtc (now : Instant) : Instant :=
  firstDay (utcMonth now).1 (utcMonth now).2 * msPerDay

example : monthStartUtc 1785000000000 = 1782864000000 := by decide

def isNewCycle (cycleStart : Option Instant) (now : Instant) : Bool :=
  match cycleStart with
  | none => true
  | some start => utcMonth start != utcMonth now

def bytesToGb (bytes : ℚ) : ℚ := bytes / bytesPerGb

/-- What the column of the month-to-date total keeps of a number: four decimals. -/
def numericScale4 (gb : ℚ) : ℚ := ⌊gb * 10000 + 1 / 2⌋ / 10000

/-! ## The limit -/

def defaultBandwidthGbLimit : ℤ := 100

def resolveBandwidthLimit (override planLimit : Option ℤ) : ℤ :=
  match override.filter (0 < ·), planLimit.filter (0 < ·) with
  | some limit, _ => limit
  | none, some limit => limit
  | none, none => defaultBandwidthGbLimit

theorem resolveBandwidthLimit_pos (override planLimit : Option ℤ) :
    0 < resolveBandwidthLimit override planLimit := by
  unfold resolveBandwidthLimit
  split
  · rename_i limit h
    simpa using (Option.filter_eq_some_iff.1 h).2
  · rename_i limit _ h
    simpa using (Option.filter_eq_some_iff.1 h).2
  · decide

def bandwidthThresholds : List ℕ := [80, 90, 100]

def bandwidthThreshold (usedGb : ℚ) (limitGb : ℤ) : Option ℕ :=
  if 0 < limitGb then
    bandwidthThresholds.foldl
      (fun (hit : Option ℕ) (t : ℕ) => if t ≤ usedGb / limitGb * 100 then some t else hit) none
  else none

/-! ## The tenants -/

/-- The part of the time line that one measurement covers, without its start. -/
structure Window where
  start : Instant
  stop : Instant
deriving DecidableEq

def Window.Apart (v w : Window) : Prop := v.stop ≤ w.start ∨ w.stop ≤ v.start

instance (v w : Window) : Decidable (v.Apart w) := inferInstanceAs (Decidable (_ ∨ _))

structure Billed where
  window : Window
  gb : ℚ

/-- A tenant's row, and what the row does not show: the state of the ingress, the windows that were
added in this billing month and before, and how often the flag has changed since the ingress was
last reconciled. -/
structure Account where
  id : String
  ns : String
  /-- The namespace is generated with the tenant. -/
  ns_ne : ns ≠ ""
  used : ℚ
  cycleStart : Option Instant
  capped : Bool
  cappedAt : Option Instant
  provisioned : Bool
  override : Option ℤ
  planLimit : Option ℤ
  suspended : Bool
  ingress : Bool
  missed : ℕ
  cycle : List Billed
  earlier : List Billed

/-- The rows, the recorded time of the last pass, and what the record does not show: up to when that
pass has measured. -/
structure World where
  accounts : List Account
  lastRun : Option Instant
  measuredTo : Option Instant

/-! ## What a pass measures -/

/-- The rows of one instant query: a namespace label and a value. -/
abbrev Samples := List (String × ℚ)

def byNamespaceFrom (rows : Samples) (ns : String) : Option ℚ :=
  if ns = "" then none else rows.reverse.lookup ns

structure Measured where
  servedOutRows : Samples
  servedInRows : Samples
  txRows : Samples
  rxRows : Samples
  platformBackup : Samples

def Measured.billableByNamespace (m : Measured) (ns : String) : Option ℚ :=
  let servedOut := byNamespaceFrom m.servedOutRows ns
  let tx := byNamespaceFrom m.txRows ns
  if servedOut.isSome || tx.isSome then
    let measured := max 0 (servedOut.getD 0)
    let txAdj := max 0 (tx.getD 0 - (byNamespaceFrom m.platformBackup ns).getD 0)
    let estimated := txAdj - (byNamespaceFrom m.rxRows ns).getD 0
      + (byNamespaceFrom m.servedInRows ns).getD 0
    some (min (max measured estimated) (max measured txAdj))
  else none

def Measured.deltaGb (m : Measured) (ns : String) : ℚ :=
  bytesToGb (max 0 ((m.billableByNamespace ns).getD 0))

/-- The lookback of the queries, in seconds; `Math.round` takes halves up. -/
def gapS (lastRun : Option Instant) (now : Instant) : ℤ :=
  match lastRun with
  | some mark => min maxGapS (max minGapS ((now - mark + 500) / 1000))
  | none => defaultGapS

theorem gapS_pos (lastRun : Option Instant) (now : Instant) : 0 < gapS lastRun now := by
  cases lastRun with
  | none => norm_num [gapS, defaultGapS]
  | some mark =>
    simp only [gapS, maxGapS, minGapS]
    omega

/-! ## Store calls that throw -/

/-- The store call that throws; a write may have landed before its call throws. -/
inductive Cut where
  | reading
  | update (id : String) (landed : Bool)
  | record (id : String)
  | mark (landed : Bool)
deriving DecidableEq

structure Pass where
  now : Instant
  firstQuery : Instant
  lastQuery : Instant
  queries_le : firstQuery ≤ lastQuery
  measured : Option Measured
  order : List Account → List Account
  order_perm : ∀ rows, (order rows).Perm rows
  cut : Option Cut
  reconcileFails : String → Bool

def measuredWindow (lastRun : Option Instant) (p : Pass) : Window :=
  ⟨p.firstQuery - gapS lastRun p.now * 1000, p.lastQuery⟩

theorem measuredWindow_start_le (lastRun : Option Instant) (p : Pass) :
    (measuredWindow lastRun p).start ≤ p.lastQuery := by
  have hgap := gapS_pos lastRun p.now
  have hqueries := p.queries_le
  change p.firstQuery - gapS lastRun p.now * 1000 ≤ p.lastQuery
  linarith

structure Evaluation where
  now : Instant
  order : List Account → List Account
  order_perm : ∀ rows, (order rows).Perm rows
  cut : Option Cut
  reconcileFails : String → Bool

/-- A loop over rows, each of whose iterations may throw. An update goes by the primary key, so an
iteration touches its own row only. -/
def sweep {α : Type*} (body : α → α × Bool) : List α → List α × Bool
  | [] => ([], false)
  | row :: rest =>
    match body row with
    | (row', true) => (row' :: rest, true)
    | (row', false) => (row' :: (sweep body rest).1, (sweep body rest).2)

section Sweep

variable {α : Type*} {body : α → α × Bool} {rows : List α}

theorem mem_sweep {row : α} (h : row ∈ (sweep body rows).1) :
    ∃ old ∈ rows, row = old ∨ row = (body old).1 := by
  induction rows with
  | nil => simp [sweep] at h
  | cons old rest ih =>
    cases hb : body old with
    | mk row' threw =>
      cases threw <;> simp only [sweep, hb, List.mem_cons] at h
      · obtain h | h := h
        · exact ⟨old, by simp, .inr (by simp [hb, h])⟩
        · obtain ⟨o, ho, hrow⟩ := ih h
          exact ⟨o, by simp [ho], hrow⟩
      · obtain h | h := h
        · exact ⟨old, by simp, .inr (by simp [hb, h])⟩
        · exact ⟨row, by simp [h], .inl rfl⟩

theorem sweep_completed (h : (sweep body rows).2 = false) :
    (sweep body rows).1 = rows.map fun row => (body row).1 := by
  induction rows with
  | nil => rfl
  | cons old rest ih =>
    cases hb : body old with
    | mk row' threw =>
      cases threw <;> simp only [sweep, hb, Bool.true_eq_false] at h
      simp [sweep, hb, ih h]

theorem sweep_threw (h : (sweep body rows).2 = true) :
    ∃ before row after, rows = before ++ row :: after ∧ (∀ u ∈ before, (body u).2 = false) ∧
      (body row).2 = true ∧
      (sweep body rows).1 = before.map (fun u => (body u).1) ++ (body row).1 :: after := by
  induction rows with
  | nil => simp [sweep] at h
  | cons old rest ih =>
    cases hb : body old with
    | mk row' threw =>
      cases threw with
      | true => exact ⟨[], old, rest, rfl, by simp, by simp [hb], by simp [sweep, hb]⟩
      | false =>
        simp only [sweep, hb] at h
        obtain ⟨before, row, after, hrest, hbefore, hrow, hout⟩ := ih h
        refine ⟨old :: before, row, after, by simp [hrest], ?_, hrow, by simp [sweep, hb, hout]⟩
        intro u hu
        obtain rfl | hu := List.mem_cons.1 hu
        · simp [hb]
        · exact hbefore u hu

end Sweep

namespace Account

def setCapped (a : Account) (flag : Bool) : Account :=
  { a with capped := flag, missed := if a.capped = flag then a.missed else a.missed + 1 }

def reconcileIngress (a : Account) : Account :=
  if a.suspended then a else { a with ingress := a.capped, missed := 0 }

def reconciled (a : Account) (fails : String → Bool) : Account :=
  if fails a.id then a else a.reconcileIngress

def charge (a : Account) (window : Window) (deltaGb : ℚ) (now : Instant) : Account :=
  if isNewCycle a.cycleStart now then
    { a.setCapped false with
      used := numericScale4 (0 + deltaGb)
      cycleStart := some (monthStartUtc now)
      cappedAt := none
      cycle := [⟨window, deltaGb⟩]
      earlier := a.cycle ++ a.earlier }
  else
    { a with
      used := numericScale4 (a.used + deltaGb)
      cycle := ⟨window, deltaGb⟩ :: a.cycle }

end Account

def meterRow (p : Pass) (m : Measured) (window : Window) (t : Account) : Account × Bool :=
  if t.provisioned then
    let charged := t.charge window (m.deltaGb t.ns) p.now
    if p.cut = some (.update t.id false) then (t, true)
    else if p.cut = some (.update t.id true) then (charged, true)
    else if 0 < m.deltaGb t.ns ∧ p.cut = some (.record t.id) then (charged, true)
    else if isNewCycle t.cycleStart p.now ∧ t.capped ∧ t.ns ≠ "" then
      (charged.reconciled p.reconcileFails, false)
    else (charged, false)
  else (t, false)

def meterBandwidthOnce (p : Pass) (w : World) : World × Option ℕ :=
  if p.cut = some .reading then (w, none)
  else
    match p.measured with
    -- A failed query is caught: nothing is added, and the mark stays.
    | none => (w, some 0)
    | some m =>
      match sweep (meterRow p m (measuredWindow w.lastRun p)) (p.order w.accounts) with
      | (rows, true) => ({ w with accounts := rows }, none)
      | (rows, false) =>
        if p.cut = some (.mark false) then ({ w with accounts := rows }, none)
        else if p.cut = some (.mark true) then (⟨rows, some p.now, some p.lastQuery⟩, none)
        else (⟨rows, some p.now, some p.lastQuery⟩, some (rows.countP (·.provisioned)))

def evaluateRow (e : Evaluation) (t : Account) : Account × Bool :=
  if t.provisioned then
    match bandwidthThreshold t.used (resolveBandwidthLimit t.override t.planLimit) with
    | none => (t, false)
    | some threshold =>
      if 100 ≤ threshold ∧ t.capped = false then
        let flagged := { t.setCapped true with cappedAt := some e.now }
        if e.cut = some (.update t.id false) then (t, true)
        else if e.cut = some (.update t.id true) then (flagged, true)
        else if t.ns ≠ "" then (flagged.reconciled e.reconcileFails, false)
        else (flagged, false)
      else (t, false)
  else (t, false)

def evaluateBandwidthThresholds (e : Evaluation) (w : World) : World :=
  if e.cut = some .reading then w
  else { w with accounts := (sweep (evaluateRow e) (e.order w.accounts)).1 }

def tick (p : Pass) (e : Evaluation) (w : World) : World :=
  match meterBandwidthOnce p w with
  | (w', none) => w'
  | (w', some _) => evaluateBandwidthThresholds e w'

/-! ## Runs -/

structure Settings where
  provisioned : Bool
  suspended : Bool
  override : Option ℤ
  planLimit : Option ℤ

def Account.enrolled (id ns : String) (ns_ne : ns ≠ "") (s : Settings) : Account where
  id := id
  ns := ns
  ns_ne := ns_ne
  used := 0
  cycleStart := none
  capped := false
  cappedAt := none
  provisioned := s.provisioned
  override := s.override
  planLimit := s.planLimit
  suspended := s.suspended
  ingress := false
  missed := 0
  cycle := []
  earlier := []

def Account.configured (s : Settings) (a : Account) : Account :=
  { a with
    provisioned := s.provisioned
    suspended := s.suspended
    override := s.override
    planLimit := s.planLimit }

inductive Event where
  | tick (p : Pass) (e : Evaluation)
  | enrol (id ns : String) (ns_ne : ns ≠ "") (s : Settings)
  | configure (id : String) (s : Settings)
  /-- Some other reconcile, as after a resume. -/
  | reconcile (id : String) (fails : String → Bool)
  | remove (id : String)

def World.step (w : World) : Event → World
  | .tick p e => tick p e w
  | .enrol id ns ns_ne s => { w with accounts := w.accounts ++ [.enrolled id ns ns_ne s] }
  | .configure id s =>
    { w with accounts := w.accounts.map fun a => if a.id = id then a.configured s else a }
  | .reconcile id fails =>
    { w with accounts := w.accounts.map fun a => if a.id = id then a.reconciled fails else a }
  | .remove id => { w with accounts := w.accounts.filter fun a => a.id ≠ id }

def World.fresh : World := ⟨[], none, none⟩

def World.run (w : World) (events : List Event) : World := events.foldl World.step w

end Insula.Bandwidth
