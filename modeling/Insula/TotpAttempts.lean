import Insula.TotpRuns
import Mathlib.Data.List.Nodup

/-!
# Codes are used once, and attempts are bounded

While nothing but proofs and new backup codes goes on, every accepted step is later than the one
before, and no backup code is accepted twice. Of the proofs at most `maxFailedAttempts` take an
attempt between two resets. A proof is looked at once, and after it has taken an attempt; but one
that took it before a reset may be looked at after it, so that more than `maxFailedAttempts` proofs
may be looked at between two resets.
-/

namespace Insula.Totp

open Program Concurrent Transition

def Kind.Verifies : Kind → Bool
  | verify _ _ => true
  | regenerate _ _ => true
  | _ => false

def Op.Plain : Op → Bool
  | upsertSecret _ => false
  | turnOn _ _ => false
  | deleteRow => false
  | _ => true

theorem plain_of_allowed {secretOf : String → Option Secret} {kind : Kind} {b : Stage} {o : Op}
    (hkind : kind.Verifies) (hallowed : b.Allowed secretOf kind o) : o.Plain := by
  cases o with
  | upsertSecret secretEncrypted =>
    cases hallowed
    cases hkind
  | turnOn step nowMs =>
    obtain ⟨row, code, -, rfl⟩ := hallowed
    cases hkind
  | deleteRow =>
    rcases hallowed with rfl | ⟨⟨proof, nowMs, rfl⟩, -⟩
    · cases hkind
    · cases hkind
  | _ => rfl

section Statements

variable {w m : World} {i : ℕ} {o : Op} {r : Ans o} {nowMs : ℤ}

/-! ## Steps -/

structure Claims (w : World) : Prop where
  increasing : w.acceptedSteps.Pairwise (· > ·)
  last : ∀ row ∈ w.row, ∀ step ∈ w.acceptedSteps, ∃ last ∈ row.lastUsedStep, step ≤ last

theorem Claims.of_same (h : Claims w) (hsteps : m.acceptedSteps = w.acceptedSteps)
    (hlast : m.row.map Row.lastUsedStep = w.row.map Row.lastUsedStep) : Claims m where
  increasing := by
    rw [hsteps]
    exact h.increasing
  last row hrow step hstep := by
    rw [hsteps] at hstep
    rw [hrow] at hlast
    obtain ⟨before, hbefore, heq⟩ := Option.map_eq_some_iff.mp hlast.symm
    rw [← heq]
    exact h.last before hbefore step hstep

theorem Claims.accept (h : Claims w) {step : ℤ} {row row' : Row} (hrow : w.row = some row)
    (hclaim : row.claimStep step = some row') :
    Claims { w.accept step with row := some row' } := by
  obtain ⟨hlater, hrow'⟩ := Option.ite_none_right_eq_some.mp hclaim
  cases hrow'
  have hbelow : ∀ before ∈ w.acceptedSteps, before < step := by
    intro before hbefore
    obtain ⟨last, hlast, hle⟩ := h.last row hrow before hbefore
    exact Int.lt_of_le_of_lt hle (hlater last hlast)
  constructor
  · exact List.pairwise_cons.mpr ⟨hbelow, h.increasing⟩
  · intro row' hrow' claimed hclaimed
    cases hrow'
    refine ⟨step, rfl, ?_⟩
    rcases List.mem_cons.mp hclaimed with rfl | hbefore
    · exact Int.le_refl _
    · exact Int.le_of_lt (hbelow claimed hbefore)

theorem take_acceptedSteps (nowMs : ℤ) : (w.take i nowMs).acceptedSteps = w.acceptedSteps := by
  unfold World.take
  split <;> rfl

theorem Claims.respond (h : Claims w) (hplain : o.Plain) (hm : w.respond i o r = some m) :
    Claims m := by
  cases o with
  | loadRow | insertBackupCodes _ | burnBackupCode _ _ =>
    obtain ⟨-, hm⟩ := Option.ite_none_right_eq_some.mp hm
    cases hm
    exact h.of_same rfl rfl
  | reserveAttempt nowMs =>
    rcases update_eq_some hm with ⟨row, row', -, hrow, hrow', rfl⟩ | ⟨-, rfl⟩
    · obtain ⟨-, hrow'⟩ := Option.ite_none_right_eq_some.mp hrow'
      cases hrow'
      apply h.of_same
      · exact take_acceptedSteps nowMs
      · rw [hrow]
        rfl
    · exact h
  | claimStep step nowMs =>
    rcases update_eq_some hm with ⟨row, row', -, hrow, hrow', rfl⟩ | ⟨-, rfl⟩
    · exact h.accept hrow hrow'
    · exact h
  | clearAttempts nowMs =>
    cases hm
    exact h.of_same rfl (Option.map_map ..)
  | upsertSecret _ | turnOn _ _ | deleteRow => cases hplain
  | matchTotp _ _ _ | deleteBackupCodes | newSecret | newBackupCode | randomUUID =>
    cases hm
    exact h.of_same rfl rfl

/-! ## Backup codes -/

/-- A backup code that was accepted is marked as used for as long as it is stored. -/
structure Burnt (w : World) : Prop where
  ids : (w.codes.map BackupCode.id).Nodup
  once : w.acceptedCodes.Nodup
  used : ∀ c ∈ w.codes, c.id ∈ w.acceptedCodes → c.usedAt ≠ none

theorem Burnt.of_same (h : Burnt w) (hcodes : m.codes = w.codes)
    (haccepted : m.acceptedCodes = w.acceptedCodes) : Burnt m := by
  constructor
  · rw [hcodes]
    exact h.ids
  · rw [haccepted]
    exact h.once
  · rw [hcodes, haccepted]
    exact h.used

@[simp] theorem burn_id (codeHash : String) (nowMs : ℤ) (c : BackupCode) :
    (c.burn codeHash nowMs).id = c.id := by
  unfold BackupCode.burn
  split <;> rfl

theorem burn_usedAt {codeHash : String} {c : BackupCode} (h : c.usedAt ≠ none) :
    (c.burn codeHash nowMs).usedAt ≠ none := by
  unfold BackupCode.burn
  split
  · exact Option.some_ne_none _
  · exact h

theorem burn_usedAt_of_fits {codeHash : String} {c : BackupCode} (h : c.fits codeHash) :
    (c.burn codeHash nowMs).usedAt ≠ none := by
  unfold BackupCode.burn
  rw [if_pos h]
  exact Option.some_ne_none _

theorem Burnt.burn (h : Burnt w) (codeHash : String) (nowMs : ℤ) :
    Burnt (w.burn i codeHash nowMs) := by
  have hids : (w.burn i codeHash nowMs).codes.map BackupCode.id = w.codes.map BackupCode.id := by
    simp [World.burn, Function.comp_def]
  have hold : ∀ c ∈ w.codes, c.id ∈ w.acceptedCodes → (c.burn codeHash nowMs).usedAt ≠ none :=
    fun c hc haccepted => burn_usedAt (h.used c hc haccepted)
  -- The one code that fits was not used, hence not accepted before.
  by_cases hone : ∃ c, w.codes.filter (BackupCode.fits codeHash) = [c]
  · obtain ⟨c, hc⟩ := hone
    have haccepted : (w.burn i codeHash nowMs).acceptedCodes = c.id :: w.acceptedCodes := by
      simp only [World.burn, hc]
    obtain ⟨hmem, hfits⟩ := List.mem_filter.mp (hc ▸ List.mem_singleton_self c)
    have hunused : c.usedAt = none := by
      simp only [BackupCode.fits, decide_eq_true_eq] at hfits
      exact hfits.2
    constructor
    · rw [hids]
      exact h.ids
    · rw [haccepted]
      exact List.nodup_cons.mpr ⟨fun hin => h.used c hmem hin hunused, h.once⟩
    · intro burnt hburnt hin
      obtain ⟨c', hc', rfl⟩ := List.mem_map.mp hburnt
      rw [haccepted, burn_id] at hin
      rcases List.mem_cons.mp hin with heq | hin
      · have hsame : c' = c := List.inj_on_of_nodup_map h.ids hc' hmem heq
        rw [hsame]
        exact burn_usedAt_of_fits hfits
      · exact hold c' hc' hin
  · have haccepted : (w.burn i codeHash nowMs).acceptedCodes = w.acceptedCodes := by
      simp only [World.burn]
      split
      · rename_i c hc
        exact absurd ⟨c, hc⟩ hone
      · rfl
    constructor
    · rw [hids]
      exact h.ids
    · rw [haccepted]
      exact h.once
    · intro burnt hburnt hin
      obtain ⟨c', hc', rfl⟩ := List.mem_map.mp hburnt
      rw [haccepted, burn_id] at hin
      exact hold c' hc' hin

theorem Burnt.insert (h : Burnt w) {codes : List BackupCode} (hfresh : w.Unused codes) :
    Burnt { w with codes := w.codes ++ codes } where
  ids := hfresh.1
  once := h.once
  used c hc haccepted := by
    rcases List.mem_append.mp hc with hold | hnew
    · exact h.used c hold haccepted
    · exact absurd haccepted (hfresh.2 c hnew)

theorem take_codes (nowMs : ℤ) : (w.take i nowMs).codes = w.codes ∧
    (w.take i nowMs).acceptedCodes = w.acceptedCodes := by
  unfold World.take
  split <;> exact ⟨rfl, rfl⟩

theorem Burnt.respond (h : Burnt w) (hm : w.respond i o r = some m) : Burnt m := by
  cases o with
  | loadRow | deleteRow =>
    obtain ⟨-, hm⟩ := Option.ite_none_right_eq_some.mp hm
    cases hm
    exact h.of_same rfl rfl
  | insertBackupCodes codes =>
    obtain ⟨hfresh, hm⟩ := Option.ite_none_right_eq_some.mp hm
    cases hm
    exact h.insert hfresh
  | burnBackupCode codeHash nowMs =>
    obtain ⟨-, hm⟩ := Option.ite_none_right_eq_some.mp hm
    cases hm
    exact h.burn codeHash nowMs
  | reserveAttempt nowMs =>
    rcases update_eq_some hm with ⟨row, row', -, -, -, rfl⟩ | ⟨-, rfl⟩
    · apply h.of_same
      · exact (take_codes nowMs).1
      · exact (take_codes nowMs).2
    · exact h
  | claimStep _ _ | turnOn _ _ =>
    rcases update_eq_some hm with ⟨row, row', -, -, -, rfl⟩ | ⟨-, rfl⟩
    · exact h.of_same rfl rfl
    · exact h
  | deleteBackupCodes =>
    cases hm
    exact ⟨List.nodup_nil, h.once, fun c hc => by cases hc⟩
  | upsertSecret _ | matchTotp _ _ _ | clearAttempts _ | newSecret | newBackupCode | randomUUID =>
    cases hm
    exact h.of_same rfl rfl

/-! ## Attempts -/

/-- No more attempts were taken since the last reset than the row has counted, and the allowance
has. -/
structure Bounded (w : World) : Prop where
  counted : ∀ row ∈ w.row, w.taken.length ≤ row.failedAttempts ∧
    (row.failedWindowStartedAt = none → w.taken = [])
  bound : w.taken.length ≤ maxFailedAttempts

theorem Bounded.of_same (h : Bounded w) (hrow : m.row = w.row) (htaken : m.taken = w.taken) :
    Bounded m := by
  constructor
  · rw [hrow, htaken]
    exact h.counted
  · rw [htaken]
    exact h.bound

/-- The counter and the list are cleared together. -/
theorem Bounded.of_reset (htaken : m.taken = []) : Bounded m := by
  constructor
  · intro row _
    rw [htaken]
    exact ⟨Nat.zero_le _, fun _ => rfl⟩
  · rw [htaken]
    exact Nat.zero_le _

theorem Bounded.take (h : Bounded w) {row row' : Row} (hrow : w.row = some row)
    (hreserve : row.reserveAttempt nowMs = some row') :
    Bounded { w.take i nowMs with row := some row' } := by
  obtain ⟨hallowed, hrow'⟩ := Option.ite_none_right_eq_some.mp hreserve
  cases hrow'
  obtain ⟨hcount, hclear⟩ := h.counted row hrow
  by_cases hover : row.windowOver nowMs = true
  · -- The window begins with this attempt, after a reset or as one.
    have htaken : (w.take i nowMs).taken = [i] := by
      unfold World.take
      split
      · rfl
      · rename_i hexpired
        rw [hrow, Option.any_some] at hexpired
        have hnone : row.failedWindowStartedAt = none := by
          simpa [Row.windowOver, hexpired] using hover
        exact congrArg (List.cons i) (hclear hnone)
    constructor
    · intro row' hrow'
      cases hrow'
      simp [htaken, hover]
    · simp [htaken, maxFailedAttempts]
  · have hlt : row.failedAttempts < maxFailedAttempts := hallowed.resolve_left hover
    have htaken : (w.take i nowMs).taken = i :: w.taken := by
      unfold World.take
      split
      · rename_i hexpired
        rw [hrow, Option.any_some] at hexpired
        exact absurd (by simp [Row.windowOver, hexpired]) hover
      · rfl
    have hstarted : row.failedWindowStartedAt ≠ none := by
      intro hnone
      exact hover (by simp [Row.windowOver, hnone])
    constructor
    · intro row' hrow'
      cases hrow'
      simp only [htaken, hover, List.length_cons]
      exact ⟨Nat.succ_le_succ hcount, fun hnone => absurd hnone hstarted⟩
    · simp only [htaken, List.length_cons]
      omega

theorem Bounded.respond (h : Bounded w) (hplain : o.Plain) (hm : w.respond i o r = some m) :
    Bounded m := by
  cases o with
  | loadRow | insertBackupCodes _ | burnBackupCode _ _ =>
    obtain ⟨-, hm⟩ := Option.ite_none_right_eq_some.mp hm
    cases hm
    exact h.of_same rfl rfl
  | reserveAttempt nowMs =>
    rcases update_eq_some hm with ⟨row, row', -, hrow, hrow', rfl⟩ | ⟨-, rfl⟩
    · exact h.take hrow hrow'
    · exact h
  | claimStep step nowMs =>
    rcases update_eq_some hm with ⟨row, row', -, -, -, rfl⟩ | ⟨-, rfl⟩
    · exact Bounded.of_reset rfl
    · exact h
  | clearAttempts nowMs =>
    cases hm
    exact Bounded.of_reset rfl
  | upsertSecret _ | turnOn _ _ | deleteRow => cases hplain
  | matchTotp _ _ _ | deleteBackupCodes | newSecret | newBackupCode | randomUUID =>
    cases hm
    exact h.of_same rfl rfl

end Statements

/-! ## Proofs that are looked at -/

namespace Stage

def Early : Stage → Bool
  | idle => true
  | loaded _ => true
  | _ => false

def Holding : Stage → Bool
  | reserved _ => true
  | _ => false

end Stage

/-- A proof is looked at once, with an attempt that was taken since the last reset or was waiting
then. -/
structure LookedAt (taken evaluated waiting : List ℕ) (stage : ℕ → Stage) : Prop where
  once : evaluated.Nodup
  among : ∀ i ∈ evaluated, i ∈ taken ++ waiting
  holding : ∀ i, (stage i).Holding → i ∈ taken ++ waiting ∧ i ∉ evaluated
  early : ∀ i, (stage i).Early → i ∉ evaluated

section LookedAt

variable {taken evaluated waiting : List ℕ} {stage : ℕ → Stage} {i : ℕ} {b : Stage}

theorem LookedAt.reset (h : LookedAt taken evaluated waiting stage) :
    LookedAt [] [] ((taken ++ waiting).filter fun i => i ∉ evaluated) stage where
  once := List.nodup_nil
  among i hi := by cases hi
  holding i hi := by
    obtain ⟨hmem, hnot⟩ := h.holding i hi
    exact ⟨List.mem_filter.mpr ⟨hmem, decide_eq_true hnot⟩, List.not_mem_nil⟩
  early i _ := List.not_mem_nil

theorem LookedAt.move (h : LookedAt taken evaluated waiting stage)
    (hholding : b.Holding → (stage i).Holding) (hearly : b.Early → (stage i).Early) :
    LookedAt taken evaluated waiting (Function.update stage i b) where
  once := h.once
  among := h.among
  holding j hj := by
    by_cases hji : j = i
    · subst hji
      rw [Function.update_self] at hj
      exact h.holding j (hholding hj)
    · rw [Function.update_of_ne hji] at hj
      exact h.holding j hj
  early j hj := by
    by_cases hji : j = i
    · subst hji
      rw [Function.update_self] at hj
      exact h.early j (hearly hj)
    · rw [Function.update_of_ne hji] at hj
      exact h.early j hj

theorem LookedAt.take (h : LookedAt taken evaluated waiting stage) (hi : (stage i).Early)
    (row : Row) :
    LookedAt (i :: taken) evaluated waiting (Function.update stage i (.reserved row)) where
  once := h.once
  among j hj := List.mem_cons_of_mem i (h.among j hj)
  holding j hj := by
    by_cases hji : j = i
    · subst hji
      exact ⟨List.mem_cons_self, h.early j hi⟩
    · rw [Function.update_of_ne hji] at hj
      exact ⟨List.mem_cons_of_mem i (h.holding j hj).1, (h.holding j hj).2⟩
  early j hj := by
    by_cases hji : j = i
    · subst hji
      rw [Function.update_self] at hj
      cases hj
    · rw [Function.update_of_ne hji] at hj
      exact h.early j hj

theorem LookedAt.evaluate (h : LookedAt taken evaluated waiting stage) (hi : (stage i).Holding)
    (hholding : b.Holding = false) (hearly : b.Early = false) :
    LookedAt taken (i :: evaluated) waiting (Function.update stage i b) where
  once := List.nodup_cons.mpr ⟨(h.holding i hi).2, h.once⟩
  among j hj := by
    rcases List.mem_cons.mp hj with rfl | hj
    · exact (h.holding j hi).1
    · exact h.among j hj
  holding j hj := by
    by_cases hji : j = i
    · subst hji
      rw [Function.update_self, hholding] at hj
      cases hj
    · rw [Function.update_of_ne hji] at hj
      exact ⟨(h.holding j hj).1, List.not_mem_cons_of_ne_of_not_mem hji (h.holding j hj).2⟩
  early j hj := by
    by_cases hji : j = i
    · subst hji
      rw [Function.update_self, hearly] at hj
      cases hj
    · rw [Function.update_of_ne hji] at hj
      exact List.not_mem_cons_of_ne_of_not_mem hji (h.early j hj)

end LookedAt

section Runs

variable {hotp : Secret → ℤ → String} {secretOf : String → Option Secret}
  {hashBackupCode : String → String}

theorem lookedAt_take {w : World} {i : ℕ} (nowMs : ℤ) (row : Row)
    (h : LookedAt w.taken w.evaluated w.waiting w.stage) (hi : (w.stage i).Early) :
    LookedAt (w.take i nowMs).taken (w.take i nowMs).evaluated (w.take i nowMs).waiting
      (Function.update w.stage i (.reserved row)) := by
  unfold World.take
  split
  · exact h.reset.take hi row
  · exact h.take hi row

theorem lookedAt_respond {w m : World} {i : ℕ} {kind : Kind} {o : Op} {r : Ans o} {b : Stage}
    (h : LookedAt w.taken w.evaluated w.waiting w.stage)
    (hallowed : (w.stage i).Allowed secretOf kind o) (hm : w.respond i o r = some m)
    (hb : (w.stage i).next hotp o r = some b) :
    LookedAt m.taken m.evaluated m.waiting (Function.update w.stage i b) := by
  cases o with
  | loadRow =>
    obtain ⟨-, hm⟩ := Option.ite_none_right_eq_some.mp hm
    cases hm
    rcases hallowed with hidle | ⟨row, hloaded⟩
    · rw [hidle] at hb
      cases hb
      exact h.move (fun hb => by cases hb) (fun _ => by rw [hidle]; rfl)
    · rw [hloaded] at hb
      cases hb
      exact h.move (fun hb => by cases hb) (fun _ => by rw [hloaded]; rfl)
  | reserveAttempt nowMs =>
    obtain ⟨row, hloaded⟩ := hallowed
    have hearly : (w.stage i).Early := by
      rw [hloaded]
      rfl
    rw [hloaded] at hb
    rcases update_eq_some hm with ⟨before, after, rfl, -, -, rfl⟩ | ⟨rfl, rfl⟩
    · cases hb
      exact lookedAt_take nowMs row h hearly
    · cases hb
      exact h.move (fun hb => by cases hb) (fun _ => hearly)
  | matchTotp secret code nowMs =>
    cases hm
    obtain ⟨row, hreserved, -⟩ := hallowed
    have hholding : (w.stage i).Holding := by
      rw [hreserved]
      rfl
    rw [hreserved] at hb
    obtain ⟨-, hb⟩ := Option.ite_none_right_eq_some.mp hb
    cases r with
    | none =>
      cases hb
      exact h.evaluate hholding rfl rfl
    | some step =>
      cases hb
      exact h.evaluate hholding rfl rfl
  | burnBackupCode codeHash nowMs =>
    obtain ⟨-, hm⟩ := Option.ite_none_right_eq_some.mp hm
    cases hm
    obtain ⟨row, hreserved⟩ := hallowed
    have hholding : (w.stage i).Holding := by
      rw [hreserved]
      rfl
    have hstage := Option.some.inj hb
    split at hstage
    · subst hstage
      exact h.evaluate hholding rfl rfl
    · subst hstage
      exact h.evaluate hholding rfl rfl
  | claimStep step nowMs =>
    rcases update_eq_some hm with ⟨before, after, rfl, -, -, rfl⟩ | ⟨rfl, rfl⟩
    · cases hb
      exact h.reset.move (fun hb => by cases hb) (fun hb => by cases hb)
    · cases hb
      exact h.move (fun hb => by cases hb) (fun hb => by cases hb)
  | clearAttempts nowMs =>
    cases hm
    cases hb
    exact h.reset.move id id
  | turnOn step nowMs =>
    cases hb
    rcases update_eq_some hm with ⟨before, after, -, -, -, rfl⟩ | ⟨-, rfl⟩
    · exact h.move (fun hb => by cases hb) (fun hb => by cases hb)
    · exact h.move (fun hb => by cases hb) (fun hb => by cases hb)
  | deleteRow | insertBackupCodes _ =>
    obtain ⟨-, hm⟩ := Option.ite_none_right_eq_some.mp hm
    cases hm
    cases hb
    exact h.move id id
  | upsertSecret _ | deleteBackupCodes | newSecret | newBackupCode | randomUUID =>
    cases hm
    cases hb
    exact h.move id id

/-! ## Runs -/

variable {s t : Calls} {e : Happening}

/-- What holds in every state of an enrolment. -/
structure Enrolled (s : Calls) : Prop where
  kinds : ∀ kind ∈ s.procs.map Process.kind, kind.Verifies
  claims : Claims s.world
  burnt : Burnt s.world
  bounded : Bounded s.world
  lookedAt : LookedAt s.world.taken s.world.evaluated s.world.waiting s.world.stage

def OneEnrolment (_ : Calls) (e : Happening) (_ : Calls) : Prop :=
  ∀ kind, e = .spawn kind → kind.Verifies

theorem enrolled_step (h : OnTrack hotp secretOf s ∧ Enrolled s)
    (hs : step hotp secretOf hashBackupCode s e = some t) (hok : OneEnrolment s e t) :
    OnTrack hotp secretOf t ∧ Enrolled t := by
  refine ⟨onTrack_step h.1 hs, ?_⟩
  obtain ⟨htrack, hkinds, hclaims, hburnt, hbounded, hlookedAt⟩ := h
  have hkinds' : ∀ kind ∈ t.procs.map Process.kind, kind.Verifies := by
    intro kind hkind
    rcases kinds_step _ _ hs with ⟨spawned, rfl, heq⟩ | heq
    · rw [heq] at hkind
      rcases List.mem_append.mp hkind with hold | hnew
      · exact hkinds kind hold
      · rw [List.mem_singleton.mp hnew]
        exact hok spawned rfl
    · rw [heq] at hkind
      exact hkinds kind hkind
  rcases world_step htrack hs with hw |
    ⟨i, o, r, kind, next, m, b, rfl, hi, hallowed, hm, hb, hw⟩
  · refine ⟨hkinds', ?_, ?_, ?_, ?_⟩
    · rw [hw]
      exact hclaims
    · rw [hw]
      exact hburnt
    · rw [hw]
      exact hbounded
    · rw [hw]
      exact hlookedAt
  · have hverifies := hkinds kind (List.mem_map.mpr ⟨_, List.mem_of_getElem? hi, rfl⟩)
    have hplain := plain_of_allowed hverifies hallowed
    refine ⟨hkinds', ?_, ?_, ?_, ?_⟩
    · rw [hw]
      exact (hclaims.respond hplain hm).of_same rfl rfl
    · rw [hw]
      exact (hburnt.respond hm).of_same rfl rfl
    · rw [hw]
      exact (hbounded.respond hplain hm).of_same rfl rfl
    · have hafter := lookedAt_respond hlookedAt hallowed hm hb
      rw [hw]
      exact hafter

/-- An enrolment before its first call; the row and the backup codes are any. -/
structure Opening (s : Calls) : Prop where
  procs : s.procs = []
  stage : ∀ i, s.world.stage i = .idle
  ids : (s.world.codes.map BackupCode.id).Nodup
  acceptedSteps : s.world.acceptedSteps = []
  acceptedCodes : s.world.acceptedCodes = []
  taken : s.world.taken = []
  evaluated : s.world.evaluated = []
  waiting : s.world.waiting = []

theorem Opening.enrolled (h : Opening s) : OnTrack hotp secretOf s ∧ Enrolled s := by
  refine ⟨holds_of_start h.procs h.stage, ?_, ?_, ?_, Bounded.of_reset h.taken, ?_⟩
  · simp [h.procs]
  · constructor
    · simp [h.acceptedSteps]
    · simp [h.acceptedSteps]
  · refine ⟨h.ids, ?_, ?_⟩
    · simp [h.acceptedCodes]
    · simp [h.acceptedCodes]
  · constructor
    · simp [h.evaluated]
    · simp [h.evaluated]
    · intro i hi
      rw [h.stage i] at hi
      cases hi
    · simp [h.evaluated]

/-- Any number of proofs and of new sets of backup codes, interleaved in any way and with any
clocks: the accepted steps increase, no backup code is accepted twice, at most `maxFailedAttempts`
attempts are taken between two resets, and a proof is looked at once and with an attempt. -/
theorem used_once_and_bounded (hstart : Opening s) {es : List Happening}
    (hcalls : ∀ kind, Event.spawn kind ∈ es → kind.Verifies)
    (h : exec (step hotp secretOf hashBackupCode) s es = some t) :
    t.world.acceptedSteps.Pairwise (· > ·) ∧ t.world.acceptedCodes.Nodup ∧
      t.world.taken.length ≤ maxFailedAttempts ∧ t.world.evaluated.Nodup ∧
      ∀ i ∈ t.world.evaluated, i ∈ t.world.taken ∨ i ∈ t.world.waiting := by
  have hok : Along (step hotp secretOf hashBackupCode) OneEnrolment s es := by
    apply along_of_forall
    rintro e he s t kind rfl
    exact hcalls kind he
  have hend : OnTrack hotp secretOf t ∧ Enrolled t :=
    exec_invariant_along _ (fun _ _ _ hs hstep hok => enrolled_step hs hstep hok) hstart.enrolled
      hok h
  have hlookedAt := hend.2.lookedAt
  exact ⟨hend.2.claims.increasing, hend.2.burnt.once, hend.2.bounded.bound, hlookedAt.once,
    fun i hi => List.mem_append.mp (hlookedAt.among i hi)⟩

end Runs

/-! ## A reset among reserved attempts -/

def enabledRow : Row where
  secretEncrypted := "enc-1"
  enabledAt := some 0
  lastUsedStep := none
  failedAttempts := 0
  failedWindowStartedAt := none

def enrolment : Calls where
  world :=
    { row := some enabledRow, codes := [⟨"bkp-1", "right", none⟩], acceptedSteps := []
      acceptedCodes := [], taken := [], evaluated := [], waiting := [], stage := fun _ => .idle }
  procs := []

theorem enrolment_opening : Opening enrolment where
  procs := rfl
  stage _ := rfl
  ids := by decide
  acceptedSteps := rfl
  acceptedCodes := rfl
  taken := rfl
  evaluated := rfl
  waiting := rfl

abbrev stepPlain : Calls → Happening → Option Calls := step (fun _ _ => "") (fun _ => none) id

def verifies (code : String) (nowMs : ℤ) : Happening := .spawn (.verify (.backupCode code) nowMs)

def reserves (i : ℕ) : Happening := .act i (.reserveAttempt 0) true

def guesses (i : ℕ) : Happening := .act i (.burnBackupCode "wrong" 0) (0 : ℕ)

def guessesPastReset : List Happening :=
  [verifies "right" 0] ++ List.replicate 19 (verifies "wrong" 0) ++ [verifies "wrong" 1000000] ++
    (List.range 21).map (fun i => .act i .loadRow (some enabledRow)) ++
    (List.range 10).map reserves ++
    [.act 0 (.burnBackupCode "right" 0) (1 : ℕ), .act 0 (.clearAttempts 0) ()] ++
    (List.range' 1 9).map guesses ++ (List.range' 10 10).map reserves ++
    (List.range' 10 10).map guesses

theorem guessesPastReset_verifies (kind : Kind) (hkind : Event.spawn kind ∈ guessesPastReset) :
    kind.Verifies := by
  simp only [guessesPastReset, verifies, reserves, guesses, List.mem_append, List.mem_cons,
    List.not_mem_nil, List.mem_replicate, List.mem_map, Event.spawn.injEq, reduceCtorEq, and_false,
    exists_false, or_false, ne_eq, OfNat.ofNat_ne_zero, not_false_eq_true, true_and] at hkind
  rcases hkind with (rfl | rfl) | rfl
  · rfl
  · rfl
  · rfl

theorem more_than_max_evaluated :
    ¬ ∀ (s t u : Calls) (es : List Happening) (i : ℕ) (nowMs : ℤ), Opening s →
      (∀ kind, Event.spawn kind ∈ es → kind.Verifies) → exec stepPlain s es = some t →
      stepPlain t (.act i (.reserveAttempt nowMs) true) = some u →
      t.world.row.any (Row.expired · nowMs) → t.world.evaluated.length ≤ maxFailedAttempts := by
  intro hall
  have hrun : ∃ t u, exec stepPlain enrolment guessesPastReset = some t ∧
      stepPlain t (.act 20 (.reserveAttempt 1000000) true) = some u ∧
      t.world.row.any (Row.expired · 1000000) = true ∧ t.world.evaluated.length = 19 :=
    ⟨_, _, rfl, rfl, rfl, rfl⟩
  obtain ⟨t, u, ht, hu, hexpired, hlength⟩ := hrun
  have hle := hall enrolment t u guessesPastReset 20 1000000 enrolment_opening
    guessesPastReset_verifies ht hu hexpired
  rw [hlength] at hle
  exact absurd hle (by decide)

theorem used_once_and_bounded_past_reset :
    ∃ t, exec stepPlain enrolment guessesPastReset = some t ∧ t.world.acceptedCodes = ["bkp-1"] ∧
      t.world.taken.length = 10 ∧ t.world.taken.length ≤ maxFailedAttempts ∧
      ∀ i ∈ t.world.evaluated, i ∈ t.world.taken ∨ i ∈ t.world.waiting := by
  have hrun : ∃ t, exec stepPlain enrolment guessesPastReset = some t ∧
      t.world.acceptedCodes = ["bkp-1"] ∧ t.world.taken.length = 10 := ⟨_, rfl, rfl, rfl⟩
  obtain ⟨t, ht, haccepted, htaken⟩ := hrun
  obtain ⟨-, -, hbound, -, hamong⟩ := used_once_and_bounded enrolment_opening
    guessesPastReset_verifies ht
  exact ⟨t, ht, haccepted, htaken, hbound, hamong⟩

end Insula.Totp
