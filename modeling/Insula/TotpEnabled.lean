import Insula.TotpRuns

/-!
# The factor is on for a proven secret, and stays on

A setup reads that the factor is not on, and writes its secret later whatever the row is then: it
turns off a factor that was turned on in between. An enabling call compares its code with the secret
that it read, and turns the row on later whatever its secret is then. Where neither happens, the
secret of a factor that is on was proven by the code of an enabling call, and only a disabling call
whose proof was accepted, or an administrator, turns it off.
-/

namespace Insula.Totp

open Program Concurrent Transition

section Proven

variable (hotp : Secret → ℤ → String) (secretOf : String → Option Secret)

def Matches (secretEncrypted code : String) (nowMs : ℤ) : Prop :=
  ∃ secret ∈ secretOf secretEncrypted, ∃ step, matchTotp hotp secret code nowMs = some step

def Proven (s : Calls) (secretEncrypted : String) : Prop :=
  ∃ code nowMs, Kind.enable code nowMs ∈ s.procs.map Process.kind ∧
    Matches hotp secretOf secretEncrypted code nowMs

end Proven

def Row.On (row : Row) : Prop := row.enabledAt ≠ none

instance (row : Row) : Decidable row.On := inferInstanceAs (Decidable (_ ≠ _))

def World.On (w : World) : Prop := ∃ row ∈ w.row, row.On

def TurnsOff (s : Calls) (e : Happening) : Prop :=
  ∃ i r p, e = .act i .deleteRow r ∧ s.procs[i]? = some p ∧
    (p.kind = .clear ∨ (∃ proof nowMs, p.kind = .disable proof nowMs) ∧ s.world.stage i = .accepted)

/-- A setup writes its secret while the factor is not on; an enabling call turns on the secret that
its code was compared with. -/
def Undisturbed (s : Calls) (e : Happening) (_ : Calls) : Prop :=
  match e with
  | .act _ (.upsertSecret _) _ => ∀ row ∈ s.world.row, ¬ row.On
  | .act i (.turnOn _ _) _ => ∀ row ∈ s.world.row, ¬ row.On →
      match s.world.stage i with
      | .matched read _ _ _ => row.secretEncrypted = read.secretEncrypted
      | _ => True
  | _ => True

instance (s : Calls) (e : Happening) (t : Calls) : Decidable (Undisturbed s e t) := by
  unfold Undisturbed
  split
  · infer_instance
  · split <;> infer_instance
  · infer_instance

/-! ## What a statement does to the secret -/

section Statements

variable {w m : World} {i : ℕ} {o : Op} {r : Ans o} {row row' : Row}

def Row.factor (row : Row) : String × Option ℤ := (row.secretEncrypted, row.enabledAt)

theorem reserveAttempt_factor {nowMs : ℤ} (h : row.reserveAttempt nowMs = some row') :
    row'.factor = row.factor := by
  obtain ⟨-, hrow'⟩ := Option.ite_none_right_eq_some.mp h
  cases hrow'
  rfl

theorem claimStep_factor {step : ℤ} (h : row.claimStep step = some row') :
    row'.factor = row.factor := by
  obtain ⟨-, hrow'⟩ := Option.ite_none_right_eq_some.mp h
  cases hrow'
  rfl

theorem turnOn_factor {step nowMs : ℤ} (h : row.turnOn step nowMs = some row') :
    ¬ row.On ∧ row'.factor = (row.secretEncrypted, some nowMs) := by
  obtain ⟨hoff, hrow'⟩ := Option.ite_none_right_eq_some.mp h
  cases hrow'
  exact ⟨fun hon => hon hoff, rfl⟩

/-- A setup, a turning on and a deletion apart, a statement leaves the secret and when it was turned
on. -/
theorem respond_factor (hm : w.respond i o r = some m) :
    m.row.map Row.factor = w.row.map Row.factor ∨
    (∃ secretEncrypted, o = .upsertSecret secretEncrypted ∧
      m.row = some (Row.pending secretEncrypted)) ∨
    (∃ step nowMs row row', o = .turnOn step nowMs ∧ w.row = some row ∧ ¬ row.On ∧
      m.row = some row' ∧ row'.secretEncrypted = row.secretEncrypted) ∨
    (o = .deleteRow ∧ m.row = none) := by
  have hupdate : ∀ {f : Row → Option Row} {noted : World} {changed : Bool},
      (∀ row row', f row = some row' → row'.factor = row.factor) →
      w.update f noted changed = some m → m.row.map Row.factor = w.row.map Row.factor := by
    intro f noted changed hf hm
    rcases update_eq_some hm with ⟨row, row', -, hrow, hrow', rfl⟩ | ⟨-, rfl⟩
    · rw [hrow]
      exact congrArg some (hf row row' hrow')
    · rfl
  cases o with
  | loadRow =>
    obtain ⟨-, hm⟩ := Option.ite_none_right_eq_some.mp hm
    cases hm
    exact .inl rfl
  | upsertSecret secretEncrypted =>
    cases hm
    exact .inr (.inl ⟨secretEncrypted, rfl, rfl⟩)
  | reserveAttempt nowMs => exact .inl (hupdate (fun _ _ => reserveAttempt_factor) hm)
  | claimStep step nowMs => exact .inl (hupdate (fun _ _ => claimStep_factor) hm)
  | clearAttempts nowMs =>
    cases hm
    exact .inl (Option.map_map ..)
  | turnOn step nowMs =>
    rcases update_eq_some hm with ⟨row, row', -, hrow, hrow', rfl⟩ | ⟨-, rfl⟩
    · obtain ⟨hoff, hfactor⟩ := turnOn_factor hrow'
      exact .inr (.inr (.inl ⟨step, nowMs, row, row', rfl, hrow, hoff, rfl,
        congrArg Prod.fst hfactor⟩))
    · exact .inl rfl
  | burnBackupCode codeHash nowMs =>
    obtain ⟨-, hm⟩ := Option.ite_none_right_eq_some.mp hm
    cases hm
    exact .inl rfl
  | insertBackupCodes codes =>
    obtain ⟨-, hm⟩ := Option.ite_none_right_eq_some.mp hm
    cases hm
    exact .inl rfl
  | deleteRow =>
    obtain ⟨-, hm⟩ := Option.ite_none_right_eq_some.mp hm
    cases hm
    exact .inr (.inr (.inr ⟨rfl, rfl⟩))
  | matchTotp _ _ _ | deleteBackupCodes | newSecret | newBackupCode | randomUUID =>
    cases hm
    exact .inl rfl

theorem on_of_factor (h : row'.factor = row.factor) (hon : row'.On) : row.On := by
  have henabled : row'.enabledAt = row.enabledAt := congrArg Prod.snd h
  exact fun hnone => hon (henabled.trans hnone)

end Statements

/-! ## Runs -/

section Runs

variable {hotp : Secret → ℤ → String} {secretOf : String → Option Secret}
  {hashBackupCode : String → String} {s t : Calls} {e : Happening}

variable (hotp secretOf) in
/-- A code that was found to belong to a step belongs to the secret that was read, and the secret of
a factor that is on is proven. -/
structure Secured (s : Calls) : Prop where
  matched : ∀ i read code nowMs step, s.world.stage i = .matched read code nowMs step →
    Matches hotp secretOf read.secretEncrypted code nowMs
  proven : ∀ row ∈ s.world.row, row.On → Proven hotp secretOf s row.secretEncrypted

theorem Proven.step {secretEncrypted : String} (h : Proven hotp secretOf s secretEncrypted)
    (hs : step hotp secretOf hashBackupCode s e = some t) :
    Proven hotp secretOf t secretEncrypted := by
  obtain ⟨code, nowMs, hmem, hmatches⟩ := h
  refine ⟨code, nowMs, ?_, hmatches⟩
  rcases kinds_step _ _ hs with ⟨kind, -, hkinds⟩ | hkinds
  · rw [hkinds]
    exact List.mem_append_left _ hmem
  · rw [hkinds]
    exact hmem

theorem matched_of_next {b : Stage} {o : Op} {r : Ans o} {kind : Kind} {read : Row} {code : String}
    {nowMs step : ℤ} (hallowed : b.Allowed secretOf kind o)
    (hnext : b.next hotp o r = some (.matched read code nowMs step)) :
    b = .matched read code nowMs step ∨ Matches hotp secretOf read.secretEncrypted code nowMs := by
  cases o with
  | matchTotp secret given now =>
    obtain ⟨row, rfl, hsecret⟩ := hallowed
    obtain ⟨hr, hb⟩ := Option.ite_none_right_eq_some.mp hnext
    cases r with
    | none => cases hb
    | some found =>
      cases hb
      exact .inr ⟨secret, hsecret, _, hr.symm⟩
  | loadRow =>
    rcases hallowed with rfl | ⟨row, rfl⟩
    · cases hnext
    · cases hnext
  | reserveAttempt now =>
    obtain ⟨row, rfl⟩ := hallowed
    cases r with
    | false => cases hnext
    | true => cases hnext
  | claimStep claimed now =>
    cases r with
    | false => cases hnext
    | true => cases hnext
  | burnBackupCode codeHash now =>
    have hstage := Option.some.inj hnext
    split at hstage
    · cases hstage
    · cases hstage
  | turnOn claimed now => cases hnext
  | upsertSecret _ | clearAttempts _ | deleteBackupCodes | insertBackupCodes _ | deleteRow | newSecret
  | newBackupCode | randomUUID =>
    exact .inl (Option.some.inj hnext)

section Act

variable {i : ℕ} {o : Op} {r : Ans o} {kind : Kind} {next : Ans o → Task Reply} {m : World} {b : Stage}

theorem Secured.matched_act (h : Secured hotp secretOf s)
    (hallowed : (s.world.stage i).Allowed secretOf kind o)
    (hb : (s.world.stage i).next hotp o r = some b) {j : ℕ} {read : Row} {code : String}
    {nowMs step : ℤ} (hj : Function.update s.world.stage i b j = .matched read code nowMs step) :
    Matches hotp secretOf read.secretEncrypted code nowMs := by
  by_cases hji : j = i
  · subst hji
    rw [Function.update_self] at hj
    rw [hj] at hb
    rcases matched_of_next hallowed hb with hbefore | hmatches
    · exact h.matched j read code nowMs step hbefore
    · exact hmatches
  · rw [Function.update_of_ne hji] at hj
    exact h.matched j read code nowMs step hj

theorem Secured.proven_act (h : Secured hotp secretOf s)
    (hi : s.procs[i]? = some ⟨kind, some (.call o next)⟩)
    (hallowed : (s.world.stage i).Allowed secretOf kind o) (hm : s.world.respond i o r = some m)
    (hok : Undisturbed s (.act i o r) t) {row : Row} (hrow : m.row = some row) (hon : row.On) :
    Proven hotp secretOf s row.secretEncrypted := by
  rcases respond_factor hm with hfactor | ⟨secretEncrypted, rfl, hpending⟩ |
    ⟨step, nowMs, read, row', rfl, hread, hoff, hrow', hsecret⟩ | ⟨-, hnone⟩
  · rw [hrow] at hfactor
    obtain ⟨before, hbefore, heq⟩ := Option.map_eq_some_iff.mp hfactor.symm
    have hsecret : before.secretEncrypted = row.secretEncrypted := congrArg Prod.fst heq
    rw [← hsecret]
    exact h.proven before hbefore (on_of_factor heq.symm hon)
  · cases hrow.symm.trans hpending
    exact absurd rfl hon
  · -- The code was compared with the secret that the row still has.
    cases hrow.symm.trans hrow'
    obtain ⟨compared, code, hstage, rfl⟩ := hallowed
    have hsame : read.secretEncrypted = compared.secretEncrypted := by
      have hrespects := hok read hread hoff
      simp only [hstage] at hrespects
      exact hrespects
    refine ⟨code, nowMs, List.mem_map.mpr ⟨_, List.mem_of_getElem? hi, rfl⟩, ?_⟩
    rw [hsecret, hsame]
    exact h.matched i compared code nowMs step hstage
  · cases hrow.symm.trans hnone

end Act

theorem secured_step (h : OnTrack hotp secretOf s ∧ Secured hotp secretOf s)
    (hs : step hotp secretOf hashBackupCode s e = some t) (hok : Undisturbed s e t) :
    OnTrack hotp secretOf t ∧ Secured hotp secretOf t := by
  refine ⟨onTrack_step h.1 hs, ?_⟩
  obtain ⟨htrack, hsecured⟩ := h
  rcases world_step htrack hs with hw |
    ⟨i, o, r, kind, next, m, b, rfl, hi, hallowed, hm, hb, hw⟩
  · constructor
    · rw [hw]
      exact hsecured.matched
    · intro row hrow hon
      rw [hw] at hrow
      exact (hsecured.proven row hrow hon).step hs
  · constructor
    · intro j read code nowMs step hj
      rw [hw] at hj
      exact hsecured.matched_act hallowed hb hj
    · intro row hrow hon
      rw [hw] at hrow
      exact (hsecured.proven_act hi hallowed hm hok hrow hon).step hs

/-- Nothing has begun, and the factor is not on. -/
structure NotBegun (s : Calls) : Prop where
  procs : s.procs = []
  stage : ∀ i, s.world.stage i = .idle
  off : ∀ row ∈ s.world.row, ¬ row.On

theorem NotBegun.secured (h : NotBegun s) : OnTrack hotp secretOf s ∧ Secured hotp secretOf s := by
  refine ⟨holds_of_start h.procs h.stage, ?_, ?_⟩
  · intro i read code nowMs step hi
    rw [h.stage i] at hi
    cases hi
  · intro row hrow hon
    exact absurd hon (h.off row hrow)

theorem turnsOff_of_step (htrack : OnTrack hotp secretOf s)
    (hs : step hotp secretOf hashBackupCode s e = some t) (hok : Undisturbed s e t)
    (hon : s.world.On) (hoff : ¬ t.world.On) : TurnsOff s e := by
  obtain ⟨row, hrow, hrowOn⟩ := hon
  rcases world_step htrack hs with hw |
    ⟨i, o, r, kind, next, m, b, rfl, hi, hallowed, hm, hb, hw⟩
  · exact absurd ⟨row, by rw [hw]; exact hrow, hrowOn⟩ hoff
  · rcases respond_factor hm with hfactor | ⟨secretEncrypted, rfl, -⟩ |
      ⟨step, nowMs, row', -, -, hrow', hrowOff, -⟩ | ⟨rfl, -⟩
    · rw [hrow] at hfactor
      obtain ⟨after, hafter, heq⟩ := Option.map_eq_some_iff.mp hfactor
      exact absurd ⟨after, by rw [hw]; exact hafter, on_of_factor heq.symm hrowOn⟩ hoff
    · exact absurd hrowOn (hok row hrow)
    · cases hrow.symm.trans hrow'
      exact absurd hrowOn hrowOff
    · exact ⟨i, r, _, rfl, hi, hallowed⟩

/-- Any number of calls, interleaved in any way: where no setup writes over a factor that is on, and
no enabling call turns on another secret than the one its code was compared with, the secret of a
factor that is on is proven, and only a disabling call whose proof was accepted or an administrator
turns it off. -/
theorem on_for_proven_secret_and_stays_on (hstart : NotBegun s) {es : List Happening}
    (hok : Along (step hotp secretOf hashBackupCode) Undisturbed s es)
    (h : exec (step hotp secretOf hashBackupCode) s es = some t) :
    (∀ row ∈ t.world.row, row.On → Proven hotp secretOf t row.secretEncrypted) ∧
      ∀ e u, step hotp secretOf hashBackupCode t e = some u → Undisturbed t e u →
        t.world.On → ¬ u.world.On → TurnsOff t e := by
  have hsecured : OnTrack hotp secretOf t ∧ Secured hotp secretOf t :=
    exec_invariant_along _ (fun _ _ _ hs hstep hok => secured_step hs hstep hok) hstart.secured hok h
  exact ⟨hsecured.2.proven, fun e u hs hok hon hoff => turnsOff_of_step hsecured.1 hs hok hon hoff⟩

end Runs

/-! ## Two browsers -/

def twoSecrets (secretEncrypted : String) : Option Secret :=
  if secretEncrypted = "enc-1" then some [1] else some [2]

def twoCodes (secret : Secret) (_ : ℤ) : String := if secret = [1] then "111111" else "222222"

abbrev stepTwo : Calls → Happening → Option Calls := step twoCodes twoSecrets id

def notSetUp : Calls where
  world :=
    { row := none, codes := [], acceptedSteps := [], acceptedCodes := [], taken := []
      evaluated := [], waiting := [], stage := fun _ => .idle }
  procs := []

theorem notSetUp_notBegun : NotBegun notSetUp where
  procs := rfl
  stage _ := rfl
  off row hrow := by cases hrow

def firstRow : Row := Row.pending "enc-1"

def attemptedRow : Row := { firstRow with failedAttempts := 1, failedWindowStartedAt := some 60000 }

def setsUp (i : ℕ) (row : Option Row) (secretEncrypted : String) : List Happening :=
  [.act i .loadRow row, .act i .newSecret secretEncrypted,
    .act i (.upsertSecret secretEncrypted) ()]

def compares (i : ℕ) : List Happening :=
  [.act i .loadRow (some firstRow), .act i (.reserveAttempt 60000) true,
    .act i (.matchTotp [1] "111111" 60000) (some (1 : ℤ))]

def turnsOn (i : ℕ) : Happening := .act i (.turnOn 1 60000) true

/-- A second setup has read that the factor is not on, and writes after it was turned on. -/
def setupOverEnabled : List Happening :=
  [.spawn .setup, .spawn (.enable "111111" 60000), .spawn .setup] ++ setsUp 0 none "enc-1" ++
    [.act 2 .loadRow (some firstRow)] ++ compares 1 ++ [turnsOn 1, .act 2 .newSecret "enc-2"]

def enabledUnproven : List Happening :=
  [.spawn .setup, .spawn (.enable "111111" 60000), .spawn .setup] ++ setsUp 0 none "enc-1" ++
    compares 1 ++ setsUp 2 (some attemptedRow) "enc-2" ++ [turnsOn 1]

theorem setup_meets_enable :
    (¬ ∀ (s t : Calls) (es : List Happening), NotBegun s → exec stepTwo s es = some t →
      ∀ row ∈ t.world.row, row.On → Proven twoCodes twoSecrets t row.secretEncrypted) ∧
    ¬ ∀ (s t u : Calls) (es : List Happening) (e : Happening), NotBegun s →
      exec stepTwo s es = some t → stepTwo t e = some u → t.world.On → ¬ u.world.On →
        TurnsOff t e := by
  constructor
  · intro hall
    have hrun : ∃ t row, exec stepTwo notSetUp enabledUnproven = some t ∧ t.world.row = some row ∧
        row.On ∧ row.secretEncrypted = "enc-2" ∧
        t.procs.map Process.kind = [.setup, .enable "111111" 60000, .setup] :=
      ⟨_, _, rfl, rfl, by decide, rfl, rfl⟩
    obtain ⟨t, row, ht, hrow, hon, hsecret, hkinds⟩ := hrun
    obtain ⟨code, nowMs, hmem, secret, hsecretOf, found, hfound⟩ :=
      hall notSetUp t enabledUnproven notSetUp_notBegun ht row hrow hon
    rw [hkinds] at hmem
    rw [hsecret] at hsecretOf
    have henable : Kind.enable code nowMs = .enable "111111" 60000 := by simpa using hmem
    injection henable with hcode hnow
    cases hsecretOf
    rw [hcode, hnow] at hfound
    exact absurd hfound (by decide +revert)
  · intro hall
    have hrun : ∃ t u, exec stepTwo notSetUp setupOverEnabled = some t ∧
        stepTwo t (.act 2 (.upsertSecret "enc-2") ()) = some u ∧
        (∃ row, t.world.row = some row ∧ row.On) ∧ u.world.row = some (Row.pending "enc-2") :=
      ⟨_, _, rfl, rfl, ⟨_, rfl, by decide⟩, rfl⟩
    obtain ⟨t, u, ht, hu, hon, hrow⟩ := hrun
    have hoff : ¬ u.world.On := by
      rintro ⟨row, hmem, hrowOn⟩
      cases hrow.symm.trans hmem
      exact hrowOn rfl
    obtain ⟨i, r, p, he, -⟩ := hall notSetUp t u setupOverEnabled _ notSetUp_notBegun ht hu hon hoff
    cases he

def enrols : List Happening :=
  [.spawn .setup, .spawn (.enable "111111" 60000)] ++ setsUp 0 none "enc-1" ++ compares 1 ++
    [turnsOn 1]

theorem on_for_proven_secret_and_stays_on_enrolled :
    ∃ t row, exec stepTwo notSetUp enrols = some t ∧ t.world.row = some row ∧ row.On ∧
      Proven twoCodes twoSecrets t row.secretEncrypted := by
  have hok : Along stepTwo Undisturbed notSetUp enrols := by decide
  have hrun : ∃ t row, exec stepTwo notSetUp enrols = some t ∧ t.world.row = some row ∧ row.On :=
    ⟨_, _, rfl, rfl, by decide⟩
  obtain ⟨t, row, ht, hrow, hon⟩ := hrun
  exact ⟨t, row, ht, hrow, hon,
    (on_for_proven_secret_and_stays_on notSetUp_notBegun hok ht).1 row hrow hon⟩

end Insula.Totp
