import Insula.TotpService

/-!
# Calls on the second factor, interleaved

The two tables, and beside them what a run has to tell: the steps and the backup codes that were
accepted, and since the attempts were last reset, who has taken an attempt and whose proof was
looked at. Every call keeps to the stages of a `Stage`.
-/

namespace Insula.Totp

open Program Concurrent

inductive Stage
  | idle
  | loaded (row : Option Row)
  /-- It has taken an attempt, by the row that it read, and its proof was not looked at. -/
  | reserved (row : Row)
  /-- Its code belongs to the step. -/
  | matched (row : Row) (code : String) (nowMs step : ℤ)
  | accepted
  | ended
  deriving DecidableEq

section Discipline

variable (hotp : Secret → ℤ → String) (secretOf : String → Option Secret)

namespace Stage

def Allowed (kind : Kind) (b : Stage) : Op → Prop
  | .loadRow => b = idle ∨ ∃ row, b = loaded (some row)
  | .upsertSecret _ => kind = .setup
  | .reserveAttempt _ => ∃ row, b = loaded (some row)
  | .matchTotp secret _ _ => ∃ row, b = reserved row ∧ secretOf row.secretEncrypted = some secret
  | .claimStep step _ => ∃ row code nowMs, b = matched row code nowMs step
  | .burnBackupCode _ _ => ∃ row, b = reserved row
  | .clearAttempts _ => b = accepted
  | .turnOn step nowMs => ∃ row code, b = matched row code nowMs step ∧ kind = .enable code nowMs
  | .deleteRow => kind = .clear ∨ (∃ proof nowMs, kind = .disable proof nowMs) ∧ b = accepted
  | _ => True

/-- The stage after the answer; `none` for an answer that does not occur. -/
def next (b : Stage) : (o : Op) → Ans o → Option Stage
  | .loadRow, r => match b with
      | idle => some (loaded r)
      | _ => some b
  | .reserveAttempt _, true => match b with
      | loaded (some row) => some (reserved row)
      | _ => some b
  | .matchTotp secret code nowMs, r =>
    if r = Totp.matchTotp hotp secret code nowMs then
      match b, r with
      | reserved row, some step => some (matched row code nowMs step)
      | _, _ => some ended
    else none
  | .claimStep _ _, r => some (if r then accepted else ended)
  | .burnBackupCode _ _, n => some (if n = 1 then accepted else ended)
  | .turnOn _ _, _ => some ended
  | _, _ => some b

def discipline (kind : Kind) : Discipline Op Ans Stage where
  allowed := Allowed secretOf kind
  next := next hotp

end Stage

end Discipline

/-! ## The tables and what a run has to tell -/

structure World where
  row : Option Row
  codes : List BackupCode
  /-- The last first. -/
  acceptedSteps : List ℤ
  acceptedCodes : List String
  /-- Since the attempts were last reset: the calls that took an attempt, and those whose proof was
  looked at. -/
  taken : List ℕ
  evaluated : List ℕ
  /-- The calls that had taken an attempt, and whose proof was not looked at, at that time. -/
  waiting : List ℕ
  /-- By call. -/
  stage : ℕ → Stage

namespace World

variable (w : World)

def reset : World :=
  { w with
    taken := []
    evaluated := []
    waiting := (w.taken ++ w.waiting).filter fun i => i ∉ w.evaluated }

/-- A call takes an attempt; a window that begins more than `failedWindowMs` after the one before is
a reset. -/
def take (i : ℕ) (nowMs : ℤ) : World :=
  if w.row.any (Row.expired · nowMs) then { w.reset with taken := [i] }
  else { w with taken := i :: w.taken }

def accept (step : ℤ) : World := { w.reset with acceptedSteps := step :: w.acceptedSteps }

def update (f : Row → Option Row) (noted : World) (changed : Bool) : Option World :=
  match w.row.bind f, changed with
  | some row, true => some { noted with row := some row }
  | none, false => some w
  | _, _ => none

def burn (i : ℕ) (codeHash : String) (nowMs : ℤ) : World :=
  { w with
    codes := w.codes.map (BackupCode.burn codeHash nowMs)
    evaluated := i :: w.evaluated
    -- The proof is accepted when one row was changed.
    acceptedCodes := match w.codes.filter (BackupCode.fits codeHash) with
      | [c] => c.id :: w.acceptedCodes
      | _ => w.acceptedCodes }

/-- Ids are random: a new one is not in the table, and was not before. -/
def Unused (codes : List BackupCode) : Prop :=
  ((w.codes ++ codes).map BackupCode.id).Nodup ∧ ∀ c ∈ codes, c.id ∉ w.acceptedCodes

instance (codes : List BackupCode) : Decidable (w.Unused codes) := by
  unfold Unused
  infer_instance

def respond (i : ℕ) : (o : Op) → Ans o → Option World
  | .loadRow, r => if r = w.row then some w else none
  | .upsertSecret secretEncrypted, _ => some { w with row := some (Row.pending secretEncrypted) }
  | .reserveAttempt nowMs, r => w.update (Row.reserveAttempt · nowMs) (w.take i nowMs) r
  | .matchTotp _ _ _, _ => some { w with evaluated := i :: w.evaluated }
  | .claimStep step _, r => w.update (Row.claimStep · step) (w.accept step) r
  | .burnBackupCode codeHash nowMs, n =>
    if n = (w.codes.filter (BackupCode.fits codeHash)).length then some (w.burn i codeHash nowMs)
    else none
  | .clearAttempts _, _ => some { w.reset with row := w.row.map Row.clearAttempts }
  | .turnOn step nowMs, r => w.update (Row.turnOn · step nowMs) w r
  | .deleteBackupCodes, _ => some { w with codes := [] }
  | .insertBackupCodes codes, _ =>
    if w.Unused codes then some { w with codes := w.codes ++ codes } else none
  | .deleteRow, r =>
    if r = w.row.any (fun row => row.enabledAt.isSome) then some { w with row := none } else none
  | _, _ => some w

end World

theorem update_eq_some {w m : World} {f : Row → Option Row} {noted : World} {changed : Bool}
    (h : w.update f noted changed = some m) :
    (∃ row row', changed = true ∧ w.row = some row ∧ f row = some row' ∧
      m = { noted with row := some row' }) ∨ (changed = false ∧ m = w) := by
  unfold World.update at h
  split at h
  · rename_i row' hrow'
    obtain ⟨row, hrow, hf⟩ := Option.bind_eq_some_iff.mp hrow'
    exact .inl ⟨row, row', rfl, hrow, hf, (Option.some.inj h).symm⟩
  · exact .inr ⟨rfl, (Option.some.inj h).symm⟩
  · cases h

section Runs

variable (hotp : Secret → ℤ → String)

def handle (w : World) (i : ℕ) (o : Op) (r : Ans o) : Option World :=
  (w.respond i o r).bind fun w' =>
    ((w.stage i).next hotp o r).map fun b => { w' with stage := Function.update w.stage i b }

abbrev Calls := Config World Kind Op Ans Reply

abbrev Happening := Event Kind Op Ans

variable {hotp}

theorem handle_eq_some {w w' : World} {i : ℕ} {o : Op} {r : Ans o} :
    handle hotp w i o r = some w' ↔ ∃ m b, w.respond i o r = some m ∧
      (w.stage i).next hotp o r = some b ∧ w' = { m with stage := Function.update w.stage i b } := by
  apply Option.map₂_eq_some_iff.trans
  simp only [Option.mem_def, eq_comm (b := w')]

end Runs

/-! ## The calls keep to their stages -/

section Follows

open Stage

variable {hotp : Secret → ℤ → String} {secretOf : String → Option Secret} {kind : Kind} {b : Stage}

def Ends {α : Type} (_ : Stage) (_ : α) : Prop := True

theorem quiet_of (o : Op) (hallowed : ∀ b, Allowed secretOf kind b o)
    (hnext : ∀ b r, next hotp b o r = some b) : (discipline hotp secretOf kind).Quiet o :=
  fun b => ⟨hallowed b, hnext b⟩

theorem newBackupCodes_follows (n : ℕ) :
    Follows (discipline hotp secretOf kind) (fun b' _ => b' = b) (newBackupCodes n) b := by
  induction n with
  | zero => exact rfl
  | succ n ih =>
    apply follows_quiet_bind (quiet_of .newBackupCode (fun _ => trivial) (fun _ _ => rfl))
    intro code
    rw [follows_bind]
    apply follows_mono _ ih
    rintro b codes rfl
    exact rfl

theorem storedCodes_follows (hashBackupCode : String → String) (codes : List String) :
    Follows (discipline hotp secretOf kind) (fun b' _ => b' = b)
      (storedCodes hashBackupCode codes) b := by
  induction codes with
  | nil => exact rfl
  | cons code codes ih =>
    apply follows_quiet_bind (quiet_of .randomUUID (fun _ => trivial) (fun _ _ => rfl))
    intro id
    rw [follows_bind]
    apply follows_mono _ ih
    rintro b stored rfl
    exact rfl

theorem replaceBackupCodes_follows (hashBackupCode : String → String) :
    Follows (discipline hotp secretOf kind) (fun b' _ => b' = b)
      (replaceBackupCodes hashBackupCode) b := by
  unfold replaceBackupCodes
  rw [follows_bind]
  apply follows_mono _ (newBackupCodes_follows backupCodeCount)
  rintro b codes rfl
  apply follows_quiet_bind (quiet_of .deleteBackupCodes (fun _ => trivial) (fun _ _ => rfl))
  intro _
  rw [follows_bind]
  apply follows_mono _ (storedCodes_follows hashBackupCode codes)
  rintro b stored rfl
  apply follows_quiet_bind
    (quiet_of (.insertBackupCodes stored) (fun _ => trivial) (fun _ _ => rfl))
  exact fun _ => rfl

theorem reserve_follows {α : Type} {Q : Stage → Except Failure α → Prop} {row : Row} {nowMs : ℤ}
    {go : Task (Except Failure α)} (herror : ∀ b e, Q b (.error e))
    (hgo : Follows (discipline hotp secretOf kind) Q go (reserved row)) :
    Follows (discipline hotp secretOf kind) Q (do
      if ¬ (← ask (.reserveAttempt nowMs)) then return .error (← lockedError nowMs) else go)
      (loaded (some row)) := by
  rw [follows_bind]
  refine ⟨⟨row, rfl⟩, ?_⟩
  intro reserved b hb
  cases reserved with
  | false =>
    cases hb
    exact ⟨.inr ⟨row, rfl⟩, fun _ b _ => herror b _⟩
  | true =>
    cases hb
    exact hgo

def Compared (row : Row) (code : String) (nowMs : ℤ) (b : Stage) : Except Failure ℤ → Prop
  | .ok step => b = matched row code nowMs step
  | .error _ => True

theorem evaluateCode_follows (row : Row) (code : String) (nowMs : ℤ) :
    Follows (discipline hotp secretOf kind) (Compared row code nowMs)
      (evaluateCode secretOf row code nowMs) (reserved row) := by
  unfold evaluateCode
  split
  · exact trivial
  · rename_i secret hsecret
    rw [follows_bind]
    refine ⟨⟨row, rfl, hsecret⟩, ?_⟩
    intro r b hb
    obtain ⟨-, hb⟩ := Option.ite_none_right_eq_some.mp hb
    cases r with
    | none => exact trivial
    | some step =>
      cases hb
      exact rfl

def Proved (b : Stage) : Except Failure TotpFactorUsed → Prop
  | .ok _ => b = accepted
  | .error _ => True

theorem verifyTotpFactor_follows (hashBackupCode : String → String) (proof : TotpProof) (nowMs : ℤ) :
    Follows (discipline hotp secretOf kind) Proved
      (verifyTotpFactor secretOf hashBackupCode proof nowMs) idle := by
  unfold verifyTotpFactor
  rw [follows_bind]
  refine ⟨.inl rfl, ?_⟩
  intro row b hb
  cases hb
  cases row with
  | none => exact trivial
  | some row =>
    change Follows _ Proved (if row.enabledAt = none then _ else _) _
    split
    · exact trivial
    · apply reserve_follows (fun _ _ => trivial)
      cases proof with
      | code code =>
        change Follows _ Proved (evaluateCode _ _ _ _ >>= _) _
        rw [follows_bind]
        apply follows_mono _ (evaluateCode_follows row code nowMs)
        intro b compared hb
        cases compared with
        | error e => exact trivial
        | ok step =>
          cases hb
          change Follows _ Proved (ask (.claimStep step nowMs) >>= _) _
          rw [follows_bind]
          refine ⟨⟨row, code, nowMs, rfl⟩, ?_⟩
          intro claimed b hb
          cases claimed with
          | false => exact trivial
          | true =>
            cases hb
            exact rfl
      | backupCode code =>
        change Follows _ Proved (ask (.burnBackupCode _ nowMs) >>= _) _
        rw [follows_bind]
        refine ⟨⟨row, rfl⟩, ?_⟩
        intro n b hb
        rw [follows_ret]
        split
        · exact trivial
        · rename_i hn
          have hone : n = (1 : ℕ) := not_not.mp hn
          subst hone
          cases hb
          exact ⟨rfl, fun _ _ hb => (Option.some.inj hb).symm⟩

theorem enableTotp_follows (hashBackupCode : String → String) (code : String) (nowMs : ℤ) :
    Follows (discipline hotp secretOf (.enable code nowMs)) Ends
      (enableTotp secretOf hashBackupCode code nowMs) idle := by
  unfold enableTotp
  rw [follows_bind]
  refine ⟨.inl rfl, ?_⟩
  intro row b hb
  cases hb
  cases row with
  | none => exact trivial
  | some row =>
    change Follows _ Ends (if row.enabledAt ≠ none then _ else _) _
    split
    · exact trivial
    · apply reserve_follows (fun _ _ => trivial)
      rw [follows_bind]
      apply follows_mono _ (evaluateCode_follows row code nowMs)
      intro b compared hb
      cases compared with
      | error e => exact trivial
      | ok step =>
        cases hb
        change Follows _ Ends (ask (.turnOn step nowMs) >>= _) _
        rw [follows_bind]
        refine ⟨⟨row, code, rfl, rfl⟩, ?_⟩
        intro turnedOn b hb
        cases turnedOn with
        | false => exact trivial
        | true =>
          change Follows _ Ends (replaceBackupCodes hashBackupCode >>= _) _
          rw [follows_bind]
          exact follows_mono (fun _ _ _ => trivial)
            (replaceBackupCodes_follows hashBackupCode)

theorem clearTotp_follows (hkind : Allowed secretOf kind b .deleteRow) :
    Follows (discipline hotp secretOf kind) Ends clearTotp b := by
  unfold clearTotp
  apply follows_quiet_bind (quiet_of .deleteBackupCodes (fun _ => trivial) (fun _ _ => rfl))
  exact fun _ => ⟨hkind, fun _ _ _ => trivial⟩

theorem beginTotpSetup_follows :
    Follows (discipline hotp secretOf .setup) Ends beginTotpSetup idle := by
  unfold beginTotpSetup
  rw [follows_bind]
  refine ⟨.inl rfl, ?_⟩
  intro row b hb
  rw [follows_ret]
  split
  · exact trivial
  · apply follows_quiet_bind (quiet_of .newSecret (fun _ => trivial) (fun _ _ => rfl))
    intro secretEncrypted
    exact ⟨rfl, fun _ _ _ => trivial⟩

theorem disableTotp_follows (hashBackupCode : String → String) (proof : TotpProof) (nowMs : ℤ) :
    Follows (discipline hotp secretOf (.disable proof nowMs)) Ends
      (disableTotp secretOf hashBackupCode proof nowMs) idle := by
  unfold disableTotp
  rw [follows_bind]
  apply follows_mono _ (verifyTotpFactor_follows hashBackupCode proof nowMs)
  intro b verified hb
  cases verified with
  | error e => exact trivial
  | ok factor =>
    cases hb
    change Follows _ Ends (clearTotp >>= _) accepted
    rw [follows_bind]
    exact follows_mono (fun _ _ _ => trivial)
      (clearTotp_follows (.inr ⟨⟨proof, nowMs, rfl⟩, rfl⟩))

theorem regenerateBackupCodes_follows (hashBackupCode : String → String) (proof : TotpProof)
    (nowMs : ℤ) : Follows (discipline hotp secretOf kind) Ends
      (regenerateBackupCodes secretOf hashBackupCode proof nowMs) idle := by
  unfold regenerateBackupCodes
  rw [follows_bind]
  apply follows_mono _ (verifyTotpFactor_follows hashBackupCode proof nowMs)
  intro b verified hb
  cases verified with
  | error e => exact trivial
  | ok factor =>
    change Follows _ Ends (replaceBackupCodes hashBackupCode >>= _) b
    rw [follows_bind]
    exact follows_mono (fun _ _ _ => trivial) (replaceBackupCodes_follows hashBackupCode)

theorem reply_follows {α : Type} {Q : Stage → α → Prop} {p : Task α} (reply : α → Reply)
    (h : Follows (discipline hotp secretOf kind) Q p b) :
    Follows (discipline hotp secretOf kind) Ends (p >>= fun a => Pure.pure (reply a)) b := by
  rw [follows_bind]
  exact follows_mono (fun _ _ _ => trivial) h

theorem run_follows (hashBackupCode : String → String) (kind : Kind) :
    Follows (discipline hotp secretOf kind) Ends (kind.run secretOf hashBackupCode) idle := by
  cases kind with
  | setup => exact reply_follows _ beginTotpSetup_follows
  | enable code nowMs => exact reply_follows _ (enableTotp_follows hashBackupCode code nowMs)
  | verify proof nowMs => exact reply_follows _ (verifyTotpFactor_follows hashBackupCode proof nowMs)
  | disable proof nowMs => exact reply_follows _ (disableTotp_follows hashBackupCode proof nowMs)
  | regenerate proof nowMs =>
    exact reply_follows _ (regenerateBackupCodes_follows hashBackupCode proof nowMs)
  | clear => exact reply_follows _ (clearTotp_follows (.inl rfl))

end Follows

/-! ## Steps -/

section Steps

variable {hotp : Secret → ℤ → String} {secretOf : String → Option Secret}
  {hashBackupCode : String → String} {s t : Calls} {e : Happening}

variable (hotp secretOf hashBackupCode) in
abbrev step (s : Calls) (e : Happening) : Option Calls :=
  Concurrent.step (Kind.run secretOf hashBackupCode) (handle hotp) s e

theorem handle_moves : MovesStages (Stage.discipline hotp secretOf) World.stage (handle hotp) := by
  intro _ w i o r w' hw
  obtain ⟨m, b, -, hb, rfl⟩ := handle_eq_some.mp hw
  exact ⟨b, hb, rfl⟩

variable (hotp secretOf) in
abbrev OnTrack (s : Calls) : Prop :=
  Holds (Fresh World.stage .idle) (OnCourse (Stage.discipline hotp secretOf) World.stage Ends) s

theorem onTrack_step (h : OnTrack hotp secretOf s)
    (hs : step hotp secretOf hashBackupCode s e = some t) : OnTrack hotp secretOf t :=
  onCourse_step handle_moves (run_follows hashBackupCode) h hs

theorem world_step (h : OnTrack hotp secretOf s)
    (hs : step hotp secretOf hashBackupCode s e = some t) :
    t.world = s.world ∨ ∃ i o r kind next m b, e = .act i o r ∧
      s.procs[i]? = some ⟨kind, some (.call o next)⟩ ∧
      (s.world.stage i).Allowed secretOf kind o ∧ s.world.respond i o r = some m ∧
      (s.world.stage i).next hotp o r = some b ∧
      t.world = { m with stage := Function.update s.world.stage i b } := by
  rcases allowed_step h hs with hw | ⟨i, o, r, kind, next, rfl, hi, hallowed, hw⟩
  · exact .inl hw
  · obtain ⟨m, b, hm, hb, heq⟩ := handle_eq_some.mp hw
    exact .inr ⟨i, o, r, kind, next, m, b, rfl, hi, hallowed, hm, hb, heq⟩

end Steps

end Insula.Totp
