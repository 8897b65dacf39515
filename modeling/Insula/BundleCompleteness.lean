import Insula.BundleOrchestrator

/-!
# A completed bundle is complete, up to two kinds of lost writes

A branch that catches an error reports it, and the bundle is not completed. Two writes of a branch
stand outside of what it catches: the insertion of its row, and the mark that there was nothing to
capture. When one of these throws, the branch ends without a word and nobody looks at its rejection.
The bundle is then completed without a row for the component, or with one that runs forever, unless
it was the mark and only its answer was lost.
-/

namespace Insula.TenantBundles.RunBundle

open Interleaving

def rowStep (rows : List ComponentRow) : Effect → List ComponentRow
  | .insert row => rows ++ [row]
  | .update number set => rows.map fun r => if r.number = number then set r else r
  | .report _ => rows

def rowsAfter (es : List Effect) : List ComponentRow := es.foldl rowStep []

def Ended (rows : List ComponentRow) : Prop :=
  rows ≠ [] ∧ ∀ r ∈ rows, r.status = .completed ∨ r.status = .skipped

instance (rows : List ComponentRow) : Decidable (Ended rows) := by
  unfold Ended
  infer_instance

def Reports (es : List Effect) : Prop := ∃ error, Effect.report error ∈ es

/-! ## What the patterns of failures say -/

section Patterns

variable (deps : Deps)

def Answer.Throws (a : Answer) : Prop := a ≠ .ok

/-- The call throws without having had its effect. -/
def Answer.Misses (a : Answer) : Prop := a.takesEffect = false

def FilesAnswers.Failed (a : FilesAnswers) : Prop :=
  deps.k8s = false ∨ (a.insert = .ok ∧
    match a.capture with
    | .captured _ _ => a.done.Throws
    | .skipped _ => False
    | .threw _ => True)

/-- A write of the files branch throws where nothing catches it: the insertion of the row, or a mark
that did not take effect. -/
def FilesAnswers.Lost (a : FilesAnswers) : Prop :=
  deps.k8s = true ∧ (a.insert.Throws ∨
    match a.capture with
    | .skipped _ => a.markSkipped.Misses
    | _ => False)

def Capture.FailsWith (done : Answer) : Capture → Prop
  | .captured _ => done.Throws
  | .threw _ => True

def ConfigAnswers.Failed (a : ConfigAnswers) : Prop := a.insert = .ok ∧ a.capture.FailsWith a.done

def ConfigAnswers.Lost (a : ConfigAnswers) : Prop := a.insert.Throws

def SecretsAnswers.Failed (a : SecretsAnswers) : Prop :=
  deps.k8s = false ∨ (a.insert = .ok ∧ a.hasSecrets = true ∧ a.capture.FailsWith a.done)

def SecretsAnswers.Lost (a : SecretsAnswers) : Prop :=
  deps.k8s = true ∧ (a.insert.Throws ∨ (a.hasSecrets = false ∧ a.markSkipped.Misses))

def firstThrown : List Answer → Answer
  | [] => .ok
  | .ok :: rest => firstThrown rest
  | .threw message applied :: _ => .threw message applied

def insertAnswers (answer : ℕ → Answer) : ℕ → List MailboxSnapshot → List Answer
  | _, [] => []
  | n, _ :: rest => answer n :: insertAnswers answer (n + 1) rest

def MailboxesAnswers.rowAnswers (a : MailboxesAnswers) (perMailbox : List MailboxSnapshot) :
    List Answer :=
  a.done :: insertAnswers a.insertMailbox 1 perMailbox.tail

def MailboxesAnswers.captured (a : MailboxesAnswers) : Answer :=
  match a.capture with
  | .captured perMailbox _ => firstThrown (a.rowAnswers perMailbox)
  | .threw message => .threw message false

/-- An error that is no drift of the mail server, or a drift that could not be marked. -/
def MailboxesAnswers.Failed (a : MailboxesAnswers) : Prop :=
  deps.k8s = false ∨ deps.platformApiUrl = false ∨
    (a.insert = .ok ∧ a.mailboxCount ≠ 0 ∧
      match a.captured with
      | .ok => False
      | .threw message _ =>
        isStalwartDrift (messageOr "mailboxes capture failed" (.error message)) = false ∨
          a.markDrift.Throws)

def MailboxesAnswers.Lost (a : MailboxesAnswers) : Prop :=
  deps.k8s = true ∧ deps.platformApiUrl = true ∧
    (a.insert.Throws ∨ (a.mailboxCount = 0 ∧ a.markSkipped.Misses))

end Patterns

def Answers.Failed (a : Answers) : BackupComponentName → Prop
  | .files => a.files.Failed a.deps
  | .mailboxes => a.mailboxes.Failed a.deps
  | .config => a.config.Failed
  | .secrets => a.secrets.Failed a.deps

def Answers.Lost (a : Answers) : BackupComponentName → Prop
  | .files => a.files.Lost a.deps
  | .mailboxes => a.mailboxes.Lost a.deps
  | .config => a.config.Lost
  | .secrets => a.secrets.Lost a.deps

/-! ## Running a branch -/

section Run

variable {α β : Type}

def ran (b : Branch α) (before : List Effect) : Except Thrown α × List Effect := b.run.run before

theorem effects_eq (b : Branch Unit) : effects b = (ran b []).2 := rfl

@[simp] theorem ran_pure (x : α) (before : List Effect) :
    ran (pure x) before = (.ok x, before) := rfl

@[simp] theorem ran_throw (err : Thrown) (before : List Effect) :
    ran (throw err : Branch α) before = (.error err, before) := rfl

@[simp] theorem ran_emit (e : Effect) (before : List Effect) :
    ran (emit e) before = (.ok (), before ++ [e]) := rfl

@[simp] theorem ran_write_ok (e : Effect) (before : List Effect) :
    ran (write .ok e) before = (.ok (), before ++ [e]) := rfl

@[simp] theorem ran_write_threw (message : Option String) (e : Effect) (before : List Effect) :
    ran (write (.threw message false) e) before = (.error (.error message), before) := rfl

@[simp] theorem ran_write_lost (message : Option String) (e : Effect) (before : List Effect) :
    ran (write (.threw message true) e) before = (.error (.error message), before ++ [e]) := rfl

theorem ran_bind (b : Branch α) (f : α → Branch β) (before : List Effect) : ran (b >>= f) before =
      match ran b before with
      | (.ok x, after) => ran (f x) after
      | (.error err, after) => (.error err, after) := by
  simp only [ran, ExceptT.run_bind, StateT.run_bind]
  rcases b.run.run before with ⟨_ | x, after⟩
  · rfl
  · rfl

theorem ran_tryCatch (b : Branch α) (handler : Thrown → Branch α) (before : List Effect) :
    ran (tryCatch b handler) before =
      match ran b before with
      | (.ok x, after) => (.ok x, after)
      | (.error err, after) => ran (handler err) after := by
  simp only [ran, ExceptT.run_tryCatch, StateT.run_bind]
  rcases b.run.run before with ⟨_ | x, after⟩
  · rfl
  · rfl

end Run

/-! ## The four branches -/

/-- What is to be shown of a branch: it reports exactly the failures, and without one its rows have
ended exactly when no write was lost. -/
structure Accounts (es : List Effect) (failed lost : Prop) : Prop where
  reports : Reports es ↔ failed
  ended : ¬ failed → (Ended (rowsAfter es) ↔ ¬ lost)

variable {es : List Effect} {failed lost : Prop} {row : ComponentRow}

theorem reports_append {es' : List Effect} : Reports (es ++ es') ↔ Reports es ∨ Reports es' := by
  simp only [Reports, List.mem_append, exists_or]

theorem ran_insertComponentRow_ok (artifactName : String) (f : ℕ → Branch Unit) :
    ran (insertComponentRow .ok artifactName >>= f) [] =
      ran (f 0) [.insert (runningRow artifactName)] := rfl

/-- A row whose insertion throws is lost: it is missing or runs forever, and nothing is reported. -/
theorem accounts_insertComponentRow_threw (message : Option String) (applied : Bool)
    (artifactName : String) (f : ℕ → Branch Unit) (hfailed : ¬ failed) (hlost : lost) :
    Accounts (ran (insertComponentRow (.threw message applied) artifactName >>= f) []).2 failed
      lost := by
  cases applied with
  | false =>
    change Accounts [] failed lost
    exact ⟨by simp [Reports, hfailed], fun _ => by simp [rowsAfter, Ended, hlost]⟩
  | true =>
    change Accounts [.insert (runningRow artifactName)] failed lost
    exact ⟨by simp [Reports, hfailed],
      fun _ => by simp [rowsAfter, rowStep, Ended, runningRow, hlost]⟩

theorem markSkipped_accounts (hrow : row.number = 0) (answer : Answer) (reason : String)
    (hfailed : ¬ failed) (hlost : lost ↔ answer.Misses) (hrunning : row.status = .running) :
    Accounts (ran (markComponentRowSkipped answer 0 reason) [.insert row]).2 failed lost := by
  rw [hlost]
  rcases answer with _ | ⟨message, _ | _⟩
  · constructor <;>
      simp [markComponentRowSkipped, Reports, Ended, rowsAfter, rowStep, Answer.Misses,
        Answer.takesEffect, hfailed, hrow]
  · constructor <;>
      simp [markComponentRowSkipped, Reports, Ended, rowsAfter, rowStep, Answer.Misses,
        Answer.takesEffect, hfailed, hrunning]
  · constructor <;>
      simp [markComponentRowSkipped, Reports, Ended, rowsAfter, rowStep, Answer.Misses,
        Answer.takesEffect, hfailed, hrow]

theorem captureOrReport_accounts (hrow : row.number = 0) (component : String) (capture : Capture)
    (done markFailed : Answer) (hfailed : failed ↔ capture.FailsWith done) (hlost : ¬ lost) :
    Accounts (ran (captureOrReport component capture done markFailed 0) [.insert row]).2 failed
      lost := by
  rw [hfailed]
  cases capture with
  | captured sizeBytes =>
    rcases done with _ | ⟨_, _ | _⟩ <;> rcases markFailed with _ | ⟨_, _ | _⟩ <;>
      constructor <;>
      simp [captureOrReport, markComponentDone, markComponentRowFailed, ran_bind, ran_tryCatch,
        Capture.FailsWith, Reports, Ended, rowsAfter, rowStep, Answer.Throws, hrow, hlost]
  | threw message =>
    rcases markFailed with _ | ⟨_, _ | _⟩ <;>
      constructor <;>
      simp [captureOrReport, markComponentRowFailed, ran_bind, ran_tryCatch, Capture.FailsWith,
        Reports]

theorem files_accounts (deps : Deps) (a : FilesAnswers) :
    Accounts (effects (filesBranch deps a)) (a.Failed deps) (a.Lost deps) := by
  obtain ⟨insertFailed, insert, capture, done, markSkipped, markFailed⟩ := a
  obtain ⟨k8s, url⟩ := deps
  rw [effects_eq]
  cases k8s with
  | false =>
    rcases insertFailed with _ | ⟨_, _ | _⟩ <;>
      constructor <;>
      simp [filesBranch, markComponentFailed, ran_bind, FilesAnswers.Failed, Reports]
  | true =>
    unfold filesBranch
    rw [if_neg (by simp)]
    cases insert with
    | threw message applied =>
      exact accounts_insertComponentRow_threw message applied _ _ (by simp [FilesAnswers.Failed])
        (by simp [FilesAnswers.Lost, Answer.Throws])
    | ok =>
      rw [ran_insertComponentRow_ok]
      cases capture with
      | captured sizeBytes sha256 =>
        rcases done with _ | ⟨_, _ | _⟩ <;> rcases markFailed with _ | ⟨_, _ | _⟩ <;>
          constructor <;>
          simp [markComponentDone, markComponentRowFailed, ran_bind, ran_tryCatch,
            FilesAnswers.Failed, FilesAnswers.Lost, Reports, Ended, rowsAfter, rowStep,
            Answer.Throws, runningRow]
      | skipped reason =>
        simp only [ran_tryCatch, ran_throw]
        exact markSkipped_accounts rfl markSkipped reason (by simp [FilesAnswers.Failed])
          (by simp [FilesAnswers.Lost, Answer.Throws]) rfl
      | threw message =>
        rcases markFailed with _ | ⟨_, _ | _⟩ <;>
          constructor <;>
          simp [markComponentRowFailed, ran_bind, ran_tryCatch, FilesAnswers.Failed, Reports]

theorem config_accounts (a : ConfigAnswers) :
    Accounts (effects (configBranch a)) a.Failed a.Lost := by
  obtain ⟨insert, capture, done, markFailed⟩ := a
  rw [effects_eq]
  unfold configBranch
  cases insert with
  | threw message applied =>
    exact accounts_insertComponentRow_threw message applied _ _ (by simp [ConfigAnswers.Failed])
      (by simp [ConfigAnswers.Lost, Answer.Throws])
  | ok =>
    rw [ran_insertComponentRow_ok]
    exact captureOrReport_accounts rfl "config" capture done markFailed
      (by simp [ConfigAnswers.Failed]) (by simp [ConfigAnswers.Lost, Answer.Throws])

theorem secrets_accounts (deps : Deps) (namespaceName : String) (a : SecretsAnswers) :
    Accounts (effects (secretsBranch deps namespaceName a)) (a.Failed deps) (a.Lost deps) := by
  obtain ⟨insertFailed, hasSecrets, insert, markSkipped, capture, done, markFailed⟩ := a
  obtain ⟨k8s, url⟩ := deps
  rw [effects_eq]
  cases k8s with
  | false =>
    rcases insertFailed with _ | ⟨_, _ | _⟩ <;>
      constructor <;>
      simp [secretsBranch, markComponentFailed, ran_bind, SecretsAnswers.Failed, Reports]
  | true =>
    unfold secretsBranch
    rw [if_neg (by simp)]
    cases insert with
    | threw message applied =>
      exact accounts_insertComponentRow_threw message applied _ _ (by simp [SecretsAnswers.Failed])
        (by simp [SecretsAnswers.Lost, Answer.Throws])
    | ok =>
      rw [ran_insertComponentRow_ok]
      cases hasSecrets with
      | false =>
        rw [if_pos rfl]
        exact markSkipped_accounts rfl markSkipped _ (by simp [SecretsAnswers.Failed])
          (by simp [SecretsAnswers.Lost, Answer.Throws]) rfl
      | true =>
        rw [if_neg (by simp)]
        exact captureOrReport_accounts rfl "secrets" capture done markFailed
          (by simp [SecretsAnswers.Failed]) (by simp [SecretsAnswers.Lost, Answer.Throws])

/-! ## The mailboxes -/

def Answer.result : Answer → Except Thrown Unit
  | .ok => .ok ()
  | .threw message _ => .error (.error message)

def InsertsCompleted (es : List Effect) : Prop :=
  ∀ e ∈ es, ∃ row : ComponentRow, e = .insert row ∧ row.status = .completed

theorem ran_insertMailboxRows (answer : ℕ → Answer) (n : ℕ) (rest : List MailboxSnapshot)
    (before : List Effect) : ∃ es, ran (insertMailboxRows answer n rest) before =
        ((firstThrown (insertAnswers answer n rest)).result, before ++ es) ∧
      InsertsCompleted es := by
  induction rest generalizing n before with
  | nil => exact ⟨[], by simp [insertMailboxRows, insertAnswers, firstThrown, Answer.result],
      by simp [InsertsCompleted]⟩
  | cons m rest ih =>
    cases hanswer : answer n with
    | threw message applied =>
      cases applied with
      | false =>
        refine ⟨[], ?_, by simp [InsertsCompleted]⟩
        simp [insertMailboxRows, insertAnswers, hanswer, firstThrown, Answer.result, ran_bind]
      | true =>
        refine ⟨[.insert (m.row n)], ?_, by simp [InsertsCompleted, MailboxSnapshot.row]⟩
        simp [insertMailboxRows, insertAnswers, hanswer, firstThrown, Answer.result, ran_bind]
    | ok =>
      obtain ⟨es, hran, hes⟩ := ih (n + 1) (before ++ [.insert (m.row n)])
      refine ⟨.insert (m.row n) :: es, ?_, ?_⟩
      · simp only [insertMailboxRows, insertAnswers, hanswer, firstThrown, ran_bind,
          ran_write_ok]
        rw [hran, List.append_assoc]
        rfl
      · intro e he
        rcases List.mem_cons.mp he with rfl | he
        · exact ⟨_, rfl, rfl⟩
        · exact hes e he

theorem foldl_rowStep_inserts (hes : InsertsCompleted es) (rows : List ComponentRow) :
    ∃ more : List ComponentRow, es.foldl rowStep rows = rows ++ more ∧
      ∀ r ∈ more, r.status = .completed := by
  induction es generalizing rows with
  | nil => exact ⟨[], by simp, by simp⟩
  | cons e es ih =>
    obtain ⟨row, rfl, hrow⟩ := hes e List.mem_cons_self
    obtain ⟨more, hmore, hall⟩ := ih (fun e he => hes e (List.mem_cons_of_mem _ he))
      (rows ++ [row])
    refine ⟨row :: more, ?_, ?_⟩
    · rw [List.foldl_cons]
      change es.foldl rowStep (rows ++ [row]) = _
      rw [hmore, List.append_assoc]
      rfl
    · intro r hr
      rcases List.mem_cons.mp hr with rfl | hr
      · exact hrow
      · exact hall r hr

theorem not_reports_inserts (hes : InsertsCompleted es) : ¬ Reports es := by
  rintro ⟨error, herror⟩
  obtain ⟨row, hrow, -⟩ := hes _ herror
  cases hrow

/-- The rows of a branch that has recorded mailboxes: the one it began with, and completed ones. -/
structure Recorded (es : List Effect) (answer : Answer) : Prop where
  quiet : ¬ Reports es
  rows : ∃ first more, rowsAfter es = first :: more ∧ first.number = 0 ∧
    (answer = .ok → first.status = .completed) ∧ ∀ r ∈ more, r.status = .completed

theorem Recorded.ended (h : Recorded es .ok) : Ended (rowsAfter es) := by
  obtain ⟨first, more, hrows, -, hfirst, hmore⟩ := h.rows
  rw [hrows]
  refine ⟨by simp, ?_⟩
  intro r hr
  rcases List.mem_cons.mp hr with rfl | hr
  · exact .inl (hfirst rfl)
  · exact .inl (hmore r hr)

/-- Marking the first row as skipped ends them all. -/
theorem Recorded.ended_skipped {answer : Answer} (h : Recorded es answer) (reason : String) :
    Ended (rowsAfter (es ++ [.update 0 fun r =>
      { r with status := .skipped, lastError := some reason }])) := by
  obtain ⟨first, more, hrows, hnumber, -, hmore⟩ := h.rows
  unfold rowsAfter at hrows ⊢
  rw [List.foldl_append, hrows]
  refine ⟨by simp [rowStep], ?_⟩
  intro r hr
  simp only [List.foldl_cons, List.foldl_nil, rowStep, List.map_cons, hnumber, if_true,
    List.mem_cons, List.mem_map] at hr
  rcases hr with rfl | ⟨r', hr', rfl⟩
  · exact .inr rfl
  · split
    · exact .inr rfl
    · exact .inl (hmore r' hr')

theorem recorded_pending (hrow : row.number = 0) (message : Option String) (applied : Bool) :
    Recorded [.insert row] (.threw message applied) where
  quiet := by simp [Reports]
  rows := ⟨row, [], rfl, hrow, by simp, by simp⟩

/-- The row that was there is updated, and then the answer is lost. -/
theorem recorded_updated (hrow : row.number = 0) (set : ComponentRow → ComponentRow)
    (hset : (set row).number = 0) (message : Option String) :
    Recorded [.insert row, .update 0 set] (.threw message true) where
  quiet := by simp [Reports]
  rows := ⟨set row, [], by simp [rowsAfter, rowStep, hrow], hset, by simp, by simp⟩

theorem ran_recordPerMailboxComponentRows (hrow : row.number = 0) (a : MailboxesAnswers)
    (sizeBytes : ℕ) (perMailbox : List MailboxSnapshot) :
    ∃ es, ran (recordPerMailboxComponentRows a 0 sizeBytes perMailbox) [.insert row] =
        ((firstThrown (a.rowAnswers perMailbox)).result, es) ∧
      Recorded es (firstThrown (a.rowAnswers perMailbox)) := by
  cases hdone : a.done with
  | threw message applied =>
    simp only [MailboxesAnswers.rowAnswers, hdone, firstThrown, Answer.result]
    cases applied with
    | false =>
      refine ⟨[.insert row], ?_, recorded_pending hrow message false⟩
      cases perMailbox <;>
        simp [recordPerMailboxComponentRows, markComponentDone, hdone, ran_bind]
    | true =>
      cases perMailbox with
      | nil =>
        refine ⟨_, ?_, recorded_updated hrow (fun r =>
          { r with status := .completed, sizeBytes := sizeBytes, sha256 := none }) hrow message⟩
        simp [recordPerMailboxComponentRows, markComponentDone, hdone]
      | cons m rest =>
        refine ⟨_, ?_, recorded_updated hrow m.record hrow message⟩
        simp [recordPerMailboxComponentRows, hdone, ran_bind]
  | ok =>
    cases perMailbox with
    | nil =>
      have hran : ran (recordPerMailboxComponentRows a 0 sizeBytes []) [.insert row] =
          (.ok (), [.insert row, .update 0 fun r =>
            { r with status := .completed, sizeBytes := sizeBytes, sha256 := none }]) := by
        simp [recordPerMailboxComponentRows, markComponentDone, hdone]
      rw [hran]
      refine ⟨_, by simp only [MailboxesAnswers.rowAnswers, hdone, List.tail_nil, insertAnswers,
        firstThrown, Answer.result]; rfl, ?_⟩
      · refine ⟨by simp [Reports],
          { row with status := .completed, sizeBytes := sizeBytes, sha256 := none }, [], ?_, hrow,
          fun _ => rfl, by simp⟩
        simp [rowsAfter, rowStep, hrow]
    | cons m rest =>
      simp only [recordPerMailboxComponentRows, hdone, MailboxesAnswers.rowAnswers, firstThrown,
        List.tail_cons, ran_bind, ran_write_ok]
      obtain ⟨es, hran, hes⟩ := ran_insertMailboxRows a.insertMailbox 1 rest
        ([.insert row] ++ [.update 0 m.record])
      refine ⟨_, hran, ?_, ?_⟩
      · simp only [reports_append, not_or]
        exact ⟨⟨by simp [Reports], by simp [Reports]⟩, not_reports_inserts hes⟩
      · obtain ⟨more, hmore, hall⟩ := foldl_rowStep_inserts hes [m.record row]
        refine ⟨m.record row, more, ?_, hrow, fun _ => rfl, hall⟩
        unfold rowsAfter
        rw [List.foldl_append]
        have hfirst : [Effect.insert row, Effect.update 0 m.record].foldl rowStep [] =
            [m.record row] := by
          simp [rowStep, hrow]
        change es.foldl rowStep ([Effect.insert row, Effect.update 0 m.record].foldl rowStep []) = _
        rw [hfirst, hmore]
        rfl

theorem ran_captureMailboxes (hrow : row.number = 0) (a : MailboxesAnswers) :
    ∃ es, ran (captureMailboxes a 0) [.insert row] = (a.captured.result, es) ∧
      Recorded es a.captured := by
  unfold captureMailboxes MailboxesAnswers.captured
  cases a.capture with
  | captured perMailbox sizeBytes =>
    exact ran_recordPerMailboxComponentRows hrow a sizeBytes perMailbox
  | threw message => exact ⟨[.insert row], rfl, recorded_pending hrow message false⟩

theorem accounts_of_reports (hes : Reports es) (hfailed : failed) : Accounts es failed lost where
  reports := by simp [hes, hfailed]
  ended h := absurd hfailed h

theorem reports_reportMailboxes (a : MailboxesAnswers) (msg : String) (es : List Effect) :
    Reports (ran (reportMailboxes a 0 msg) es).2 := by
  refine ⟨"mailboxes: " ++ msg, ?_⟩
  rcases hfailed : a.markFailed with _ | ⟨_, _ | _⟩ <;>
    simp [reportMailboxes, markComponentRowFailed, ran_bind, hfailed]

theorem mailboxes_accounts (deps : Deps) (a : MailboxesAnswers) :
    Accounts (effects (mailboxesBranch deps a)) (a.Failed deps) (a.Lost deps) := by
  obtain ⟨k8s, url⟩ := deps
  rw [effects_eq]
  cases k8s with
  | false =>
    rcases hfailed : a.insertFailed with _ | ⟨_, _ | _⟩ <;>
      constructor <;>
      simp [mailboxesBranch, markComponentFailed, ran_bind, MailboxesAnswers.Failed, Reports,
        hfailed]
  | true =>
    unfold mailboxesBranch
    rw [if_neg (by simp)]
    cases url with
    | false =>
      rcases hfailed : a.insertFailed with _ | ⟨_, _ | _⟩ <;>
        constructor <;>
        simp [markComponentFailed, ran_bind, MailboxesAnswers.Failed, Reports]
    | true =>
      rw [if_neg (by simp)]
      cases hinsert : a.insert with
      | threw message applied =>
        exact accounts_insertComponentRow_threw message applied _ _
          (by simp [MailboxesAnswers.Failed, hinsert])
          (by simp [MailboxesAnswers.Lost, Answer.Throws, hinsert])
      | ok =>
        rw [ran_insertComponentRow_ok]
        by_cases hcount : a.mailboxCount = 0
        · rw [if_pos hcount]
          exact markSkipped_accounts rfl a.markSkipped _
            (by simp [MailboxesAnswers.Failed, hcount])
            (by simp [MailboxesAnswers.Lost, Answer.Throws, hinsert, hcount]) rfl
        · rw [if_neg hcount]
          have hlost : ¬ a.Lost ⟨true, true⟩ := by
            simp [MailboxesAnswers.Lost, Answer.Throws, hinsert, hcount]
          have hfailed : a.Failed ⟨true, true⟩ ↔
              match a.captured with
              | .ok => False
              | .threw message _ =>
                isStalwartDrift (messageOr "mailboxes capture failed" (.error message)) =
                  false ∨ a.markDrift.Throws := by
            simp [MailboxesAnswers.Failed, hinsert, hcount]
          rw [ran_tryCatch]
          have hrow : (runningRow "__pending__").number = 0 := rfl
          obtain ⟨es, hran, hes⟩ := ran_captureMailboxes hrow a
          rw [hran]
          cases hcaptured : a.captured with
          | ok =>
            rw [hcaptured] at hfailed hes
            have hended : Ended (rowsAfter es) := hes.ended
            exact ⟨by simp [hfailed, hes.quiet, Answer.result],
              fun _ => by simp [Answer.result, hended, hlost]⟩
          | threw message applied =>
            rw [hcaptured] at hfailed hes
            simp only [Answer.result]
            by_cases hdrift : isStalwartDrift
                (messageOr "mailboxes capture failed" (.error message)) = true
            · rw [if_pos hdrift, ran_tryCatch]
              cases hmark : a.markDrift with
              | ok =>
                have hnot : ¬ a.Failed ⟨true, true⟩ := by
                  simp [hfailed, hdrift, hmark, Answer.Throws]
                refine ⟨?_, fun _ => ?_⟩
                · have hupdate : ∀ set, ¬ Reports [.update 0 set] := by simp [Reports]
                  simp [markComponentRowSkipped, reports_append, hes.quiet, hupdate, hnot]
                · simp only [markComponentRowSkipped, ran_write_ok, hlost, not_false_iff,
                    iff_true]
                  exact hes.ended_skipped _
              | threw _ applied =>
                have hreports : Reports (ran (reportMailboxes a 0
                    (messageOr "mailboxes capture failed" (.error message)))
                      (ran (markComponentRowSkipped a.markDrift 0 (driftReason
                        (messageOr "mailboxes capture failed" (.error message)))) es).2).2 :=
                  reports_reportMailboxes a _ _
                rw [hmark] at hreports
                refine accounts_of_reports ?_ (hfailed.mpr (.inr (by simp [hmark, Answer.Throws])))
                cases applied <;> exact hreports
            · rw [if_neg hdrift]
              exact accounts_of_reports (reports_reportMailboxes a _ _)
                (hfailed.mpr (.inl (by simpa using hdrift)))

/-! ## The whole run -/

section Whole

variable {requested : BackupComponentName → Bool} {a : Answers}
  {schedule : List (BackupComponentName × Effect)}

theorem rowsOf_foldl (schedule : List (BackupComponentName × Effect)) (ledger : Ledger)
    (c : BackupComponentName) : (schedule.foldl Ledger.apply ledger).rowsOf c =
      (stepsOf c schedule).foldl rowStep (ledger.rowsOf c) := by
  apply view_foldl Ledger.apply (fun c ledger => ledger.rowsOf c) rowStep
  · intro ledger c e
    cases e with
    | insert row => simp [Ledger.apply, Ledger.rowsOf, rowStep]
    | report error => rfl
    | update number set =>
      simp only [Ledger.apply, Ledger.rowsOf, rowStep]
      induction ledger.rows with
      | nil => rfl
      | cons p rows ih =>
        by_cases hp : p.1 = c <;> by_cases hn : p.2.number = number <;>
          simp [hp, hn, ih]
  · intro ledger c c' e hne
    cases e with
    | insert row => simp [Ledger.apply, Ledger.rowsOf, Ne.symm hne]
    | report error => rfl
    | update number set =>
      simp only [Ledger.apply, Ledger.rowsOf]
      induction ledger.rows with
      | nil => rfl
      | cons p rows ih =>
        by_cases hp : p.1 = c
        · subst hp
          by_cases hn : p.2.number = number <;> simp [hn, ih, Ne.symm hne]
        · have hrow : (if p.1 = c ∧ p.2.number = number then (c, set p.2) else p) = p :=
            if_neg fun h => hp h.1
          rw [List.map_cons, hrow]
          by_cases hc : p.1 = c'
          · rw [List.filter_cons_of_pos (by simpa using hc),
              List.filter_cons_of_pos (by simpa using hc), List.map_cons, List.map_cons, ih]
          · rw [List.filter_cons_of_neg (by simpa using hc),
              List.filter_cons_of_neg (by simpa using hc), ih]

theorem errors_foldl (schedule : List (BackupComponentName × Effect)) (ledger : Ledger) :
    (schedule.foldl Ledger.apply ledger).errors = [] ↔
      ledger.errors = [] ∧ ∀ c error, (c, Effect.report error) ∉ schedule := by
  induction schedule generalizing ledger with
  | nil => simp
  | cons p schedule ih =>
    rw [List.foldl_cons, ih]
    obtain ⟨c, e⟩ := p
    cases e with
    | insert row => simp [Ledger.apply]
    | update number set => simp [Ledger.apply]
    | report error =>
      constructor
      · intro h
        simp [Ledger.apply] at h
      · intro h
        exact absurd List.mem_cons_self (h.2 c error)

theorem trace_accounts (c : BackupComponentName) (hc : requested c = true) :
    Accounts (trace requested a c) (a.Failed c) (a.Lost c) := by
  unfold trace
  rw [if_pos hc]
  cases c with
  | files => exact files_accounts a.deps a.files
  | mailboxes => exact mailboxes_accounts a.deps a.mailboxes
  | config => exact config_accounts a.config
  | secrets => exact secrets_accounts a.deps a.namespaceName a.secrets

/-- The final update of the job takes effect, whether or not its answer arrives. -/
def Answers.ReachesEnd (a : Answers) : Prop :=
  a.captureTenantBlock = .ok ∧ a.captureDomainsSummary = .ok ∧
    a.captureDeploymentsSummary = .ok ∧ a.putMeta = .ok ∧ a.finalUpdate.takesEffect = true

/-- A component is reported exactly when one that was requested failed. -/
theorem errors_eq_nil_iff (h : Interleaves (trace requested a) schedule) :
    (schedule.foldl Ledger.apply { rows := [], errors := [] }).errors = [] ↔
      ∀ c, requested c = true → ¬ a.Failed c := by
  rw [errors_foldl]
  constructor
  · intro hnone c hc hfailed
    obtain ⟨error, herror⟩ := (trace_accounts c hc).reports.mpr hfailed
    exact hnone.2 c error ((mem_schedule_iff h).mpr herror)
  · intro hnone
    refine ⟨rfl, ?_⟩
    intro c error hmem
    have hin := (mem_schedule_iff h).mp hmem
    by_cases hc : requested c = true
    · exact hnone c hc ((trace_accounts c hc).reports.mp ⟨error, hin⟩)
    · unfold trace at hin
      rw [if_neg hc] at hin
      cases hin

theorem finish_ledger (ledger : Ledger) : (finish a ledger).ledger = ledger := by
  simp only [finish]
  split_ifs <;> rfl

theorem finish_completed_iff (ledger : Ledger) :
    ((finish a ledger).status = .completed ∧ (finish a ledger).metaWritten = true) ↔
      ledger.errors = [] ∧ a.ReachesEnd := by
  obtain ⟨rows, errors⟩ := ledger
  unfold finish Answers.ReachesEnd
  cases errors with
  | cons error errors =>
    simp only [List.isEmpty_cons, Bool.false_eq_true, if_false]
    split_ifs <;> simp_all
  | nil =>
    simp only [List.isEmpty_nil, if_true, true_and]
    by_cases hreads : a.captureTenantBlock ≠ .ok ∨ a.captureDomainsSummary ≠ .ok ∨
        a.captureDeploymentsSummary ≠ .ok
    · rw [if_pos hreads]
      simp only [reduceCtorEq, Bool.false_eq_true, false_and, false_iff]
      rintro ⟨h₁, h₂, h₃, -⟩
      simp [h₁, h₂, h₃] at hreads
    · rw [if_neg hreads]
      simp only [not_or, ne_eq, not_not] at hreads
      by_cases hmeta : a.putMeta = .ok
      · rw [if_neg (by simp [hmeta])]
        by_cases hfinal : a.finalUpdate.takesEffect = true
        · simp [hreads, hmeta, hfinal]
        · simp [hfinal]
      · simp [hmeta]

end Whole

/-- The bundle is completed only if every requested component has rows that ended well. -/
def CompleteIfCompleted (requested : BackupComponentName → Bool) (outcome : Outcome) : Prop :=
  outcome.status = .completed ∧ outcome.metaWritten = true →
    ∀ c, requested c = true → Ended (outcome.ledger.rowsOf c)

/-- A completed bundle is complete exactly when a component failed and was reported, or a later step
threw without having completed it, or no write of a requested component was lost. -/
theorem completed_bundle_is_complete_iff (requested : BackupComponentName → Bool) (a : Answers)
    (schedule : List (BackupComponentName × Effect))
    (h : Interleaves (trace requested a) schedule) :
    CompleteIfCompleted requested (runBundle a schedule) ↔
      (∃ c, requested c = true ∧ a.Failed c) ∨ ¬ a.ReachesEnd ∨
        ∀ c, requested c = true → ¬ a.Lost c := by
  unfold CompleteIfCompleted
  have hcompleted : ((runBundle a schedule).status = .completed ∧
      (runBundle a schedule).metaWritten = true) ↔
        (∀ c, requested c = true → ¬ a.Failed c) ∧ a.ReachesEnd := by
    rw [← errors_eq_nil_iff h]
    exact finish_completed_iff _
  rw [hcompleted]
  have hrows : ∀ c, (runBundle a schedule).ledger.rowsOf c = rowsAfter (trace requested a c) := by
    intro c
    unfold runBundle
    rw [finish_ledger, rowsOf_foldl, h c]
    rfl
  have hended : (∀ c, requested c = true → ¬ a.Failed c) →
      ((∀ c, requested c = true → Ended ((runBundle a schedule).ledger.rowsOf c)) ↔
        ∀ c, requested c = true → ¬ a.Lost c) := by
    intro hnone
    constructor
    · intro hall c hc
      have hrow := hall c hc
      rw [hrows] at hrow
      exact ((trace_accounts c hc).ended (hnone c hc)).mp hrow
    · intro hlost c hc
      rw [hrows]
      exact ((trace_accounts c hc).ended (hnone c hc)).mpr (hlost c hc)
  by_cases hnone : ∀ c, requested c = true → ¬ a.Failed c
  · have hno : ¬ ∃ c, requested c = true ∧ a.Failed c := fun ⟨c, hc, hf⟩ => hnone c hc hf
    rw [hended hnone]
    constructor
    · intro hcomplete
      by_cases hend : a.ReachesEnd
      · exact .inr (.inr (hcomplete ⟨hnone, hend⟩))
      · exact .inr (.inl hend)
    · rintro (hfailed | hend | hlost) ⟨-, hreaches⟩
      · exact absurd hfailed hno
      · exact absurd hreaches hend
      · exact hlost
  · have hsome : ∃ c, requested c = true ∧ a.Failed c := by
      by_contra hno
      exact hnone fun c hc hf => hno ⟨c, hc, hf⟩
    simp [hnone, hsome]

section TwoComponents

/-- The files and the configuration are captured without trouble, but for one write to the rows of
each. -/
def twoAnswers (markSkipped insertConfig : Answer) : Answers where
  deps := { k8s := true, platformApiUrl := true }
  namespaceName := "tenant-acme"
  files :=
    { insertFailed := .ok, insert := .ok, capture := .skipped "no storage claim", done := .ok,
      markSkipped := markSkipped, markFailed := .ok }
  mailboxes :=
    { insertFailed := .ok, mailboxCount := 0, insert := .ok, markSkipped := .ok,
      capture := .captured [] 0, done := .ok, insertMailbox := fun _ => .ok, markDrift := .ok,
      markFailed := .ok }
  config := { insert := insertConfig, capture := .captured 512, done := .ok, markFailed := .ok }
  secrets :=
    { insertFailed := .ok, hasSecrets := false, insert := .ok, markSkipped := .ok,
      capture := .captured 0, done := .ok, markFailed := .ok }
  captureTenantBlock := .ok
  captureDomainsSummary := .ok
  captureDeploymentsSummary := .ok
  putMeta := .ok
  exportError := none
  finalUpdate := .ok

def filesAndConfig : BackupComponentName → Bool
  | .files => true
  | .config => true
  | _ => false

def oneAfterTheOther (a : Answers) : List (BackupComponentName × Effect) :=
  (trace filesAndConfig a .files).map (Prod.mk .files) ++
    (trace filesAndConfig a .config).map (Prod.mk .config)

theorem oneAfterTheOther_interleaves (a : Answers) :
    Interleaves (trace filesAndConfig a) (oneAfterTheOther a) := by
  intro c
  have hnone : ∀ c, filesAndConfig c = false → trace filesAndConfig a c = [] := by
    intro c hc
    unfold trace
    rw [hc]
    rfl
  unfold oneAfterTheOther stepsOf
  rw [List.filter_append, List.map_append, List.filter_map, List.filter_map, List.map_map,
    List.map_map]
  cases c with
  | files => simp [Function.comp_def]
  | mailboxes => simp [Function.comp_def, hnone .mailboxes rfl]
  | config => simp [Function.comp_def]
  | secrets => simp [Function.comp_def, hnone .secrets rfl]

theorem completed_bundle_is_complete_iff_skipped :
    (runBundle (twoAnswers .ok .ok) (oneAfterTheOther (twoAnswers .ok .ok))).status = .completed ∧
      CompleteIfCompleted filesAndConfig
        (runBundle (twoAnswers .ok .ok) (oneAfterTheOther (twoAnswers .ok .ok))) := by
  refine ⟨rfl, ?_⟩
  apply (completed_bundle_is_complete_iff filesAndConfig _ _
    (oneAfterTheOther_interleaves _)).mpr
  right
  right
  intro c hc
  cases c with
  | files => simp [Answers.Lost, FilesAnswers.Lost, twoAnswers, Answer.Throws, Answer.Misses,
      Answer.takesEffect]
  | mailboxes => cases hc
  | config => simp [Answers.Lost, ConfigAnswers.Lost, twoAnswers, Answer.Throws]
  | secrets => cases hc

/-- The row of the configuration could not be inserted, and the bundle is completed without it. With
the mark for the missing storage claim lost, the row of the files runs forever in a completed
bundle. -/
theorem completed_bundle_lacks_component :
    (∃ schedule, Interleaves (trace filesAndConfig (twoAnswers .ok (.threw none false))) schedule ∧
      ¬ CompleteIfCompleted filesAndConfig
        (runBundle (twoAnswers .ok (.threw none false)) schedule)) ∧
    ∃ schedule, Interleaves (trace filesAndConfig (twoAnswers (.threw none false) .ok)) schedule ∧
      ¬ CompleteIfCompleted filesAndConfig
        (runBundle (twoAnswers (.threw none false) .ok) schedule) := by
  refine ⟨⟨_, oneAfterTheOther_interleaves _, ?_⟩, _, oneAfterTheOther_interleaves _, ?_⟩
  · intro hcomplete
    have hended := hcomplete ⟨rfl, rfl⟩ .config rfl
    exact hended.1 rfl
  · intro hcomplete
    have hended := hcomplete ⟨rfl, rfl⟩ .files rfl
    rcases hended.2 (runningRow "archive.tar.gz") (List.mem_singleton.mpr rfl) with h | h
    · cases h
    · cases h

end TwoComponents

end Insula.TenantBundles.RunBundle
