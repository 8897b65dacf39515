import Insula.HostMigrations

/-!
# Sequences of passes

What one visit does to the journal and the markers gives what a pass does, and from there what a
node has run after any number of passes, between which an operator may skip scripts and a bootstrap
may stamp them.
-/

namespace Insula.HostMigrations

open Std Versions
open PlatformUpgrade (HostMigrationPhase)

/-! ## One script -/

def Entry.halts (e : Entry) : Bool :=
  match e.attempt with
  | .fails _ => hostMigrationBlocksOnFailure e.script.body
  | .unmarked _ _ => true
  | .marked => false

/-- The phase of a script lets it run: it has one, and it does not wait for the services. -/
def Allowed (p : Pass) (s : HostMigrationScript) : Prop :=
  ∃ phase, s.phase = some phase ∧
    (phase = .afterServices → servicesReachedRelease p.servicesVersion s.version = true)

variable {p : Pass} {st : PassState} {s : HostMigrationScript}

theorem keptBack_eq_none (h : keptBack p st s = none) :
    Allowed p s ∧ s.key ∉ st.ledger.done ∧ st.halted = false := by
  unfold keptBack at h
  split at h
  · cases h
  · rename_i phase hphase
    by_cases hdone : st.ledger.isApplied s.key = true
    · rw [if_pos hdone] at h
      cases h
    · rw [if_neg hdone] at h
      split at h
      · cases h
      · split_ifs at h with hbaseline hdeferred henforcing hhalted
        refine ⟨⟨phase, hphase, ?_⟩, ?_, by simpa using hhalted⟩
        · intro hafter
          simpa [hafter] using hdeferred
        · simpa [Ledger.isApplied] using hdone

variable (p st s) in
theorem runScript_spec : (runScript p st s).journal = st.journal ++
    [⟨s, p.attempts st.journal.length⟩] ∧
    (runScript p st s).halted = (st.halted || Entry.halts ⟨s, p.attempts st.journal.length⟩) ∧
    ∀ key, key ∈ (runScript p st s).ledger.done ↔ key ∈ st.ledger.done ∨
        (Entry.recorded ⟨s, p.attempts st.journal.length⟩ = true ∧ key = s.key) := by
  unfold runScript Entry.halts Entry.recorded
  cases p.attempts st.journal.length with
  | fails error => simp [Ledger.noteFailure]
  | unmarked error landed => cases landed <;> simp [Ledger.noteFailure, Ledger.markApplied, or_comm]
  | marked => simp [Ledger.markApplied, Ledger.clearFailure, or_comm]

/-! ## One pass -/

structure Walked (p : Pass) (st : PassState) (l : List HostMigrationScript) (st' : PassState)
    (journal : List Entry) : Prop where
  journal_eq : st'.journal = st.journal ++ journal
  sublist : (journal.map Entry.script).Sublist l
  halted : st.halted = true → journal = []
  halts : journal.Pairwise fun x _ => x.halts = false
  allowed : ∀ e ∈ journal, Allowed p e.script
  pending : ∀ e ∈ journal, e.script.key ∉ st.ledger.done
  again : journal.Pairwise fun x e => x.recorded = true → x.script.key ≠ e.script.key
  done : ∀ key, key ∈ st'.ledger.done ↔
    key ∈ st.ledger.done ∨ ∃ e ∈ journal, e.recorded = true ∧ key = e.script.key

theorem walked_nil : Walked p st [] st [] where
  journal_eq := (List.append_nil _).symm
  sublist := .slnil
  halted _ := rfl
  halts := .nil
  allowed e he := absurd he List.not_mem_nil
  pending e he := absurd he List.not_mem_nil
  again := .nil
  done key := by simp

/-- A visit that runs nothing, before a walk. -/
theorem Walked.skip {item : ReportItem} {l : List HostMigrationScript} {st' : PassState}
    {journal : List Entry} (h : Walked p { st with items := st.items ++ [item] } l st' journal) :
    Walked p st (s :: l) st' journal :=
  { h with sublist := h.sublist.cons s }

theorem Walked.run {l : List HostMigrationScript} {st' : PassState} {journal : List Entry}
    (hrun : keptBack p st s = none) (h : Walked p (runScript p st s) l st' journal) :
    Walked p st (s :: l) st' (⟨s, p.attempts st.journal.length⟩ :: journal) := by
  obtain ⟨hallowed, hpending, hhalted⟩ := keptBack_eq_none hrun
  obtain ⟨hjournal, hhalts, hdone⟩ := runScript_spec p st s
  constructor
  case journal_eq => rw [h.journal_eq, hjournal, List.append_assoc, List.singleton_append]
  case sublist => exact h.sublist.cons_cons s
  case halted =>
    intro htrue
    rw [hhalted] at htrue
    cases htrue
  case halts =>
    refine .cons ?_ h.halts
    intro e he
    by_contra hstop
    have hnil := h.halted (by rw [hhalts, Bool.or_eq_true]; exact .inr (by simpa using hstop))
    rw [hnil] at he
    exact List.not_mem_nil he
  case allowed =>
    intro e he
    rcases List.mem_cons.mp he with rfl | he
    · exact hallowed
    · exact h.allowed e he
  case pending =>
    intro e he
    rcases List.mem_cons.mp he with rfl | he
    · exact hpending
    · exact fun hmem => h.pending e he ((hdone _).mpr (.inl hmem))
  case again =>
    refine .cons ?_ h.again
    intro e he hrecorded heq
    exact h.pending e he ((hdone _).mpr (.inr ⟨hrecorded, heq.symm⟩))
  case done =>
    intro key
    rw [h.done key, hdone key]
    simp only [List.mem_cons, exists_eq_or_imp, or_assoc]

theorem walked_foldl (l : List HostMigrationScript) (st : PassState) :
    ∃ journal, Walked p st l (l.foldl (visit p) st) journal := by
  induction l generalizing st with
  | nil => exact ⟨[], walked_nil⟩
  | cons s l ih =>
    cases hkept : keptBack p st s with
    | some item =>
      obtain ⟨journal, h⟩ := ih { st with items := st.items ++ [item] }
      refine ⟨journal, ?_⟩
      rw [List.foldl_cons, visit, hkept]
      exact h.skip
    | none =>
      obtain ⟨journal, h⟩ := ih (runScript p st s)
      refine ⟨⟨s, p.attempts st.journal.length⟩ :: journal, ?_⟩
      rw [List.foldl_cons, visit, hkept]
      exact h.run hkept

section Order

variable (c : Collation)

theorem perm_order (scripts : List HostMigrationScript) :
    (orderHostMigrations c scripts).Perm scripts := List.perm_insertionSort _ _

instance : IsTrans HostMigrationScript fun a b => (compareScripts c a b).isLE :=
  ⟨fun _ _ _ => TransCmp.isLE_trans⟩

instance : Std.Total fun a b : HostMigrationScript => ((compareScripts c a b).isLE : Prop) := by
  constructor
  intro a b
  have hswap : compareScripts c b a = (compareScripts c a b).swap := OrientedCmp.eq_swap
  rw [hswap]
  cases compareScripts c a b <;> simp

theorem pairwise_order (scripts : List HostMigrationScript) :
    (orderHostMigrations c scripts).Pairwise fun a b => (compareScripts c a b).isLE :=
  List.pairwise_insertionSort _ scripts

/-- No two scripts have the same version and name. -/
def TieFree (scripts : List HostMigrationScript) : Prop :=
  scripts.Pairwise fun a b => compareScripts c a b ≠ .eq

theorem strict_order {scripts : List HostMigrationScript} (h : TieFree c scripts) :
    (orderHostMigrations c scripts).Pairwise fun a b => compareScripts c a b = .lt := by
  have hties : (orderHostMigrations c scripts).Pairwise fun a b => compareScripts c a b ≠ .eq := by
    apply (perm_order c scripts).symm.pairwise h
    intro a b hab hba
    exact hab (OrientedCmp.eq_comm.mp hba)
  apply ((pairwise_order c scripts).and hties).imp
  rintro a b ⟨hle, hne⟩
  revert hle hne
  cases compareScripts c a b <;> simp

end Order

/-- What a pass ran: in order, nothing behind a failure that stops it, and nothing that its phase
keeps waiting. -/
structure ProperPass (c : Collation) (p : Pass) (journal : List Entry) : Prop where
  ordered : (journal.map Entry.script).Pairwise fun a b => (compareScripts c a b).isLE
  strict : (∀ scripts ∈ p.scripts, TieFree c scripts) →
    (journal.map Entry.script).Pairwise fun a b => compareScripts c a b = .lt
  halts : journal.Pairwise fun x _ => x.halts = false
  allowed : ∀ e ∈ journal, Allowed p e.script

/-- A pass that starts with some markers runs none of their scripts, none again whose marker it
records, and adds these markers. -/
structure Recorded (before : List Text) (journal : List Entry) (after : List Text) : Prop where
  pending : ∀ e ∈ journal, e.script.key ∉ before
  again : journal.Pairwise fun x e => x.recorded = true → x.script.key ≠ e.script.key
  done : ∀ key, key ∈ after ↔ key ∈ before ∨ ∃ e ∈ journal, e.recorded = true ∧ key = e.script.key

theorem recorded_nil (done : List Text) : Recorded done [] done where
  pending e he := absurd he List.not_mem_nil
  again := .nil
  done key := by simp

theorem pass_spec (c : Collation) (p : Pass) (ledger : Ledger) :
    ProperPass c p (runHostMigrations c p ledger).2.2 ∧
      Recorded ledger.done (runHostMigrations c p ledger).2.2
        (runHostMigrations c p ledger).2.1.done := by
  have hempty : ProperPass c p [] := ⟨.nil, fun _ => .nil, .nil, fun e he => absurd he List.not_mem_nil⟩
  unfold runHostMigrations
  cases hscripts : p.scripts with
  | none => exact ⟨hempty, recorded_nil _⟩
  | some scripts =>
    dsimp only
    by_cases hmany : maxScripts < scripts.length
    · rw [if_pos hmany]
      exact ⟨hempty, recorded_nil _⟩
    · rw [if_neg hmany]
      obtain ⟨journal, h⟩ := walked_foldl (p := p) (orderHostMigrations c scripts)
        ⟨ledger, [], [], false, true, 0⟩
      have hjournal := h.journal_eq
      rw [List.nil_append] at hjournal
      dsimp only
      rw [hjournal]
      refine ⟨⟨(pairwise_order c scripts).sublist h.sublist, ?_, h.halts, h.allowed⟩,
        ⟨h.pending, h.again, h.done⟩⟩
      intro hties
      exact (strict_order c (hties scripts (by rw [hscripts]; rfl))).sublist h.sublist

/-! ## Many passes -/

inductive Happening
  | pass (p : Pass)
  | skips (key : Text) (reason : String)
  | stamps (key : Text)

def history (c : Collation) : Ledger → List Happening → List (Pass × List Entry)
  | _, [] => []
  | l, .pass p :: rest =>
    (p, (runHostMigrations c p l).2.2) :: history c (runHostMigrations c p l).2.1 rest
  | l, .skips key reason :: rest => history c { l with skipped := (key, reason) :: l.skipped } rest
  | l, .stamps key :: rest => history c { l with baseline := key :: l.baseline } rest

def journalOf (passes : List (Pass × List Entry)) : List Entry := passes.flatMap Prod.snd

theorem history_spec (c : Collation) (happenings : List Happening) (l : Ledger) :
    (∀ x ∈ history c l happenings, ProperPass c x.1 x.2) ∧
      (∀ e ∈ journalOf (history c l happenings), e.script.key ∉ l.done) ∧
      (journalOf (history c l happenings)).Pairwise fun x e =>
        x.recorded = true → x.script.key ≠ e.script.key := by
  induction happenings generalizing l with
  | nil => exact ⟨fun x hx => absurd hx List.not_mem_nil, fun e he => absurd he List.not_mem_nil, .nil⟩
  | cons happening rest ih =>
    cases happening with
    | pass p =>
      obtain ⟨hproper, hrecorded⟩ := pass_spec c p l
      obtain ⟨hrest, hpending, hagain⟩ := ih (runHostMigrations c p l).2.1
      refine ⟨?_, ?_, ?_⟩
      · intro x hx
        rcases List.mem_cons.mp hx with rfl | hx
        · exact hproper
        · exact hrest x hx
      · intro e he
        rcases List.mem_append.mp he with he | he
        · exact hrecorded.pending e he
        · exact fun hmem => hpending e he ((hrecorded.done _).mpr (.inl hmem))
      · refine List.pairwise_append.mpr ⟨hrecorded.again, hagain, ?_⟩
        intro x hx e he hmark heq
        exact hpending e he ((hrecorded.done _).mpr (.inr ⟨x, hx, hmark, heq.symm⟩))
    | skips key reason => exact ih { l with skipped := (key, reason) :: l.skipped }
    | stamps key => exact ih { l with baseline := key :: l.baseline }

/-- In every sequence of passes a script with a recorded marker is not run again, and each pass runs
its scripts in order, strictly so where no two of the catalog tie, none behind a blocking failure
and none above the release that its phase allows. -/
theorem host_migrations_run_once_in_order (c : Collation) (happenings : List Happening) (l : Ledger) :
    (journalOf (history c l happenings)).Pairwise
        (fun x e => x.recorded = true → x.script.key ≠ e.script.key) ∧
      (∀ e ∈ journalOf (history c l happenings), e.script.key ∉ l.done) ∧
      ∀ x ∈ history c l happenings, ProperPass c x.1 x.2 :=
  ⟨(history_spec c happenings l).2.2, (history_spec c happenings l).2.1,
    (history_spec c happenings l).1⟩

/-! ### Two directories of one release -/

def script (version : String) (h : version.toList.length ≤ 255) : HostMigrationScript where
  version := version.toList
  name := "0001-a.sh".toList
  body := []
  short := h

def noMarkers : Ledger := ⟨[], [], [], fun _ => 0⟩

/-- A version may be written with a `v`. -/
def twoDirectories : Pass where
  scripts := some [script "2026.10.7" (by decide), script "v2026.10.7" (by decide)]
  enforcing := true
  servicesVersion := none
  attempts _ := .marked

def asciiCollation : Collation where
  localeCompare a b := compare (a.map Char.toNat) (b.map Char.toNat)
  trans := transCmp_comap (List.map Char.toNat) compare

theorem tied_scripts_both_run : ¬ ∀ (c : Collation) (happenings : List Happening) (l : Ledger),
      ∀ x ∈ history c l happenings,
        (x.2.map Entry.script).Pairwise fun a b => compareScripts c a b = .lt := by
  intro h
  have hrun : (runHostMigrations asciiCollation twoDirectories noMarkers).2.2 =
      [⟨script "2026.10.7" (by decide), .marked⟩, ⟨script "v2026.10.7" (by decide), .marked⟩] := by
    decide +kernel
  have hpass := h asciiCollation [.pass twoDirectories] noMarkers _ List.mem_cons_self
  rw [hrun] at hpass
  have hlt := List.rel_of_pairwise_cons hpass List.mem_cons_self
  have heq : compareScripts asciiCollation (script "2026.10.7" (by decide))
      (script "v2026.10.7" (by decide)) = .eq := by
    decide +kernel
  rw [heq] at hlt
  cases hlt

end Insula.HostMigrations
