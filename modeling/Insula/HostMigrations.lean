import Insula.NodeReports
import Mathlib.Data.List.Sort

/-!
# One pass of the host migrations

A node walks the scripts of its catalog in the order of their versions and names. A script runs
unless a marker on the node, its phase, the mode of the pass or an earlier failure keeps it back.
What became of each script is reported, and the runs of a pass are kept in a journal.
-/

namespace Insula.HostMigrations

open Std Versions
open scoped DnsServers
open Javascript (compareNumbers isSpace trim)
open PlatformUpgrade (HostMigrationPhase HostMigrationState)

/-! ## Scripts -/

structure HostMigrationScript where
  version : Text
  name : Text
  body : Text
  /-- The version is the name of a directory. -/
  short : version.length ≤ 255
deriving DecidableEq

namespace HostMigrationScript

variable (s : HostMigrationScript)

def key : Text := s.version ++ '/' :: s.name

end HostMigrationScript

def lowerAlnum (c : Char) : Bool := c.isLower || c.isDigit

/-- `/^[0-9]{3,}-[a-z0-9][a-z0-9-]*\.sh$/`. -/
def nameRe (name : Text) : Bool :=
  let rest := name.dropWhile Char.isDigit
  let slug := (rest.drop 1).takeWhile (· ≠ '.')
  3 ≤ (name.takeWhile Char.isDigit).length && rest.head? = some '-' &&
    slug.head?.any lowerAlnum && (slug.all fun c => lowerAlnum c || c = '-') &&
    (rest.drop 1).dropWhile (· ≠ '.') = ".sh".toList

def hostMigrationValid (s : HostMigrationScript) : Bool := isValidVersion s.version && nameRe s.name

/-- `/^#\s*name:\s*(\S+)/i` on a trimmed line, the value in lower case. -/
def headerValue (name : Text) (line : Text) : Option Text :=
  match trim line with
  | '#' :: rest =>
    let field := rest.dropWhile isSpace
    let value := ((field.drop (name.length + 1)).dropWhile isSpace).takeWhile (! isSpace ·)
    if (field.take (name.length + 1)).map Char.toLower = name ++ [':'] ∧ value ≠ [] then
      some (value.map Char.toLower)
    else none
  | _ => none

def header (name : String) (body : Text) : Option Text :=
  ((body.splitOn '\n').take 40).findSome? (headerValue name.toList)

def hostMigrationPhase (body : Text) : Option HostMigrationPhase :=
  match header "phase" body with
  | none => some .beforeServices
  | some v =>
    if v = "before-services".toList then some .beforeServices
    else if v = "after-services".toList then some .afterServices
    else none

def hostMigrationBlocksOnFailure (body : Text) : Bool :=
  header "blocks-on-failure" body ≠ some "no".toList

def HostMigrationScript.phase (s : HostMigrationScript) : Option HostMigrationPhase :=
  if hostMigrationValid s then hostMigrationPhase s.body else none

structure Collation where
  localeCompare : Text → Text → Ordering
  trans : TransCmp localeCompare

section Order

variable (c : Collation)

def compareScripts (a b : HostMigrationScript) : Ordering :=
  (compareVersions a.version b.version).then (c.localeCompare a.name b.name)

theorem compareScripts_eq : compareScripts c =
    compareLex (fun a b => compareTexts compareNumbers compareNumbers a.version b.version)
      fun a b => c.localeCompare a.name b.name := by
  funext a b
  rw [compareScripts, compareVersions_eq (finite_of_length a.short), compareLex]

instance : TransCmp (compareScripts c) := by
  have := c.trans
  have := transCmp_comap HostMigrationScript.version (compareTexts compareNumbers compareNumbers)
  have := transCmp_comap HostMigrationScript.name c.localeCompare
  rw [compareScripts_eq]
  infer_instance

def orderHostMigrations (scripts : List HostMigrationScript) : List HostMigrationScript :=
  scripts.insertionSort fun a b => (compareScripts c a b).isLE

end Order

def servicesReachedRelease (servicesVersion : Option Text) (scriptVersion : Text) : Bool :=
  match servicesVersion with
  | none => false
  | some v =>
    match parseVersion (stripV (trim v)) with
    | none => false
    | some p => v ≠ [] && (compareVersions p.base scriptVersion).isGE

/-! ## Passes -/

structure Ledger where
  done : List Text
  skipped : List (Text × String)
  baseline : List Text
  failures : Text → ℕ

namespace Ledger

variable (l : Ledger)

def isApplied (key : Text) : Bool := key ∈ l.done

def readSkip (key : Text) : Option String := (l.skipped.find? (·.1 = key)).map Prod.snd

def readBaseline (key : Text) : Bool := key ∈ l.baseline

def markApplied (key : Text) : Ledger := { l with done := key :: l.done }

def noteFailure (key : Text) : Ledger :=
  { l with failures := fun k => if k = key then l.failures k + 1 else l.failures k }

def clearFailure (key : Text) : Ledger :=
  { l with failures := fun k => if k = key then 0 else l.failures k }

end Ledger

inductive Attempt
  | fails (error : String)
  | unmarked (error : String) (landed : Bool)
  | marked
deriving DecidableEq

structure ReportItem where
  key : Text
  state : HostMigrationState
  phase : Option HostMigrationPhase
  skipReason : Option String := none
  baseline : Bool := false
  error : Option String := none
  attempt : Option ℕ := none

structure Entry where
  script : HostMigrationScript
  attempt : Attempt
deriving DecidableEq

def Entry.recorded (e : Entry) : Bool :=
  match e.attempt with
  | .fails _ => false
  | .unmarked _ landed => landed
  | .marked => true

structure Pass where
  scripts : Option (List HostMigrationScript)
  enforcing : Bool
  servicesVersion : Option Text
  attempts : ℕ → Attempt

structure PassState where
  ledger : Ledger
  items : List ReportItem
  journal : List Entry
  halted : Bool
  ok : Bool
  appliedCount : ℕ

section Walk

variable (p : Pass)

/-- Why a script is not run, as it is reported; `none` when it is run. -/
def keptBack (st : PassState) (s : HostMigrationScript) : Option ReportItem :=
  match s.phase with
  | none => some { key := s.key, state := .invalid, phase := none }
  | some phase =>
    if st.ledger.isApplied s.key then
      some { key := s.key, state := .alreadyApplied, phase := some phase }
    else
      match st.ledger.readSkip s.key with
      | some reason =>
        some { key := s.key, state := .skipped, phase := some phase, skipReason := some reason }
      | none =>
        if st.ledger.readBaseline s.key then
          some { key := s.key, state := .alreadyApplied, phase := some phase, baseline := true }
        else if phase = .afterServices ∧ ! servicesReachedRelease p.servicesVersion s.version then
          some { key := s.key, state := .deferred, phase := some phase }
        else if ! p.enforcing then some { key := s.key, state := .wouldRun, phase := some phase }
        else if st.halted then some { key := s.key, state := .blocked, phase := some phase }
        else none

def failedItem (s : HostMigrationScript) (error : String) (ledger : Ledger) : ReportItem where
  key := s.key
  state := .runFailed
  phase := s.phase
  error := some error
  attempt := some (ledger.failures s.key)

def runScript (st : PassState) (s : HostMigrationScript) : PassState :=
  let attempt := p.attempts st.journal.length
  let journal := st.journal ++ [⟨s, attempt⟩]
  match attempt with
  | .fails error =>
    let ledger := st.ledger.noteFailure s.key
    { st with
      ledger := ledger
      journal := journal
      ok := false
      halted := st.halted || hostMigrationBlocksOnFailure s.body
      items := st.items ++ [failedItem s error ledger] }
  | .unmarked error landed =>
    let marked := if landed then st.ledger.markApplied s.key else st.ledger
    let ledger := marked.noteFailure s.key
    { st with
      ledger := ledger
      journal := journal
      ok := false
      halted := true
      items := st.items ++ [failedItem s ("applied but marker write failed: " ++ error) ledger] }
  | .marked =>
    { st with
      ledger := (st.ledger.markApplied s.key).clearFailure s.key
      journal := journal
      items := st.items ++ [{ key := s.key, state := .applied, phase := s.phase }]
      appliedCount := st.appliedCount + 1 }

def visit (st : PassState) (s : HostMigrationScript) : PassState :=
  match keptBack p st s with
  | some item => { st with items := st.items ++ [item] }
  | none => runScript p st s

end Walk

def maxScripts : ℕ := 500

inductive Mode
  | enforce
  | dryRun
deriving DecidableEq

structure HostMigrationResult where
  ok : Bool
  mode : Mode
  items : List ReportItem
  appliedCount : ℕ
  reason : Option String := none

def tooMany (count : ℕ) : String :=
  "host-migration catalog has " ++ toString count ++ " scripts (> 500 cap) — refusing"

def runHostMigrations (c : Collation) (p : Pass) (ledger : Ledger) :
    HostMigrationResult × Ledger × List Entry :=
  let mode := if p.enforcing then Mode.enforce else .dryRun
  match p.scripts with
  | none => (⟨true, mode, [], 0, none⟩, ledger, [])
  | some scripts =>
    if maxScripts < scripts.length then
      (⟨false, mode, [], 0, some (tooMany scripts.length)⟩, ledger, [])
    else
      let st := (orderHostMigrations c scripts).foldl (visit p) ⟨ledger, [], [], false, true, 0⟩
      (⟨st.ok, mode, st.items, st.appliedCount, none⟩, st.ledger, st.journal)

end Insula.HostMigrations
