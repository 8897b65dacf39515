import Insula.Javascript
import Insula.Paths

/-!
# Commands of the file gateway

A session that is not plain SFTP carries a command line. The gateway runs it beside the files of the
tenant, not confined by a root of its own, after it has put every argument it takes for a path under
the directory of the user and has refused the options it knows to be dangerous.
-/

namespace Insula.SftpGateway

open Paths
open Go (isSpace)

/-! ## Go's strings -/

/-- `strings.Fields`: the runs of characters that are not spaces. -/
def fields (s : Text) : List Text := (s.splitOnP isSpace).filter (· ≠ [])

def dashed (s : Text) : Prop := s.head? = some '-'

instance (s : Text) : Decidable (dashed s) := inferInstanceAs (Decidable (_ = _))

def trimPrefixSlash : Text → Text
  | '/' :: s => s
  | s => s

def trimSuffixE (s : Text) : Text := if s.getLast? = some 'e' then s.dropLast else s

def trimSlashes (s : Text) : Text := (s.dropWhile (· = '/')).rdropWhile (· = '/')

/-- What stands before the first `=`, and after it where there is one. -/
def cutEquals (arg : Text) : Text × Option Text :=
  if '=' ∈ arg then (arg.takeWhile (· ≠ '='), some ((arg.dropWhile (· ≠ '=')).drop 1)) else (arg, none)

/-! ## Paths -/

/-- A path argument, cleaned and put under `dataRoot`. -/
def sanitizePath (arg dataRoot : Text) : Text :=
  if Char.ofNat 0 ∈ arg then dataRoot
  else
    let trailingSlash := arg.getLast? = some '/'
    let cleaned := clean ('/' :: arg)
    let joined := clean (dataRoot ++ cleaned)
    let joined := if ¬(dataRoot ++ ['/']) <+: joined ∧ joined ≠ dataRoot then dataRoot else joined
    if trailingSlash ∧ joined.getLast? ≠ some '/' then joined ++ ['/'] else joined

def confineHome (homePath : Text) : Text :=
  if Char.ofNat 0 ∈ homePath then ['/']
  else
    let sub := trimSlashes homePath
    if sub = [] then ['/']
    else if ['.', '.'] ∈ sub.splitOn '/' then ['/']
    else
      let candidate := clean ('/' :: sub)
      if candidate = ['/'] ∨ ['/'] <+: candidate then candidate else ['/']

/-! ## scp -/

def scpAllowedFlags : List Char := ['t', 'f', 'r', 'p', 'd', 'v', 'E']

/-- One argument after the name of the program; `none` refuses the session. -/
def rewriteSCPArg (dataRoot arg : Text) : Option Text :=
  if dashed arg then
    if ∀ c ∈ arg.drop 1, c ∈ scpAllowedFlags then some arg else none
  else some (sanitizePath arg dataRoot)

def rewriteSCPCommand (cmd dataRoot : Text) : Option (List Text) :=
  match fields cmd with
  | [] => none
  | program :: args => (args.mapM (rewriteSCPArg dataRoot)).map (program :: ·)

/-! ## rsync -/

def rsyncDeniedLongFlags : List String :=
  ["--daemon", "--config", "--rsh", "--server-alias", "--copy-devices", "--write-devices",
    "--munge-links", "--remove-source-files", "--remove-sent-files", "--sockopts", "--rsync-path",
    "--log-file-format", "--protect-args", "--secluded-args", "--copy-links",
    "--copy-unsafe-links", "--copy-dirlinks", "--keep-dirlinks", "--trust-sender", "--filter",
    "--remote-option"]

def rsyncPathBearingLongFlags : List String :=
  ["--files-from", "--exclude-from", "--include-from", "--log-file", "--partial-dir", "--temp-dir",
    "--compare-dest", "--copy-dest", "--link-dest", "--backup-dir"]

def Denied (name : Text) : Prop := String.ofList name ∈ rsyncDeniedLongFlags

def PathBearing (name : Text) : Prop := String.ofList name ∈ rsyncPathBearingLongFlags

instance (name : Text) : Decidable (Denied name) := inferInstanceAs (Decidable (_ ∈ _))

instance (name : Text) : Decidable (PathBearing name) := inferInstanceAs (Decidable (_ ∈ _))

def rsyncDeniedLetters : Text := ['e', 's', 'L', 'K', 'k', 'f', 'M', 'T']

/-- The letters of a bundle that are looked at: those before the first dot, less the `e` that tells
the server that its client came through a remote shell. -/
def checkedLetters (opts : Text) : Text :=
  if '.' ∈ opts then trimSuffixE (opts.takeWhile (· ≠ '.')) else opts

/-- The arguments after the name of the program; `none` refuses the session. -/
def rewriteRsyncArgs (dataRoot : Text) : List Text → Option (List Text)
  | [] => some []
  | arg :: rest =>
    if ¬dashed arg then
      -- the reference directory of the protocol stays
      (rewriteRsyncArgs dataRoot rest).map
        ((if arg = ['.'] then arg else sanitizePath arg dataRoot) :: ·)
    else if ['-', '-'] <+: arg then
      let (name, value) := cutEquals arg
      if Denied name then none
      else if PathBearing name then
        match value with
        | some val =>
          if val = ['-'] then none
          else
            (rewriteRsyncArgs dataRoot rest).map
              ((if val ≠ [] then name ++ '=' :: sanitizePath val dataRoot else arg) :: ·)
        | none =>
          -- the value is the next argument, whatever it looks like
          match rest with
          | [] => some [arg]
          | val :: rest =>
            if val = ['-'] then none
            else (rewriteRsyncArgs dataRoot rest).map (arg :: sanitizePath val dataRoot :: ·)
      else (rewriteRsyncArgs dataRoot rest).map (arg :: ·)
    else if ∃ c ∈ checkedLetters (arg.drop 1), c ∈ rsyncDeniedLetters then none
    else (rewriteRsyncArgs dataRoot rest).map (arg :: ·)

def rewriteRsyncCommand (cmd dataRoot : Text) : Option (List Text) :=
  match fields cmd with
  | [] => none
  | program :: args => (rewriteRsyncArgs dataRoot args).map (program :: ·)

/-! ## The session -/

inductive Protocol
  | sftp | scp | rsync | exec
deriving DecidableEq, Repr

def dataRoot (homePath : Text) : Text := clean ("/data/".toList ++ trimPrefixSlash homePath)

/-- The command that is run in the pod of the files; `none` rejects the session. -/
def buildCommand (protocol : Protocol) (rawCmd : Option Text) (homePath : Text) :
    Option (List Text) :=
  let dataRoot := dataRoot homePath
  let server := some ["/usr/lib/ssh/sftp-server".toList, "-e".toList, "-d".toList, dataRoot]
  match protocol with
  | .sftp =>
    some ["sftp-serve".toList, "--root".toList, "/data".toList, "--home".toList, confineHome homePath]
  | .scp => rawCmd.elim server (rewriteSCPCommand · dataRoot)
  | .rsync => rawCmd.elim server (rewriteRsyncCommand · dataRoot)
  | .exec => none

/-! ## What the rewriting places under the root -/

theorem atOrBelow_sanitizePath (arg : Text) {dataRoot : Text} (h : Rooted dataRoot) :
    AtOrBelow dataRoot (sanitizePath arg dataRoot) := by
  have hself := AtOrBelow.refl h
  have hjoined : AtOrBelow dataRoot (clean (dataRoot ++ clean ('/' :: arg))) := by
    refine ⟨rooted_clean _, ?_⟩
    rw [parts_clean, parts_append_clean]
    exact List.prefix_append _ _
  have hplaced : ∀ p, p = dataRoot ∨ p = clean (dataRoot ++ clean ('/' :: arg)) →
      AtOrBelow dataRoot p := by
    rintro p (rfl | rfl)
    · exact hself
    · exact hjoined
  unfold sanitizePath
  dsimp only
  split_ifs
  · exact hself
  · exact (hplaced _ (.inl rfl)).slash
  · exact hplaced _ (.inl rfl)
  · exact (hplaced _ (.inr rfl)).slash
  · exact hplaced _ (.inr rfl)

theorem not_dashed_of_rooted {path : Text} (h : Rooted path) : ¬dashed path := by
  unfold Rooted at h
  unfold dashed
  rw [h]
  decide

end Insula.SftpGateway
