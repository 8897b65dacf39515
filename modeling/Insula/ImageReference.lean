import Insula.WildcardHostname

/-!
# Image references and version tags

`custom-deployments`: the reference of a container image, as registries, repositories, tags and
digests are read from it, and tags that are versions, with which of two is newer.
-/

namespace Insula.CustomDeployments

open Javascript
open scoped Lookup

abbrev Text := List Char

structure ParsedImageReference where
  registryHost : Text
  repository : Text
  tag : Option Text
  digest : Option Text
  deriving DecidableEq

def lowerHex (c : Char) : Bool := ('0' ≤ c && c ≤ '9') || ('a' ≤ c && c ≤ 'f')

/-- `/^sha256:[0-9a-f]{64}$/`. -/
def digestRegex (s : Text) : Bool :=
  "sha256:".toList.isPrefixOf s && (s.drop 7).length = 64 && (s.drop 7).all lowerHex

def wordChar (c : Char) : Bool := c.isAlphanum || c = '_'

/-- `/^[a-zA-Z0-9_][a-zA-Z0-9_.-]{0,127}$/`. -/
def tagRegex : Text → Bool
  | [] => false
  | c :: rest => wordChar c && rest.length ≤ 127 && rest.all fun d => wordChar d || d = '.' || d = '-'

inductive SegmentState
  | separated
  | word
  | underscore
  | hyphens
  deriving DecidableEq

/-- One character of `[a-z0-9]+(?:(?:[._]|__|[-]+)[a-z0-9]+)*`. -/
def SegmentState.read (c : Char) : SegmentState → Option SegmentState
  | .separated => if WildcardHostname.alnum c then some .word else none
  | .word =>
    if WildcardHostname.alnum c then some .word
    else if c = '.' then some .separated
    else if c = '_' then some .underscore
    else if c = '-' then some .hyphens
    else none
  | .underscore =>
    if WildcardHostname.alnum c then some .word
    else if c = '_' then some .separated
    else none
  | .hyphens =>
    if WildcardHostname.alnum c then some .word
    else if c = '-' then some .hyphens
    else none

def segmentFrom (state : SegmentState) : Text → Bool
  | [] => state = .word
  | c :: rest => (state.read c).any fun next => segmentFrom next rest

def repoSegmentRegex (segment : Text) : Bool := segmentFrom .separated segment

def cutLast (c : Char) (s : Text) : Option (Text × Text) :=
  if c ∈ s then some (((s.rdropWhile (· ≠ c)).dropLast), s.rtakeWhile (· ≠ c)) else none

def cutFirst (c : Char) (s : Text) : Option (Text × Text) :=
  if c ∈ s then some (s.takeWhile (· ≠ c), (s.dropWhile (· ≠ c)).tail) else none

def splitTag (beforeDigest : Text) : Option (Text × Option Text) :=
  match cutLast ':' beforeDigest with
  | some (before, tagPart) =>
    if '/' ∈ tagPart then some (beforeDigest, none)
    else if tagRegex tagPart then some (before, some tagPart)
    else none
  | none => some (beforeDigest, none)

def splitDigest (input : Text) : Option (Text × Option Text) :=
  match cutLast '@' input with
  | some (before, digestPart) =>
    if digestRegex digestPart then some (before, some digestPart) else none
  | none => some (input, none)

def splitHost (beforeTag : Text) : Option (Text × Text) :=
  match cutFirst '/' beforeTag with
  | none =>
    if repoSegmentRegex beforeTag then some ("docker.io".toList, "library/".toList ++ beforeTag)
    else none
  | some (first, rest) =>
    let looksLikeHost := '.' ∈ first ∨ ':' ∈ first ∨ first = "localhost".toList
    let (registryHost, repository) :=
      if looksLikeHost then (first, rest) else ("docker.io".toList, beforeTag)
    if (repository.splitOn '/').all repoSegmentRegex then some (registryHost, repository) else none

def parseImageReference (raw : Text) : Option ParsedImageReference := do
  let input := trim raw
  if input = [] ∨ utf16Length input > 500 then none
  else do
    let (beforeDigest, digest) ← splitDigest input
    let (beforeTag, tag) ← splitTag beforeDigest
    let (registryHost, repository) ← splitHost beforeTag
    return { registryHost := registryHost, repository := repository, tag := tag, digest := digest }

/-! ## Version tags -/

structure SemverVersion where
  major : ℕ
  minor : ℕ
  patch : ℕ
  pre : Option Text
  deriving DecidableEq

def readDigits (s : Text) : Option (ℕ × Text) :=
  let digits := s.takeWhile Char.isDigit
  if digits = [] then none else some (number digits, s.dropWhile Char.isDigit)

def readDot : Text → Option Text
  | '.' :: rest => some rest
  | _ => none

/-- `(?:[-.]([0-9A-Za-z.-]+))?$`. -/
def readPre : Text → Option (Option Text)
  | [] => some none
  | c :: pre =>
    if (c = '-' ∨ c = '.') ∧ pre ≠ [] ∧ ∀ d ∈ pre, d.isAlphanum ∨ d = '.' ∨ d = '-' then
      some (some pre)
    else none

/-- `/^v?(\d+)\.(\d+)\.(\d+)(?:[-.]([0-9A-Za-z.-]+))?$/`. -/
def parseSemver (tag : Text) : Option SemverVersion := do
  let s := trim tag
  let s := if s.head? = some 'v' then s.tail else s
  let (major, s) ← readDigits s
  let s ← readDot s
  let (minor, s) ← readDigits s
  let s ← readDot s
  let (patch, s) ← readDigits s
  let pre ← readPre s
  return { major := major, minor := minor, patch := patch, pre := pre }

def compareSemver (a b : SemverVersion) : Ordering :=
  if a.major ≠ b.major then compare a.major b.major
  else if a.minor ≠ b.minor then compare a.minor b.minor
  else if a.patch ≠ b.patch then compare a.patch b.patch
  else
    match a.pre, b.pre with
    | none, none => .eq
    | none, some _ => .gt
    | some _, none => .lt
    | some p, some q => if p = q then .eq else if p < q then .lt else .gt

inductive UpdateCheckStatus
  | noUpdate
  | patch
  | minor
  | major
  | unknown
  | digest
  deriving DecidableEq

def classifyBump (current latest : SemverVersion) : UpdateCheckStatus :=
  if latest.major > current.major then .major
  else if latest.major < current.major then .noUpdate
  else if latest.minor > current.minor then .minor
  else if latest.minor < current.minor then .noUpdate
  else if latest.patch > current.patch then .patch
  else .noUpdate

def pickLatestStable (tags : List Text) (current : SemverVersion) : Option (Text × SemverVersion) :=
  tags.foldl
    (fun best raw =>
      match parseSemver raw with
      | none => best
      | some v =>
        if v.pre ≠ none ∨ compareSemver v current ≠ .gt then best
        else
          match best with
          | none => some (raw, v)
          | some b => if compareSemver v b.2 = .gt then some (raw, v) else best)
    none

example : parseImageReference "ghcr.io/owner/app:1.2".toList =
    some ⟨"ghcr.io".toList, "owner/app".toList, some "1.2".toList, none⟩ := by
  rfl

end Insula.CustomDeployments
