import Insula.Javascript

/-!
# Retention of the disaster-recovery artefacts

`backup-schedules/retention-policy` and `dr-artefact-retention`: which copies of an artefact a
policy removes, by the stamps in their names; and the prune that each artefact's Job runs after its
upload, which sorts the names.
-/

namespace Insula.BackupSchedules

open Javascript (utf16)

abbrev Text := List Char

/-! ## The rule -/

structure RetentionPolicy where
  days : Option ℕ
  count : Option ℕ
  deriving DecidableEq

structure StoredRetention where
  retentionDays : Option ℤ
  retentionCount : Option ℤ

def keepEverything : RetentionPolicy := { days := none, count := none }

inductive RetentionSubsystem
  | tenantBundle
  | mail
  | etcdSnapshot
  | secretsBundle
  | clusterState
  deriving DecidableEq

def unsetFallback : RetentionSubsystem → RetentionPolicy
  | .tenantBundle => { days := some 30, count := none }
  | .mail => { days := none, count := some 48 }
  | .etcdSnapshot => { days := none, count := some 24 }
  | .secretsBundle => { days := none, count := some 30 }
  | .clusterState => { days := none, count := some 14 }

def limit (n : Option ℤ) : Option ℕ := (n.filter fun n => 0 < n).map Int.toNat

def effectiveRetention (subsystem : RetentionSubsystem) (row : Option StoredRetention) :
    RetentionPolicy :=
  match row with
  | none => unsetFallback subsystem
  | some row =>
    let days := limit row.retentionDays
    let count := limit row.retentionCount
    if days ≠ none ∨ count ≠ none then { days := days, count := count }
    else if subsystem = .tenantBundle ∧ row.retentionDays = some 0 then keepEverything
    else unsetFallback subsystem

def jobUnlimitedCount : ℕ := 1000000

def jobCount (policy : RetentionPolicy) : ℕ := policy.count.getD jobUnlimitedCount

structure RetainedCopy where
  createdAt : ℤ
  key : Text
  deriving DecidableEq

def dayMs : ℤ := 24 * 60 * 60 * 1000

def compareCopies (a b : RetainedCopy) : ℤ :=
  let t := b.createdAt - a.createdAt
  if t ≠ 0 then t
  else if utf16 a.key < utf16 b.key then 1
  else if utf16 b.key < utf16 a.key then -1
  else 0

def ordered (copies : List RetainedCopy) : List RetainedCopy :=
  copies.mergeSort fun a b => compareCopies a b ≤ 0

def selectForRemoval (copies : List RetainedCopy) (policy : RetentionPolicy) (now : ℤ) :
    List RetainedCopy :=
  let cutoff := policy.days.map fun days : ℕ => now - days * dayMs
  ((ordered copies).zipIdx.filter fun (c, rank) =>
    0 < rank && ((cutoff.any fun cutoff => c.createdAt < cutoff) ||
      policy.count.any fun count => count ≤ rank)).map Prod.fst

/-! ## Stamps -/

section Stamps

def digits : Text → Option ℕ :=
  fun s => if s.all Char.isDigit then some (s.foldl (fun n c => 10 * n + (c.toNat - 48)) 0) else none

structure Stamp where
  year : ℕ
  month : ℕ
  day : ℕ
  hour : ℕ
  minute : ℕ
  second : ℕ
  deriving DecidableEq

/-- `(\d{4})(\d{2})(\d{2})T(\d{2})(\d{2})(\d{2})Z`, at the beginning of a text. -/
def stampFirst : Text → Option Stamp
  | y₁ :: y₂ :: y₃ :: y₄ :: m₁ :: m₂ :: d₁ :: d₂ :: 'T' :: h₁ :: h₂ :: n₁ :: n₂ :: s₁ :: s₂ :: 'Z' :: _ => do
      let year ← digits [y₁, y₂, y₃, y₄]
      let month ← digits [m₁, m₂]
      let day ← digits [d₁, d₂]
      let hour ← digits [h₁, h₂]
      let minute ← digits [n₁, n₂]
      let second ← digits [s₁, s₂]
      return { year, month, day, hour, minute, second }
  | _ => none

def stampIn : Text → Option Stamp
  | [] => none
  | c :: rest => (stampFirst (c :: rest)).or (stampIn rest)

def leapYear (y : ℤ) : Bool := y % 4 = 0 && (y % 100 ≠ 0 || y % 400 = 0)

def dayFromYear (y : ℤ) : ℤ :=
  365 * (y - 1970) + (y - 1969) / 4 - (y - 1901) / 100 + (y - 1601) / 400

def dayFromMonth (y : ℤ) (month : ℤ) : ℤ :=
  ([0, 31, 59, 90, 120, 151, 181, 212, 243, 273, 304, 334] : List ℤ).getD month.toNat 0 +
    if 2 ≤ month && leapYear y then 1 else 0

/-- `Date.UTC(y, m - 1, d, h, min, s)`: years of two digits are of the twentieth century, and months
may run over. -/
def dateUtc (s : Stamp) : ℤ :=
  let year : ℤ := if s.year ≤ 99 then 1900 + s.year else s.year
  let month : ℤ := s.month - 1
  let ym := year + month / 12
  let mn := month % 12
  let day := dayFromYear ym + dayFromMonth ym mn + s.day - 1
  day * dayMs + s.hour * 3600000 + s.minute * 60000 + s.second * 1000

def baseName (key : Text) : Text := key.rtakeWhile (· ≠ '/')

def stampOf (key : Text) : Option ℤ := (stampIn (baseName key)).map dateUtc

end Stamps

/-! ## Artefacts -/

structure DrArtefactSpec where
  subsystem : RetentionSubsystem
  bucket : Text
  /-- `prefix`: it ends in a slash. -/
  keyPrefix : Text
  isCopy : Text → Bool
  companions : Text → List Text

def namedCopy (first last key : Text) : Bool :=
  key.any (· = '/') && first.isPrefixOf (baseName key) && last.isSuffixOf (baseName key) &&
    first.length + last.length < (baseName key).length

section Specs

variable (clusterId : Text)

def etcdSpec : DrArtefactSpec where
  subsystem := .etcdSnapshot
  bucket := "system".toList
  keyPrefix := "etcd/".toList ++ clusterId ++ "/".toList
  isCopy key := ".db".toList.isSuffixOf key
  companions key := [key ++ ".meta".toList]

def secretsSpec : DrArtefactSpec where
  subsystem := .secretsBundle
  bucket := "system".toList
  keyPrefix := "dr/secrets/".toList
  isCopy := namedCopy "secrets-".toList ".tar.age".toList
  companions _ := []

def clusterStateSpec : DrArtefactSpec where
  subsystem := .clusterState
  bucket := "system".toList
  keyPrefix := "dr/cluster-state/".toList
  isCopy := namedCopy "cluster-state-".toList ".tar.gz".toList
  companions _ := []

def drArtefactSpecs : List DrArtefactSpec := [etcdSpec clusterId, secretsSpec, clusterStateSpec]

end Specs

def childName (keyPrefix key : Text) : Option Text :=
  if keyPrefix.isPrefixOf key && ! (key.drop keyPrefix.length).any (· = '/') then
    some (key.drop keyPrefix.length)
  else none

def copiesOf (spec : DrArtefactSpec) (objects : List Text) : List RetainedCopy :=
  (objects.filter fun key => (childName spec.keyPrefix key).isSome && spec.isCopy key).flatMap
  fun key =>
    match stampOf key with
    | none => []
    | some createdAt => [{ createdAt := createdAt, key := key }]

def planArtefactRemoval (spec : DrArtefactSpec) (objects : List Text) (policy : RetentionPolicy)
    (now : ℤ) : List Text :=
  (selectForRemoval (copiesOf spec objects) policy now).flatMap fun c =>
    c.key :: (spec.companions c.key).filter fun companion => objects.any (· = companion)

/-! ## The prunes of the Jobs -/

/-- What a Job's own prune evicts: of the names that `grep` lets through, in reverse order, all
after the first `keep`; nothing where `keep` is not positive. -/
def evicts (grep : Text → Bool) (keep : ℕ) (names : List Text) : List Text :=
  if 1 ≤ keep then
    ((names.filter grep).mergeSort fun a b => ! decide (a.map Char.toNat < b.map Char.toNat)).drop keep
  else []

def etcdGrep (name : Text) : Bool := ".db".toList.isSuffixOf name

def namedGrep (first last name : Text) : Bool :=
  first.isPrefixOf name && last.isSuffixOf name && first.length + last.length ≤ name.length

def secretsGrep : Text → Bool := namedGrep "secrets-".toList ".tar.age".toList

def clusterStateGrep : Text → Bool := namedGrep "cluster-state-".toList ".tar.gz".toList

example : stampOf ("etcd/cid/etcd-snap-via-shim-29868540-g8cxv-20261016T010001Z-etcd-snapshot-lab-1-" ++
    "1792108804.db").toList = some 1792112401000 := by
  rfl

end Insula.BackupSchedules
