import Insula.FileConfinement
import Insula.FileMoves

/-!
# Restoring from the recycle bin

`trash.mjs`: a payload is found by its id, the path it came from is read from metadata that the
tenant may have written, and it is checked like the path of a request. What stands at the target is
removed, left alone or avoided, the directories above are made, and the payload is moved there.
Every call of the file system may fail.
-/

namespace Insula.FileManager

open Paths FileTree

variable {α : Type}

def filesDirname : Text := "files".toList

def infoDirname : Text := "info".toList

def trashRoot : Text := join base [trashDirname]

def filesRoot : Text := join trashRoot [filesDirname]

def infoRoot : Text := join trashRoot [infoDirname]

def isInsideTrash (abs : Text) : Bool := abs = trashRoot || (trashRoot ++ ['/']).isPrefixOf abs

/-! ## Names -/

def relDirname (path : Text) : Text :=
  let above := ((stripTrailingSlashes path).reverse.dropWhile (· ≠ '/')).reverse
  if above = [] then ['.'] else above.dropLast

def basename (path : Text) : Text := ((stripTrailingSlashes path).reverse.takeWhile (· ≠ '/')).reverse

def extname (name : Text) : Text :=
  let after := (name.reverse.takeWhile (· ≠ '.')).reverse
  if name = ['.', '.'] ∨ name.length ≤ after.length + 1 then [] else '.' :: after

def suffixName (relPath : Text) (n : ℕ) : Text :=
  let tag := if n = 1 then " (restored)".toList else " (restored ".toList ++ (toString n).toList ++ [')']
  let ext := extname (basename relPath)
  let stem := (basename relPath).take ((basename relPath).length - ext.length)
  let next := stem ++ tag ++ ext
  if relDirname relPath = ['.'] then next else relDirname relPath ++ '/' :: next

/-! ## What fails -/

/-- The calls that fail, each for the path it is about; an error of `realpath` on the way of a path
is another than that something is missing. -/
structure Faults where
  realpath : Text → Bool
  lstat : Text → Bool
  stat : Text → Bool
  /-- What `rm` does not get to before it fails. -/
  rm : Option (List Loc)
  /-- How many directories `mkdir` makes or finds before it fails. -/
  mkdir : Option ℕ
  chown : Bool
  rename : Bool
  unlink : Bool

structure Volume (α : Type) where
  tree : FsTree α
  locs : List Loc
  complete : ∀ loc, tree.node loc ≠ none → loc ∈ locs

def Volume.ofEntries (entries : List (Loc × Node α))
    (hroot : ((entries.find? (·.1 = [])).map fun e => e.2.kind) = some .dir)
    (hparent : ∀ e ∈ entries, e.1 ≠ [] →
      ((entries.find? (·.1 = e.1.dropLast)).map fun e => e.2.kind) = some .dir)
    (hplain : ∀ e ∈ entries, ∀ name ∈ e.1, Plain name) : Volume α where
  tree := FsTree.ofEntries entries hroot hparent hplain
  locs := entries.map Prod.fst
  complete loc h := by
    obtain ⟨e, he⟩ := Option.ne_none_iff_exists'.mp (fun hnone => h (Option.map_eq_none_iff.mpr hnone))
    have hloc : e.1 = loc := by simpa using List.find?_some he
    exact hloc ▸ List.mem_map_of_mem (List.mem_of_find?_eq_some he)

/-- The `originalPath` of the metadata: none that is read, a text, or something else. -/
inductive Recorded
  | absent
  | text (path : Text)
  | other
deriving DecidableEq

structure RestoreOptions where
  overwrite : Bool
  autoRename : Bool
deriving DecidableEq

/-! ## Finding -/

section Finding

variable (t : FsTree α) (faults : Faults)

def confined (path : Text) : Option Text :=
  if faults.realpath path then none else confineRealpath t path

def safeTarget (path : Text) : Option Text := if faults.realpath path then none else safePath t path

def badName (name : Text) : Bool :=
  name = [] || '/' ∈ name || '\\' ∈ name || name = ['.'] || name = ['.', '.']

def entryPath (root shard leaf : Text) : Option Text :=
  if badName leaf || badName shard then none
  else
    match confined t faults (join root [shard]) with
    | none => none
    | some shardDir => if isInsideTrash shardDir then some (join shardDir [leaf]) else none

def lstat (path : Text) : Bool :=
  !faults.lstat path && (entryAt t path).any fun loc => (t.node loc).isSome

def locate (derived : Option Text) (shards : List Text) (id : Text) : Option (Text × Text) :=
  if id = [] then none
  else
    (derived.toList ++ shards.filter fun s => some s ≠ derived).findSome? fun shard =>
      match entryPath t faults filesRoot shard id with
      | some payload => if lstat t faults payload then some (shard, payload) else none
      | none => none

def stat (path : Text) : Bool := !faults.stat path && stands t path

end Finding

/-! ## The plan -/

inductive RestorePlan
  | refuse (status : ℕ) (error : String)
  | go (shard payload target relTarget : Text) (replace : Bool)
deriving DecidableEq

def notValid : String := "Recorded original path is not a valid location"

def requested (id : Text) : Recorded → Option Text
  | .absent => some ("restored/".toList ++ id)
  | .text path => some (if path = [] then "restored/".toList ++ id else path)
  | .other => none

def forged (path : Text) : Bool := path = [] || path.head? = some '/' || (path.splitOn '/').contains
    ['.', '.']

section Plan

variable (t : FsTree α) (faults : Faults)

/-- The first name for a copy that is not taken, of those from `n` on. -/
def freeName (relTarget : Text) : ℕ → ℕ → Except (ℕ × String) (Text × Text)
  | 0, _ => .error (409, "Too many restored copies already exist")
  | more + 1, n =>
    match safeTarget t faults (suffixName relTarget n) with
    | none => .error (400, "Could not derive a safe restore path")
    | some candidate =>
      if stat t faults candidate then freeName relTarget more (n + 1)
      else .ok (candidate, suffixName relTarget n)

/-- What `restoreFromTrash` finds out before it changes anything. -/
def planRestore (derived : Option Text) (shards : List Text) (info : Text → Recorded)
    (opts : RestoreOptions) (id : Text) : RestorePlan :=
  match locate t faults derived shards id with
  | none => .refuse 404 "Trash entry not found"
  | some (shard, payload) =>
    match requested id (info shard) with
    | none => .refuse 400 notValid
    | some relTarget =>
      if forged relTarget then .refuse 400 notValid
      else
        match safeTarget t faults relTarget with
        | none => .refuse 400 notValid
        | some target =>
          if isInsideTrash target then .refuse 400 "Cannot restore into the trash"
          else if stat t faults target then
            if opts.overwrite then .go shard payload target relTarget true
            else if opts.autoRename then
              match freeName t faults relTarget 50 1 with
              | .error (status, error) => .refuse status error
              | .ok (candidate, relCandidate) => .go shard payload candidate relCandidate false
            else .refuse 409 "A file or folder already exists at the original location"
          else .go shard payload target relTarget false

end Plan

/-! ## The changes -/

structure Restored (α : Type) where
  status : Option ℕ
  restoredTo : Text
  tree : FsTree α

def infoPath (shard id : Text) : Text := join infoRoot [shard, id ++ ".json".toList]

section Changes

variable (faults : Faults) (locs : List Loc) (data : α) (own : α → α)

def makeParents (t : FsTree α) (target : Text) : FsTree α × Bool :=
  let names := parts (dirname target)
  match faults.mkdir with
  | none => mkdirs t data [] names
  | some n => ((mkdirs t data [] (names.take n)).1, false)

def chownParent (t : FsTree α) (target : Text) : FsTree α :=
  if faults.chown then t else chownPath t own (dirname target)

def renamePayload (payload target : Text) (t : FsTree α) : Option (FsTree α) :=
  if faults.rename then none else renamePath t locs payload target

def unlinkInfo (shard id : Text) (t : FsTree α) : FsTree α :=
  if faults.unlink then t else unlinkPath t (infoPath shard id)

def moveIn (id shard payload target relTarget : Text) (t : FsTree α) : Restored α :=
  let made := makeParents faults data t target
  if made.2 then
    let owned := chownParent faults own made.1 target
    match renamePayload faults locs payload target owned with
    | none => ⟨none, [], owned⟩
    | some moved => ⟨some 200, relTarget, unlinkInfo faults shard id moved⟩
  else ⟨some 500, [], made.1⟩

def restoreFromTrash (derived : Option Text) (shards : List Text) (info : Text → Recorded)
    (opts : RestoreOptions) (id : Text) (t : FsTree α) : Restored α :=
  match planRestore t faults derived shards info opts id with
  | .refuse status _ => ⟨some status, [], t⟩
  | .go shard payload target relTarget replace =>
    if replace then
      match faults.rm with
      | some kept => ⟨none, [], removePath t kept target⟩
      | none => moveIn faults locs data own id shard payload target relTarget (removePath t [] target)
    else moveIn faults locs data own id shard payload target relTarget t

end Changes

end Insula.FileManager
