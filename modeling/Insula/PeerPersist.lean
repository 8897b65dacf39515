import Insula.Durability
import Insula.Program
import Mathlib.Data.List.Sort

/-!
# The boot file of the peer sets

The reconciler writes the members of the peer and trusted sets as an nft script that is read at
boot. It replaces the file only when its content changes, syncs the data before the rename and the
directory after it, and remembers the content that it has seen reach stable storage.
-/

namespace Insula.PeerFile

open Program Durability

abbrev Text := List Char

structure PeerNftSets where
  peersV4 : List String
  peersV6 : List String
  trustedV4 : List String
  trustedV6 : List String
  deriving DecidableEq

def header : String :=
  "# Generated by firewall-reconciler. Do not edit.\n" ++
    "# Last-known-good set members, replayed at boot so a rebooted node\n" ++
    "# can reach its peers before the cluster is reachable.\n"

def writeSet (name : String) (members : List String) : String :=
  if members.length = 0 then ""
  else
    let sorted := members.mergeSort fun a b => decide (a ≤ b)
    "add element inet filter " ++ name ++ " \x7b " ++ ", ".intercalate sorted ++ " \x7d\n"

def renderPeerSets (s : PeerNftSets) : Text :=
  (header ++ writeSet "cluster_peers_v4" s.peersV4 ++ writeSet "cluster_peers_v6" s.peersV6 ++
    writeSet "trusted_ranges_v4" s.trustedV4 ++ writeSet "trusted_ranges_v6" s.trustedV6).toList

inductive Name
  | file | tmp
  deriving DecidableEq

/-- The calls on the file system, and the field `synced`. -/
inductive Op
  | readFile
  | readSynced
  | setSynced (content : Text)
  | mkdirAll
  | openTmp
  | writeTmp (content : Text)
  | fsyncTmp
  | closeTmp
  | removeTmp
  | rename
  | openFile
  | fsyncFile
  | openDir
  | fsyncDir
  deriving DecidableEq

abbrev Val : Op → Type
  | .readFile => Text
  | .readSynced => Option Text
  | _ => Unit

structure Failure where
  message : String
  written : ℕ
  deriving DecidableEq

abbrev Task (α : Type) := Attempt Failure Op Val α

def ask (o : Op) : Task (Val o) := request o

section Persist

variable (path dir : String)

def wrapping (context : String) {α : Type} (x : Task α) : Task α :=
  tryCatch x fun err => throw { err with message := context ++ ": " ++ err.message }

/-- An error after which something is closed or removed, whatever comes of that. -/
def cleaning (o : Op) (x : Task Unit) : Task Unit :=
  tryCatch x fun err => do
    tryCatch (do let _ ← ask o) fun _ => return ()
    throw err

def writeSynced (content : Text) : Task Unit := do
  wrapping ("create " ++ path ++ ".tmp") (ask .openTmp)
  cleaning .closeTmp (wrapping ("write " ++ path ++ ".tmp") (ask (.writeTmp content)))
  cleaning .closeTmp (wrapping ("sync " ++ path ++ ".tmp") (ask .fsyncTmp))
  wrapping ("close " ++ path ++ ".tmp") (ask .closeTmp)

def syncDirectory : Task Unit := do
  wrapping ("open " ++ dir ++ " for sync") (ask .openDir)
  wrapping ("sync " ++ dir) (ask .fsyncDir)

def replace (content : Text) : Task Unit := do
  wrapping ("mkdir " ++ dir) (ask .mkdirAll)
  cleaning .removeTmp (writeSynced path content)
  cleaning .removeTmp (wrapping ("rename " ++ path ++ ".tmp") (ask .rename))
  syncDirectory dir

def syncExisting : Task Unit := do
  wrapping ("open " ++ path ++ " for sync") (ask .openFile)
  wrapping ("sync " ++ path) (ask .fsyncFile)
  syncDirectory dir

def readExisting : Task (Option Text) :=
  tryCatch (do let have' ← ask .readFile; return some have') fun _ => return none

def persistMatching (want : Text) : Task Unit := do
  let synced ← ask .readSynced
  if synced.getD [] = want then return ()
  else
    syncExisting path dir
    ask (.setSynced want)

def persistReplacing (want : Text) : Task Unit := do
  replace path dir want
  ask (.setSynced want)

def persist (s : PeerNftSets) : Task Unit := do
  let existing ← readExisting
  if existing = some (renderPeerSets s) then persistMatching path dir (renderPeerSets s)
  else persistReplacing path dir (renderPeerSets s)

end Persist

/-! ## The process and the machine -/

abbrev Ans (o : Op) : Type := Except Failure (Val o)

structure World where
  disk : Disk Name Char
  synced : Option Text
  /-- What the call has read of the file. -/
  seen : Option Text

namespace World

variable (w : World)

def onDisk (disk : Disk Name Char) : World := { w with disk := disk }

def answerRead (content : Text) : Option World :=
  if w.disk.read .file = some content then some { w with seen := some content } else none

def answerSynced (synced : Option Text) : Option World :=
  if synced = w.synced then some w else none

def renamed : Option World :=
  if (w.disk.current .tmp).isSome then some (w.onDisk (w.disk.change (.rename .tmp .file))) else none

def respond : (o : Op) → Ans o → Option World
  | .readFile, .ok content => w.answerRead content
  | .readFile, .error _ => some { w with seen := none }
  | .readSynced, .ok synced => w.answerSynced synced
  | .readSynced, .error _ => none
  | .setSynced content, .ok _ => some { w with synced := some content }
  | .setSynced _, .error _ => none
  | .openTmp, .ok _ => some (w.onDisk (w.disk.openTrunc .tmp))
  | .writeTmp content, .ok _ => some (w.onDisk (w.disk.write .tmp content))
  | .writeTmp content, .error failure =>
    some (w.onDisk (w.disk.write .tmp (content.take failure.written)))
  | .fsyncTmp, .ok _ => some (w.onDisk (w.disk.fsync .tmp))
  | .removeTmp, .ok _ => some (w.onDisk (w.disk.change (.unlink .tmp)))
  | .rename, .ok _ => w.renamed
  | .fsyncFile, .ok _ => some (w.onDisk (w.disk.fsync .file))
  | .fsyncDir, .ok _ => some (w.onDisk w.disk.syncDir)
  | _, _ => some w

end World

abbrev Rest : Type := Program Op Ans (Except Failure Unit)

/-- `call` is the rendering that the running call writes and what is left of the call, `asked` the
renderings of all calls, and `vouched` what the last call that returned without an error wrote,
until the file is replaced. -/
structure Machine where
  world : World
  call : Option (Text × Rest)
  asked : List Text
  vouched : Option Text

inductive Event
  | begin (s : PeerNftSets)
  | act (o : Op) (r : Ans o)
  | finish
  | restart
  | cut (k : ℕ) (lost : ℕ → Text)

section Step

variable (path dir : String)

def Machine.beginCall (m : Machine) (s : PeerNftSets) : Machine :=
  { m with
    world := { m.world with seen := none }
    call := some (renderPeerSets s, (persist path dir s).run)
    asked := m.asked ++ [renderPeerSets s] }

def vouchedAfter (vouched : Option Text) : (o : Op) → Ans o → Option Text
  | .rename, .ok _ => none
  | _, _ => vouched

def Machine.actCall (m : Machine) (o : Op) (r : Ans o) : Text × Rest → Option Machine
  | (want, .call o' next) =>
    if h : o = o' then
      (m.world.respond o r).map fun w =>
        { m with world := w, call := some (want, next (h ▸ r)), vouched := vouchedAfter m.vouched o r }
    else none
  | _ => none

def Machine.finishCall (m : Machine) : Text × Rest → Option Machine
  | (want, .pure (.ok _)) => some { m with call := none, vouched := some want }
  | (_, .pure (.error _)) => some { m with call := none }
  | _ => none

def step (m : Machine) : Event → Option Machine
  | .begin s => if m.call.isNone then some (m.beginCall path dir s) else none
  | .act o r => m.call.bind (m.actCall o r)
  | .finish => m.call.bind m.finishCall
  | .restart => some { m with call := none, world := { m.world with synced := none } }
  | .cut k lost =>
    some { m with call := none
                  world := { m.world with disk := m.world.disk.cut k lost, synced := none } }

end Step

end Insula.PeerFile
