import Insula.Javascript
import Insula.Transition

/-!
# The watch cache

The objects of one kind in the cluster, seeded by a LIST and kept current by a WATCH that is opened
at the LIST's version and opened again where it ended. Two activities, relisting and watching,
replace each other through a generation counter: every WATCH is of one generation, and only the
current one is listened to. LISTs and openings take any time and may overlap.
-/

namespace Insula.WatchCache

open Javascript Transition

def RESYNC_MS : ℕ := 30 * 60000

def RETRY_MIN_MS : ℕ := 1000

def RETRY_MAX_MS : ℕ := 30000

structure Meta where
  nameSpace? : Option String
  name? : Option String
  resourceVersion? : Option String
deriving DecidableEq, Repr

def keyOf (m : Option Meta) : Option String :=
  m.bind fun m =>
    let space := m.nameSpace?.getD ""
    if truthy m.name? then m.name?.map fun name => space ++ "/" ++ name else none

inductive Phase
  | ADDED
  | MODIFIED
  | DELETED
  | BOOKMARK
  | ERROR
  | other
deriving DecidableEq, Repr

inductive End
  | normal
  | timeout
  | error
deriving DecidableEq, Repr

structure Model (T Raw : Type) where
  objectMeta : T → Option Meta
  rawMeta : Raw → Option Meta
  deserialize : Raw → T

structure Listing (T : Type) where
  items : List T
  resourceVersion : Option String

/-- One WATCH: the version it was opened at, whether the opening is still awaited, whether it may
still report, and whether it was told to stop. The rest is history: which adopted LIST it continues
and what it delivered. -/
structure Watch (Raw : Type) where
  start : String
  opening : Bool
  live : Bool
  aborted : Bool
  continues : ℕ
  delivered : List (Phase × Raw)

structure State (T Raw : Type) where
  objects : List (String × T)
  resourceVersion : String
  synced : Bool
  healthy : Bool
  started : Bool
  stopped : Bool
  lastFullList : ℕ
  retryMs : ℕ
  request : Option ℕ
  timer : Option ℕ
  generation : ℕ
  -- the LISTs that have not returned, and the WATCH of each generation
  lists : ℕ
  watches : ℕ → Option (Watch Raw)
  -- history: how many LISTs were adopted, the last one and what was delivered since
  adoptions : ℕ
  adopted : Listing T
  since : List (Phase × Raw)

def initial (T Raw : Type) : State T Raw where
  objects := []
  resourceVersion := ""
  synced := false
  healthy := false
  started := false
  stopped := false
  lastFullList := 0
  retryMs := RETRY_MIN_MS
  request := none
  timer := none
  generation := 0
  lists := 0
  watches := fun _ => none
  adoptions := 0
  adopted := ⟨[], none⟩
  since := []

variable {T Raw : Type} (M : Model T Raw)

/-! ## The objects -/

/-- `set` of a map that keeps the order of insertion. -/
def setObject (objects : List (String × T)) (key : String) (obj : T) : List (String × T) :=
  if key ∈ objects.map Prod.fst then
    objects.map fun entry => if entry.1 = key then (key, obj) else entry
  else objects ++ [(key, obj)]

def deleteObject (objects : List (String × T)) (key : String) : List (String × T) :=
  objects.filter fun entry => entry.1 ≠ key

def seed (items : List T) : List (String × T) :=
  items.foldl (fun objects item =>
    match keyOf (M.objectMeta item) with
    | some key => setObject objects key item
    | none => objects) []

def applyEvent (objects : List (String × T)) (event : Phase × Raw) : List (String × T) :=
  match event.1 with
  | .ADDED | .MODIFIED =>
    let obj := M.deserialize event.2
    match keyOf (M.objectMeta obj) with
    | some key => setObject objects key obj
    | none => objects
  | .DELETED =>
    match keyOf (M.rawMeta event.2) with
    | some key => deleteObject objects key
    | none => objects
  | _ => objects

def nextVersion (version : String) (event : Phase × Raw) : String :=
  match event.1 with
  | .ERROR => ""
  | .other => version
  | _ =>
    match (M.rawMeta event.2).bind Meta.resourceVersion? with
    | some rv => if rv = "" then version else rv
    | none => version

namespace State

/-! ## The methods -/

def list (s : State T Raw) : Option (List T) :=
  if ¬s.synced ∨ ¬s.healthy then none else some (s.objects.map Prod.snd)

def scheduleRelist (s : State T Raw) (delayMs : ℕ) : State T Raw :=
  if s.stopped then s else { s with timer := some delayMs }

/-- What a call of `list` leaves behind. -/
def afterList (s : State T Raw) (now : ℕ) : State T Raw :=
  if ¬s.synced ∨ ¬s.healthy then s
  else if s.lastFullList + RESYNC_MS < now then s.scheduleRelist 0
  else s

def start (s : State T Raw) : State T Raw :=
  if s.started then s else { s with started := true }.scheduleRelist 0

def abortRequest (s : State T Raw) : State T Raw :=
  { s with
    watches := fun g => if s.request = some g then
      (s.watches g).map fun w => { w with aborted := true } else s.watches g
    request := none }

def stop (s : State T Raw) : State T Raw :=
  { s with stopped := true, generation := s.generation + 1, timer := none }.abortRequest

def relist (s : State T Raw) : State T Raw :=
  { { s with timer := none, generation := s.generation + 1 }.abortRequest with
    lists := s.lists + 1 }

def fail (s : State T Raw) : State T Raw :=
  { { s with healthy := false }.scheduleRelist s.retryMs with
    retryMs := min (s.retryMs * 2) RETRY_MAX_MS }

def watch (s : State T Raw) (continues : ℕ) : State T Raw :=
  if s.stopped then s
  else
    { s with
      generation := s.generation + 1
      watches := Function.update s.watches (s.generation + 1)
        (some ⟨s.resourceVersion, true, true, false, continues, []⟩) }

def adopt (s : State T Raw) (res : Listing T) (now : ℕ) : State T Raw :=
  { s with
    lists := s.lists - 1
    objects := seed M res.items
    resourceVersion := res.resourceVersion.getD ""
    lastFullList := now
    synced := true
    healthy := true
    retryMs := RETRY_MIN_MS
    adoptions := s.adoptions + 1
    adopted := res
    since := [] }.watch (s.adoptions + 1)

def setWatch (s : State T Raw) (gen : ℕ) (w : Watch Raw) : State T Raw :=
  { s with watches := Function.update s.watches gen (some w) }

def opened (s : State T Raw) (gen : ℕ) (w : Watch Raw) : State T Raw :=
  if gen = s.generation then
    { s.setWatch gen { w with opening := false } with request := some gen }
  else s.setWatch gen { w with opening := false, aborted := true }

def onEvent (s : State T Raw) (event : Phase × Raw) : State T Raw :=
  { s with
    objects := applyEvent M s.objects event
    resourceVersion := nextVersion M s.resourceVersion event
    healthy := if event.1 = .ERROR then false else s.healthy }

def deliver (s : State T Raw) (gen : ℕ) (w : Watch Raw) (event : Phase × Raw) : State T Raw :=
  let seen := { s.setWatch gen { w with delivered := w.delivered ++ [event] } with
    since := if w.continues = s.adoptions then s.since ++ [event] else s.since }
  if gen = s.generation then seen.onEvent M event else seen

def onDone (s : State T Raw) (continues : ℕ) (err : End) : State T Raw :=
  let s := { s with request := none }
  if s.stopped then s
  else if err = .error ∨ ¬s.healthy ∨ s.resourceVersion = "" then s.fail
  else s.watch continues

def finish (s : State T Raw) (gen : ℕ) (w : Watch Raw) (err : End) : State T Raw :=
  let ended := s.setWatch gen { w with live := false }
  if gen = s.generation then ended.onDone w.continues err else ended

end State

/-! ## Runs -/

inductive Event (T Raw : Type)
  | start
  | stop
  | list (now : ℕ)
  | timer
  | listed (res : Listing T) (now : ℕ)
  | listFailed
  | opened (gen : ℕ)
  | openFailed (gen : ℕ)
  | delivered (gen : ℕ) (event : Phase × Raw)
  | ended (gen : ℕ) (err : End)

def step (s : State T Raw) : Event T Raw → Option (State T Raw)
  | .start => some s.start
  | .stop => some s.stop
  | .list now => some (s.afterList now)
  | .timer => if s.timer = none then none else some s.relist
  | .listed res now => if s.lists = 0 then none else some (s.adopt M res now)
  | .listFailed => if s.lists = 0 then none else some { s with lists := s.lists - 1 }.fail
  | .opened gen =>
    (s.watches gen).bind fun w => if w.opening then some (s.opened gen w) else none
  | .openFailed gen =>
    (s.watches gen).bind fun w =>
      if w.opening then some (s.setWatch gen { w with opening := false, live := false }).fail
      else none
  | .delivered gen event =>
    (s.watches gen).bind fun w => if w.live then some (s.deliver M gen w event) else none
  | .ended gen err =>
    (s.watches gen).bind fun w => if w.live then some (s.finish gen w err) else none

end Insula.WatchCache
