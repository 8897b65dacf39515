import Insula.FirstFit
import Mathlib.Algebra.Order.BigOperators.Group.List
import Mathlib.Data.List.Sort
import Mathlib.Tactic.Linarith

/-!
# Can a node hold a tenant's volumes?

Longhorn's rule for one volume on one disk, and the verdict for all volumes that a move would bring:
the largest first, each on the first disk that takes it. Sizes are whole numbers of bytes.
-/

namespace Insula.TargetCapacity

open FirstFit

structure DiskCapacity where
  maximum : ℤ
  available : ℤ
  scheduled : ℤ
  reserved : ℤ
  deriving DecidableEq

structure SchedulingSettings where
  overProvisioningPct : ℤ
  minimalAvailablePct : ℤ

structure VolumeNeed where
  /-- What the scheduler reserves. -/
  size : ℤ
  /-- What would be copied. -/
  actualSize : ℤ
  deriving DecidableEq

inductive CapacityVerdict
  | ok
  | unknown (detail : String)
  | insufficient (detail : String) (neededBytes schedulableBytes : ℤ)
  deriving DecidableEq

inductive DiskRefusal
  | diskFull | overProvisioned
  deriving DecidableEq

def schedulableBytes (disk : DiskCapacity) (settings : SchedulingSettings) : ℤ :=
  (disk.maximum - disk.reserved) * settings.overProvisioningPct / 100 - disk.scheduled

def freeFloor (disk : DiskCapacity) (settings : SchedulingSettings) : ℤ :=
  disk.maximum * settings.minimalAvailablePct / 100

def diskRefusal (need : VolumeNeed) (disk : DiskCapacity) (settings : SchedulingSettings) :
    Option DiskRefusal :=
  if disk.maximum ≤ 0 ∨ disk.available ≤ 0 then some .diskFull
  else if disk.available - need.actualSize ≤ freeFloor disk settings then some .diskFull
  else if schedulableBytes disk settings < need.size then some .overProvisioned
  else none

/-- Tenths of GiB, rounded half up as `toFixed` does. -/
def gib (bytes : ℤ) : String :=
  let tenths := (20 * bytes.toNat + 2 ^ 30) / 2 ^ 31
  toString (tenths / 10) ++ "." ++ toString (tenths % 10) ++ " GiB"

def DiskCapacity.charge (need : VolumeNeed) (disk : DiskCapacity) : DiskCapacity :=
  { disk with
    scheduled := disk.scheduled + need.size
    available := disk.available - need.actualSize }

section Verdict

variable (settings : SchedulingSettings)

def Fits (need : VolumeNeed) (disk : DiskCapacity) : Prop := diskRefusal need disk settings = none

instance (need : VolumeNeed) (disk : DiskCapacity) : Decidable (Fits settings need disk) :=
  inferInstanceAs (Decidable (_ = _))

def roomiest : List DiskCapacity → Option DiskCapacity
  | [] => none
  | disk :: disks => some (disks.foldl (fun best d =>
    if schedulableBytes best settings < schedulableBytes d settings then d else best) disk)

def insufficientDetail (target : String) (needs : List VolumeNeed) (need : VolumeNeed)
    (disk : DiskCapacity) : String :=
  let room := max 0 (schedulableBytes disk settings)
  let what := if 1 < needs.length then "one of this tenant's volumes (" ++ gib need.size ++ ")"
    else "this tenant's " ++ gib need.size ++ " volume"
  if diskRefusal need disk settings = some .overProvisioned then
    target ++ " cannot hold " ++ what ++ ": Longhorn has " ++ gib room ++
      " left to schedule there, and it reserves a volume's full size, not what is in use (" ++
      gib need.actualSize ++ " here). The tenant would run on " ++ target ++ " with its data left " ++
      "behind on the node it came from. Move it to a node with more room, or shrink the volume first."
  else
    target ++ " cannot hold " ++ what ++ ": copying its " ++ gib need.actualSize ++
      " of data would leave the disk below Longhorn's free-space floor (" ++
      toString settings.minimalAvailablePct ++ "% of the disk). The tenant would run on " ++ target ++
      " with its data left behind on the node it came from. Move it to a node with more free disk."

def refuse (target : String) (needs : List VolumeNeed) (need : VolumeNeed) (free : List DiskCapacity) :
    CapacityVerdict :=
  match roomiest settings free with
  -- `reduce` throws when there is no disk, which is asked before.
  | none => .unknown "Reduce of empty array with no initial value"
  | some disk => .insufficient (insufficientDetail settings target needs need disk)
      (needs.map VolumeNeed.size).sum (max 0 (schedulableBytes disk settings))

def judgeLoop (target : String) (needs : List VolumeNeed) : List VolumeNeed → List DiskCapacity →
    CapacityVerdict
  | [], _ => .ok
  | need :: rest, free =>
    match place (Fits settings) DiskCapacity.charge need free with
    | some free => judgeLoop target needs rest free
    | none => refuse settings target needs need free

def largestFirst (needs : List VolumeNeed) : List VolumeNeed :=
  needs.insertionSort fun a b => b.size ≤ a.size

def judgeTargetCapacity (target : String) (needs : List VolumeNeed) (disks : List DiskCapacity) :
    CapacityVerdict :=
  if needs = [] then .ok
  else if disks = [] then .unknown ("no Longhorn disk on " ++ target ++ " to judge")
  else judgeLoop settings target needs (largestFirst needs) disks

end Verdict

/-! ## Packings -/

section Packings

variable {settings : SchedulingSettings} {target : String} {needs rest order : List VolumeNeed}
  {disks free final : List DiskCapacity} {need : VolumeNeed} {disk : DiskCapacity}

/-- The volumes can be placed one after another so that the rule holds at each step. -/
def Packable (settings : SchedulingSettings) (needs : List VolumeNeed) (disks : List DiskCapacity) :
    Prop :=
  ∃ order final, order.Perm needs ∧ Placed (Fits settings) DiskCapacity.charge order disks final

theorem fits_iff : Fits settings need disk ↔ 0 < disk.maximum ∧ 0 < disk.available ∧
    freeFloor disk settings < disk.available - need.actualSize ∧
      need.size ≤ schedulableBytes disk settings := by
  unfold Fits diskRefusal
  split
  next hfull =>
    apply iff_of_false (by simp)
    omega
  next hfull =>
    split
    next hfloor =>
      apply iff_of_false (by simp)
      omega
    next hfloor =>
      split
      next hsize =>
        apply iff_of_false (by simp)
        omega
      next hsize =>
        apply iff_of_true rfl
        omega

theorem freeFloor_charge : freeFloor (disk.charge need) settings = freeFloor disk settings := rfl

theorem schedulableBytes_charge :
    schedulableBytes (disk.charge need) settings = schedulableBytes disk settings - need.size := by
  unfold schedulableBytes DiskCapacity.charge
  dsimp only
  omega

variable (settings target needs rest) in
/-- The loop ends with all volumes placed, or at one that every disk refuses. -/
theorem judgeLoop_cases (hfree : free ≠ []) : (judgeLoop settings target needs rest free = .ok ∧
      ∃ final, firstFit (Fits settings) DiskCapacity.charge rest free = some final) ∨
    ∃ before need after stuck, rest = before ++ need :: after ∧
      firstFit (Fits settings) DiskCapacity.charge before free = some stuck ∧
      (∀ d ∈ stuck, ¬ Fits settings need d) ∧
      ∃ detail room, judgeLoop settings target needs rest free =
        .insufficient detail (needs.map VolumeNeed.size).sum room := by
  induction rest generalizing free with
  | nil => exact .inl ⟨rfl, free, rfl⟩
  | cons need rest ih =>
    cases hplace : place (Fits settings) DiskCapacity.charge need free with
    | some mid =>
      have hloop : judgeLoop settings target needs (need :: rest) free =
          judgeLoop settings target needs rest mid := by
        rw [judgeLoop, hplace]
      have hmid : mid ≠ [] := by
        have hlength := length_of_places (places_of_place hplace)
        intro hnil
        rw [hnil] at hlength
        exact hfree (List.length_eq_zero_iff.mp hlength.symm)
      rw [hloop]
      rcases ih hmid with ⟨hok, final, hfinal⟩ |
        ⟨before, n, after, stuck, rfl, hbefore, hstuck, hverdict⟩
      · left
        refine ⟨hok, final, ?_⟩
        rw [firstFit, hplace]
        exact hfinal
      · right
        refine ⟨need :: before, n, after, stuck, rfl, ?_, hstuck, hverdict⟩
        rw [firstFit, hplace]
        exact hbefore
    | none =>
      right
      refine ⟨[], need, rest, free, rfl, rfl, place_eq_none_iff.mp hplace, ?_⟩
      rw [judgeLoop, hplace]
      unfold refuse roomiest
      cases free with
      | nil => exact absurd rfl hfree
      | cons d free => exact ⟨_, _, rfl⟩

theorem largestFirst_perm (needs : List VolumeNeed) : (largestFirst needs).Perm needs :=
  List.perm_insertionSort _ needs

/-! ### One disk -/

/-- What the callers promise: sizes and percentages are not negative. -/
def NonNegative (settings : SchedulingSettings) (needs : List VolumeNeed) : Prop :=
  0 ≤ settings.minimalAvailablePct ∧ ∀ need ∈ needs, 0 ≤ need.size ∧ 0 ≤ need.actualSize

theorem freeFloor_nonneg (hpct : 0 ≤ settings.minimalAvailablePct) (hmax : 0 < disk.maximum) :
    0 ≤ freeFloor disk settings := by
  have hmul := Int.mul_nonneg (Int.le_of_lt hmax) hpct
  unfold freeFloor
  omega

theorem placed_single_iff (hneeds : NonNegative settings needs) :
    (∃ final, Placed (Fits settings) DiskCapacity.charge needs [disk] final) ↔
      needs = [] ∨ 0 < disk.maximum ∧
        freeFloor disk settings < disk.available - (needs.map VolumeNeed.actualSize).sum ∧
        (needs.map VolumeNeed.size).sum ≤ schedulableBytes disk settings := by
  induction needs generalizing disk with
  | nil => exact iff_of_true ⟨_, .nil⟩ (.inl rfl)
  | cons need needs ih =>
    obtain ⟨hpct, hall⟩ := hneeds
    obtain ⟨hsize, hactual⟩ := hall need List.mem_cons_self
    have hrest : ∀ n ∈ needs, 0 ≤ n.size ∧ 0 ≤ n.actualSize :=
      fun n hn => hall n (List.mem_cons_of_mem _ hn)
    have hsizes : 0 ≤ (needs.map VolumeNeed.size).sum := by
      apply List.sum_nonneg
      intro x hx
      obtain ⟨n, hn, rfl⟩ := List.mem_map.mp hx
      exact (hrest n hn).1
    have hactuals : 0 ≤ (needs.map VolumeNeed.actualSize).sum := by
      apply List.sum_nonneg
      intro x hx
      obtain ⟨n, hn, rfl⟩ := List.mem_map.mp hx
      exact (hrest n hn).2
    have hmaximum : (disk.charge need).maximum = disk.maximum := rfl
    have havailable : (disk.charge need).available = disk.available - need.actualSize := rfl
    rw [placed_cons_iff, List.map_cons, List.map_cons, List.sum_cons, List.sum_cons]
    simp only [places_single_iff, and_assoc, exists_and_left, exists_eq_left]
    rw [ih ⟨hpct, hrest⟩, fits_iff, freeFloor_charge, schedulableBytes_charge, hmaximum, havailable]
    constructor
    · rintro ⟨⟨hmax, -, hfloor, hfits⟩, rfl | ⟨-, hfloor', hfits'⟩⟩
      · right
        simp only [List.map_nil, List.sum_nil]
        omega
      · right
        omega
    · rintro (hnil | ⟨hmax, hfloor, hfits⟩)
      · cases hnil
      · have hnonneg := freeFloor_nonneg hpct hmax
        refine ⟨⟨hmax, by omega, by omega, by omega⟩, ?_⟩
        right
        omega

theorem packable_single_iff (hneeds : NonNegative settings needs) (horder : order.Perm needs) :
    Packable settings needs [disk] ↔
      ∃ final, Placed (Fits settings) DiskCapacity.charge order [disk] final := by
  have hnonneg : ∀ {l : List VolumeNeed}, l.Perm needs → NonNegative settings l :=
    fun hl => ⟨hneeds.1, fun n hn => hneeds.2 n (hl.subset hn)⟩
  constructor
  · rintro ⟨l, final, hl, hplaced⟩
    have h := (placed_single_iff (hnonneg hl)).mp ⟨final, hplaced⟩
    have hperm : l.Perm order := hl.trans horder.symm
    rw [(hperm.map VolumeNeed.actualSize).sum_eq, (hperm.map VolumeNeed.size).sum_eq] at h
    apply (placed_single_iff (hnonneg horder)).mpr
    rcases h with rfl | h
    · exact .inl (List.nil_perm.mp hperm)
    · exact .inr h
  · rintro ⟨final, hplaced⟩
    exact ⟨order, final, horder, hplaced⟩

/-! ### The verdict -/

/-- The volumes are all of one size and hold as much. -/
def AllAlike (needs : List VolumeNeed) : Prop :=
  ∀ v ∈ needs, ∀ w ∈ needs, v.size = w.size ∧ v.actualSize = w.actualSize

theorem alike_of_eq {v w : VolumeNeed} (hsize : v.size = w.size)
    (hactual : v.actualSize = w.actualSize) :
    Alike (Fits settings) DiskCapacity.charge v w := by
  cases v
  cases w
  cases hsize
  cases hactual
  exact ⟨fun _ => Iff.rfl, fun _ => rfl⟩

theorem not_packable_of_alike {before after : List VolumeNeed} {stuck : List DiskCapacity}
    (halike : AllAlike needs) (hsplit : largestFirst needs = before ++ need :: after)
    (hbefore : firstFit (Fits settings) DiskCapacity.charge before disks = some stuck)
    (hstuck : ∀ d ∈ stuck, ¬ Fits settings need d) : ¬ Packable settings needs disks := by
  rintro ⟨order, final, horder, hplaced⟩
  have hperm : (before ++ need :: after).Perm needs := hsplit ▸ largestFirst_perm needs
  have hneed : need ∈ needs := hperm.subset (by simp)
  refine not_placed_of_alike ?_ (placed_of_firstFit hbefore) hstuck (horder.trans hperm.symm) hplaced
  intro v hv
  obtain ⟨hsize, hactual⟩ := halike v (hperm.subset hv) need hneed
  exact alike_of_eq hsize hactual

/-- What is placed on a single disk ends where the loop does. -/
theorem not_packable_of_single {before after : List VolumeNeed} {stuck : List DiskCapacity}
    (hneeds : NonNegative settings needs) (hsplit : largestFirst needs = before ++ need :: after)
    (hbefore : firstFit (Fits settings) DiskCapacity.charge before [disk] = some stuck)
    (hstuck : ∀ d ∈ stuck, ¬ Fits settings need d) : ¬ Packable settings needs [disk] := by
  rw [packable_single_iff hneeds (largestFirst_perm needs), hsplit]
  clear hsplit
  induction before generalizing disk with
  | nil =>
    cases hbefore
    rintro ⟨final, hplaced⟩
    obtain ⟨mid, hplaces, -⟩ := placed_cons_iff.mp ⟨final, hplaced⟩
    exact hstuck disk List.mem_cons_self (places_single_iff.mp hplaces).1
  | cons n before ih =>
    obtain ⟨mid, hmid, hbefore⟩ := Option.bind_eq_some_iff.mp hbefore
    obtain ⟨-, rfl⟩ := places_single_iff.mp (places_of_place hmid)
    intro hplaced
    rw [List.cons_append, placed_cons_iff] at hplaced
    obtain ⟨mid, hplaces, hrest⟩ := hplaced
    obtain ⟨-, rfl⟩ := places_single_iff.mp hplaces
    exact ih hbefore hrest

/-- `ok` means that the volumes can be placed. `insufficient` means that first fit in the order of
decreasing size is stuck at a volume that every disk refuses as charged so far; where the volumes
are all alike, or there is one disk, they cannot be placed at all. -/
theorem judgeTargetCapacity_sound (settings : SchedulingSettings) (target : String)
    (needs : List VolumeNeed) (disks : List DiskCapacity) :
    (judgeTargetCapacity settings target needs disks = .ok → Packable settings needs disks) ∧
    (needs ≠ [] → disks ≠ [] → ∀ detail,
      judgeTargetCapacity settings target needs disks ≠ .unknown detail) ∧
    ∀ detail neededBytes room,
      judgeTargetCapacity settings target needs disks = .insufficient detail neededBytes room →
      neededBytes = (needs.map VolumeNeed.size).sum ∧
      (∃ before need after stuck, largestFirst needs = before ++ need :: after ∧
        firstFit (Fits settings) DiskCapacity.charge before disks = some stuck ∧
        ∀ d ∈ stuck, diskRefusal need d settings ≠ none) ∧
      (AllAlike needs → ¬ Packable settings needs disks) ∧
      (NonNegative settings needs → disks.length = 1 → ¬ Packable settings needs disks) := by
  unfold judgeTargetCapacity
  by_cases hneeds : needs = []
  · subst hneeds
    rw [if_pos rfl]
    refine ⟨fun _ => ⟨[], disks, .refl _, .nil⟩, fun h => absurd rfl h, ?_⟩
    intro detail neededBytes room h
    cases h
  · rw [if_neg hneeds]
    by_cases hdisks : disks = []
    · rw [if_pos hdisks]
      refine ⟨fun h => (nomatch h), fun _ h => absurd hdisks h, ?_⟩
      intro detail neededBytes room h
      cases h
    · rw [if_neg hdisks]
      rcases judgeLoop_cases settings target needs (largestFirst needs) hdisks with
        ⟨hok, final, hfinal⟩ | ⟨before, need, after, stuck, hsplit, hbefore, hstuck, detail, room,
          hverdict⟩
      · rw [hok]
        refine ⟨fun _ => ⟨_, final, largestFirst_perm needs, placed_of_firstFit hfinal⟩,
          fun _ _ _ h => (nomatch h), ?_⟩
        intro detail neededBytes room h
        cases h
      · rw [hverdict]
        refine ⟨fun h => (nomatch h), fun _ _ _ h => (nomatch h), ?_⟩
        intro detail' neededBytes room' h
        cases h
        refine ⟨rfl, ⟨before, need, after, stuck, hsplit, hbefore, hstuck⟩, ?_, ?_⟩
        · intro halike
          exact not_packable_of_alike halike hsplit hbefore hstuck
        · intro hnonneg hone
          obtain ⟨disk, rfl⟩ := List.length_eq_one_iff.mp hone
          exact not_packable_of_single hnonneg hsplit hbefore hstuck

end Packings

def evenSettings : SchedulingSettings := { overProvisioningPct := 100, minimalAvailablePct := 0 }

def emptyVolume : VolumeNeed := { size := 20, actualSize := 0 }

def usedVolume : VolumeNeed := { size := 10, actualSize := 5 }

def roomForOne : DiskCapacity := { maximum := 100, available := 50, scheduled := 80, reserved := 0 }

def littleSpace : DiskCapacity := { maximum := 100, available := 3, scheduled := 0, reserved := 0 }

/-- The larger volume takes the only disk that could have held the other one. -/
theorem packable_refused : ¬ ∀ (settings : SchedulingSettings) (target : String)
    (needs : List VolumeNeed) (disks : List DiskCapacity) (detail : String) (neededBytes room : ℤ),
    NonNegative settings needs → needs ≠ [] → disks ≠ [] →
    judgeTargetCapacity settings target needs disks = .insufficient detail neededBytes room →
    ¬ Packable settings needs disks := by
  intro hall
  have hnonneg : NonNegative evenSettings [emptyVolume, usedVolume] := by
    unfold NonNegative
    decide
  have hverdict : ∃ detail neededBytes room, judgeTargetCapacity evenSettings "n2"
      [emptyVolume, usedVolume] [roomForOne, littleSpace] = .insufficient detail neededBytes room :=
    ⟨_, _, _, rfl⟩
  obtain ⟨detail, neededBytes, room, hverdict⟩ := hverdict
  have hempty : Fits evenSettings emptyVolume littleSpace := by decide
  have hused : Fits evenSettings usedVolume roomForOne := by decide
  have hplaced : Placed (Fits evenSettings) DiskCapacity.charge [emptyVolume, usedVolume]
      [roomForOne, littleSpace] [roomForOne.charge usedVolume, littleSpace.charge emptyVolume] :=
    .cons ⟨1, littleSpace, rfl, hempty, rfl⟩ (.cons ⟨0, roomForOne, rfl, hused, rfl⟩ .nil)
  exact hall _ _ _ _ _ _ _ hnonneg (by simp) (by simp) hverdict ⟨_, _, .refl _, hplaced⟩

end Insula.TargetCapacity
