import Insula.LenientNumbers
import Mathlib.Data.Prod.Lex

/-!
# Upgrades of k3s

A cluster is upgraded at most one minor version at a time. A farther target is planned as a chain of
steps, each of which is built into the Plans of the upgrade controller by itself, and the release
page offers the step that starts from the lowest version of the nodes. Numbers are doubles: from
`2 ^ 53` on versions that differ are read as one, and the loop over the minors comes to a halt.
-/

namespace Insula.K3sUpgrades

open Javascript (digits number Double double addOne addOne_coe addOne_mono numberText trim)
open Versions (stripV)
open LenientNumbers (Text)

structure Numbers where
  major : ℕ
  minor : ℕ
  patch : ℕ
  k3s : ℕ
deriving DecidableEq

/-- `/^v?(\d+)\.(\d+)\.(\d+)\+k3s(\d+)$/`, on a trimmed text. -/
def matchK3sVersion (text : Text) : Option Numbers :=
  let body := stripV text
  let build := body.dropWhile (· ≠ '+')
  match (body.takeWhile (· ≠ '+')).splitOn '.' with
  | [major, minor, patch] =>
    if digits major ∧ digits minor ∧ digits patch ∧ "+k3s".toList.isPrefixOf build ∧
        digits (build.drop 4) then
      some ⟨number major, number minor, number patch, number (build.drop 4)⟩
    else none
  | _ => none

structure K3sVersion where
  major : Double
  minor : Double
  patch : Double
  k3s : Double
  raw : Text
deriving DecidableEq

def parseK3sVersion (raw : Text) : Option K3sVersion :=
  (matchK3sVersion (trim raw)).map fun m =>
    ⟨double m.major, double m.minor, double m.patch, double m.k3s, trim raw⟩

/-- Is `b` newer than `a`? The majors are not looked at. -/
def isNewer (a b : K3sVersion) : Bool :=
  if b.minor ≠ a.minor then a.minor < b.minor
  else if b.patch ≠ a.patch then a.patch < b.patch
  else a.k3s < b.k3s

def K3sVersion.atLeast (v a : K3sVersion) : Bool :=
  if v.major ≠ a.major then a.major < v.major
  else if v.minor ≠ a.minor then a.minor < v.minor
  else if v.patch ≠ a.patch then a.patch < v.patch
  else a.k3s ≤ v.k3s

def k3sVersionAtLeast (version atLeast : Text) : Bool :=
  match parseK3sVersion version, parseK3sVersion atLeast with
  | some v, some a => v.atLeast a
  | _, _ => false

structure UpgradeStep where
  major : Double
  minor : Double
  isFinal : Bool
deriving DecidableEq

structure BuildPlanOpts where
  upgradeImage : Option Text
  drainDeleteTimeout : Option ℕ

structure Plan where
  name : String
  forControlPlane : Bool
  drainTimeout : Option ℕ
  waitsFor : Option String
  image : Text
  version : Text
deriving DecidableEq

def upgradeImage : Text := "rancher/k3s-upgrade".toList

def lowerAlnum (c : Char) : Bool := c.isLower || c.isDigit

def imageRefValid (ref : Text) : Bool :=
  let repository := ref.takeWhile fun c => c ≠ ':' && c ≠ '@'
  let rest := ref.dropWhile fun c => c ≠ ':' && c ≠ '@'
  let tag := rest.takeWhile (· ≠ '@')
  let digest := rest.dropWhile (· ≠ '@')
  ref.length ≤ 512 && repository.head?.any lowerAlnum && repository.getLast?.any lowerAlnum &&
    repository.all (fun c => lowerAlnum c || c ∈ ['.', '_', '/', '-']) &&
    (tag = [] || (tag.length ≠ 1 && tag.tail.all fun c => c.isAlphanum || c ∈ ['.', '_', '-'])) &&
    (digest = [] || ("@sha256:".toList.isPrefixOf digest && digest.length = 72 &&
      (digest.drop 8).all fun c => c.isDigit || ('a' ≤ c && c ≤ 'f')))

section Reasons

-- `JSON.stringify`, of a text
variable (json : Text → Text)

def invalidTarget (target : Text) : Text :=
  "target version ".toList ++ json target ++ " is not a valid k3s version (want vX.Y.Z+k3sN)".toList

def invalidCurrent (current : Text) : Text :=
  "current cluster version ".toList ++ json current ++
    " is not a valid k3s version (want vX.Y.Z+k3sN)".toList

def crossMajor (c t : K3sVersion) : Text :=
  "refusing cross-major upgrade ".toList ++ c.raw ++ " → ".toList ++ t.raw

def notNewer (c t : K3sVersion) : Text :=
  "refusing downgrade / no-op ".toList ++ c.raw ++ " → ".toList ++ t.raw

def text : Double → Text := WithTop.recTopCoe "Infinity".toList numberText

def K3sVersion.release (v : K3sVersion) : Text :=
  "(".toList ++ text v.major ++ '.' :: text v.minor ++ [')']

def skipsMinor (c t : K3sVersion) : Text :=
  "refusing skip-a-minor upgrade ".toList ++ c.raw ++ ' ' :: c.release ++ " → ".toList ++ t.raw ++
    ' ' :: t.release ++ "; upgrade one minor at a time".toList

def invalidImage (image : Text) : Text :=
  "refusing invalid --upgrade-image ".toList ++ json image ++
    " (must be a valid image ref, no shell metacharacters)".toList

def refused (c t : K3sVersion) : Option Text :=
  if t.major ≠ c.major then some (crossMajor c t)
  else if t.minor < c.minor ∨ (t.minor = c.minor ∧ isNewer c t = false) then some (notNewer c t)
  else none

/-- The loop over the minors from `m` on, and the last step. -/
def upgradeSteps (t : K3sVersion) : ℕ → Double → Option (List UpgradeStep)
  | 0, _ => none
  | fuel + 1, m =>
    if m < t.minor then (upgradeSteps t fuel (addOne m)).map (⟨t.major, m, false⟩ :: ·)
    else some [⟨t.major, t.minor, true⟩]

def planK3sUpgradePath (fuel : ℕ) (target current : Text) : Option (Except Text (List UpgradeStep)) :=
  match parseK3sVersion target with
  | none => some (.error (invalidTarget json target))
  | some t =>
    match parseK3sVersion current with
    | none => some (.error (invalidCurrent json current))
    | some c =>
      match refused c t with
      | some reason => some (.error reason)
      | none => (upgradeSteps t fuel (addOne c.minor)).map .ok

def buildK3sUpgradePlans (target current : Text) (opts : BuildPlanOpts) :
    Except Text (Text × List Plan) :=
  match parseK3sVersion target with
  | none => .error (invalidTarget json target)
  | some t =>
    match parseK3sVersion current with
    | none => .error (invalidCurrent json current)
    | some c =>
      match refused c t with
      | some reason => .error reason
      | none =>
        if addOne c.minor < t.minor then .error (skipsMinor c t)
        else if opts.upgradeImage.any fun image => !imageRefValid image then
          .error (invalidImage json (opts.upgradeImage.getD []))
        else
          let image := opts.upgradeImage.getD upgradeImage
          let version := if t.raw.head? = some 'v' then t.raw else 'v' :: t.raw
          .ok (version,
            [⟨"k3s-server-upgrade", true, none, none, image, version⟩,
              ⟨"k3s-agent-upgrade", false, some (opts.drainDeleteTimeout.getD 60),
                some "k3s-server-upgrade", image, version⟩])

def noOpts : BuildPlanOpts := ⟨none, none⟩

def Accepts (target current : Text) : Prop :=
  ∃ plans, buildK3sUpgradePlans json target current noOpts = .ok plans

end Reasons

/-! ## The offer -/

def lower (low kubelet : Option Text) : Option Text :=
  match kubelet with
  | none => low
  | some v =>
    if (parseK3sVersion v).isNone then low
    else
      match low with
      | none => some v
      | some l => if k3sVersionAtLeast v l then some l else some v

def lowestKubelet (kubelets : List (Option Text)) : Option Text := kubelets.foldl lower none

inductive Offer
  | offered
  | withheld (reason : Option Text)
deriving DecidableEq

def unreadable : Text := "the cluster's Kubernetes version could not be read".toList

def changesMajor (current target : Text) : Text :=
  "Kubernetes ".toList ++ current ++ " → ".toList ++ target ++
    " changes the major version — not offered here".toList

def skips (current target : Text) : Text :=
  "Kubernetes ".toList ++ current ++ " → ".toList ++ target ++ (" skips a minor version; run " ++
    "\x60insula cluster upgrade\x60, which steps one minor at a time").toList

def kubernetesOffer (current target : Option Text) : Offer :=
  match target with
  | none => .withheld none
  | some target =>
    if target = [] then .withheld none
    else
      match parseK3sVersion target, current.bind fun text => (parseK3sVersion text).map fun c =>
        (text, c) with
      | some t, some (text, c) =>
        if k3sVersionAtLeast text target then .withheld none
        else if t.major ≠ c.major then .withheld (some (changesMajor text target))
        else if addOne c.minor < t.minor then .withheld (some (skips text target))
        else .offered
      | _, _ => .withheld (some unreadable)

/-! ## One order behind the three rules -/

def K3sVersion.rank (v : K3sVersion) : Double ×ₗ Double ×ₗ Double ×ₗ Double :=
  toLex (v.major, toLex (v.minor, toLex (v.patch, v.k3s)))

theorem ite_ne_iff {α : Type} [LinearOrder α] {x y : α} {p : Bool} :
    (if x ≠ y then decide (y < x) else p) = true ↔ y < x ∨ (y = x ∧ p = true) := by
  by_cases h : x = y
  · simp [h]
  · simp [h, Ne.symm h]

variable {a b : K3sVersion}

theorem K3sVersion.atLeast_iff {v : K3sVersion} : v.atLeast a = true ↔ a.rank ≤ v.rank := by
  unfold K3sVersion.atLeast K3sVersion.rank
  simp only [Prod.Lex.toLex_le_toLex, ite_ne_iff, decide_eq_true_eq]

theorem isNewer_iff (h : b.major = a.major) : isNewer a b = true ↔ a.rank < b.rank := by
  unfold isNewer K3sVersion.rank
  simp only [Prod.Lex.toLex_lt_toLex, ite_ne_iff, decide_eq_true_eq, h, lt_irrefl, false_or, true_and]

theorem rank_lt_iff (h : b.major = a.major) :
    a.rank < b.rank ↔ a.minor < b.minor ∨ (a.minor = b.minor ∧ isNewer a b = true) := by
  rw [isNewer_iff h]
  unfold K3sVersion.rank
  simp only [Prod.Lex.toLex_lt_toLex, h, lt_irrefl, false_or, true_and]
  tauto

theorem refused_eq_none_iff {c t : K3sVersion} :
    refused c t = none ↔ t.major = c.major ∧ c.rank < t.rank := by
  unfold refused
  by_cases hmajor : t.major = c.major
  · rw [if_neg (by simp [hmajor]), rank_lt_iff hmajor]
    rcases lt_trichotomy c.minor t.minor with hlt | heq | hgt
    · simp [hmajor, hlt, hlt.not_gt, hlt.ne']
    · cases hnewer : isNewer c t <;> simp [hmajor, heq]
    · simp [hgt, hgt.not_gt, hgt.ne']
  · simp [hmajor]

variable {json : Text → Text} {target current : Text} {t c : K3sVersion}

theorem accepts_iff (ht : parseK3sVersion target = some t) (hc : parseK3sVersion current = some c) :
    Accepts json target current ↔ t.major = c.major ∧ c.rank < t.rank ∧ t.minor ≤ addOne c.minor := by
  unfold Accepts buildK3sUpgradePlans
  rw [ht, hc]
  dsimp only
  cases hrefused : refused c t with
  | some reason =>
    have h : ¬ (t.major = c.major ∧ c.rank < t.rank) := by
      intro h
      simp [refused_eq_none_iff.mpr h] at hrefused
    simp only [reduceCtorEq, exists_false, false_iff]
    tauto
  | none =>
    have h := refused_eq_none_iff.mp hrefused
    by_cases hskip : addOne c.minor < t.minor
    · simp [hskip, not_le.mpr hskip]
    · simp [hskip, noOpts, h, not_lt.mp hskip]

/-! ## The path -/

/-- A version that a step may be carried out with: any patch of its minor, but the target itself at
the end. -/
def Resolves (target : Text) (step : UpgradeStep) (version : Text) : Prop :=
  if step.isFinal then version = target
  else ∃ v, parseK3sVersion version = some v ∧ v.major = step.major ∧ v.minor = step.minor

structure LeadsTo (c t : K3sVersion) (steps : List UpgradeStep) : Prop where
  starts : steps.head?.map UpgradeStep.minor = some (if t.minor = c.minor then t.minor else c.minor + 1)
  rises : steps.IsChain fun a b => b.major = a.major ∧ b.minor = a.minor + 1
  ends : steps.getLast? = some ⟨t.major, t.minor, true⟩

/-- Numbers below `2 ^ 53`, which are read as they are written. -/
structure K3sVersion.Exact (v : K3sVersion) : Prop where
  major : v.major < (2 ^ 53 : ℕ)
  minor : v.minor < (2 ^ 53 : ℕ)
  patch : v.patch < (2 ^ 53 : ℕ)
  k3s : v.k3s < (2 ^ 53 : ℕ)

def stepsFrom (t : K3sVersion) (m k : ℕ) : List UpgradeStep :=
  (List.range' m k).map (fun m => ⟨t.major, m, false⟩) ++ [⟨t.major, t.minor, true⟩]

theorem upgradeSteps_eq {m k fuel : ℕ} (hminor : t.minor = (m + k : ℕ)) (hk : m + k < 2 ^ 53)
    (hfuel : k < fuel) : upgradeSteps t fuel m = some (stepsFrom t m k) := by
  induction fuel generalizing m k with
  | zero => omega
  | succ fuel ih =>
    cases k with
    | zero => simp [upgradeSteps, hminor, stepsFrom]
    | succ k =>
      have hlt : (m : Double) < t.minor := by
        rw [hminor, Nat.cast_lt]
        omega
      have hrest := ih (m := m + 1) (k := k) (by rw [hminor]; congr 1; omega) (by omega) (by omega)
      rw [upgradeSteps, if_pos hlt, addOne_coe (by omega), hrest]
      simp [stepsFrom, List.range'_succ]

theorem upgradeSteps_over {m : Double} {fuel : ℕ} (h : ¬ m < t.minor) (hfuel : 0 < fuel) :
    upgradeSteps t fuel m = some (stepsFrom t 0 0) := by
  cases fuel with
  | zero => omega
  | succ fuel => simp [upgradeSteps, h, stepsFrom]

def pathSteps (t : K3sVersion) (a b : ℕ) : List UpgradeStep := stepsFrom t (a + 1) (b - (a + 1))

/-- A number of turns of the loop is enough for the call to return. -/
def Returns (json : Text → Text) (target current : Text) (result : Except Text (List UpgradeStep)) :
    Prop :=
  ∃ turns, ∀ fuel, turns < fuel → planK3sUpgradePath json fuel target current = some result

theorem returns_refused (ht : parseK3sVersion target = some t) (hc : parseK3sVersion current = some c)
    {reason : Text} (h : refused c t = some reason) : Returns json target current (.error reason) := by
  refine ⟨0, fun fuel _ => ?_⟩
  unfold planK3sUpgradePath
  rw [ht, hc]
  dsimp only
  rw [h]

theorem returns_path (ht : parseK3sVersion target = some t) (hc : parseK3sVersion current = some c)
    (h : refused c t = none) {a b : ℕ} (ha : c.minor = a) (hb : t.minor = b) (hexact : b < 2 ^ 53)
    (hle : a ≤ b) : Returns json target current (.ok (pathSteps t a b)) := by
  refine ⟨b, fun fuel hfuel => ?_⟩
  unfold planK3sUpgradePath
  rw [ht, hc]
  dsimp only
  rw [h]
  dsimp only
  rw [ha, addOne_coe (by omega)]
  by_cases hlt : a < b
  · have hminor : t.minor = (a + 1 + (b - (a + 1)) : ℕ) := by
      rw [hb, Nat.add_sub_cancel' hlt]
    rw [upgradeSteps_eq hminor (by omega) (by omega)]
    rfl
  · rw [upgradeSteps_over (by rw [hb, Nat.cast_lt]; omega) (by omega)]
    simp [pathSteps, stepsFrom, show b - (a + 1) = 0 by omega]

theorem leadsTo_pathSteps {a b : ℕ} (ha : c.minor = a) (hb : t.minor = b) (hle : a ≤ b) :
    LeadsTo c t (pathSteps t a b) where
  starts := by
    unfold pathSteps stepsFrom
    rw [ha, hb]
    generalize hk : b - (a + 1) = k
    cases k with
    | zero =>
      have hminor : (b : Double) = if (b : Double) = a then (b : Double) else a + 1 := by
        split_ifs with heq
        · rfl
        · have hne : b ≠ a := fun h => heq (congrArg _ h)
          exact_mod_cast (show b = a + 1 by omega)
      simpa [hb] using hminor
    | succ k =>
      have hne : (b : Double) ≠ a := by
        rw [Ne, Nat.cast_inj]
        omega
      simp [List.range'_succ, hne]
  rises := by
    have hchain : ∀ k m, (m + k : ℕ) = t.minor →
        (stepsFrom t m k).IsChain fun a b => b.major = a.major ∧ b.minor = a.minor + 1 := by
      intro k
      induction k with
      | zero => simp [stepsFrom]
      | succ k ih =>
        intro m hm
        have hrest := ih (m + 1) (by rw [← hm]; congr 1; omega)
        cases k with
        | zero => simp [stepsFrom, ← hm]
        | succ k =>
          simp only [stepsFrom, List.range'_succ, List.map_cons, List.cons_append] at hrest ⊢
          exact hrest.cons_cons ⟨rfl, by simp⟩
    unfold pathSteps
    by_cases hlt : a + 1 ≤ b
    · exact hchain _ _ (by rw [hb]; congr 1; omega)
    · simp [stepsFrom, show b - (a + 1) = 0 by omega]
  ends := by simp [pathSteps, stepsFrom]

theorem accepts_pathSteps {a b : ℕ} (ht : parseK3sVersion target = some t)
    (hc : parseK3sVersion current = some c) (hmajor : t.major = c.major) (hlt : c.rank < t.rank)
    (ha : c.minor = a) (hb : t.minor = b) (hexact : b < 2 ^ 53) (hle : a ≤ b) (versions : List Text)
    (hversions : List.Forall₂ (Resolves target) (pathSteps t a b) versions) :
    (current :: versions).IsChain fun before version => Accepts json version before := by
  have hnext : addOne c.minor = (a + 1 : ℕ) := by rw [ha, addOne_coe (by omega)]
  unfold pathSteps stepsFrom at hversions
  generalize hk : b - (a + 1) = k at hversions
  induction k generalizing current c versions a with
  | zero =>
    obtain ⟨version, rest, hversion, hrest, rfl⟩ := List.forall₂_cons_left_iff.mp hversions
    obtain rfl := List.forall₂_nil_left_iff.mp hrest
    obtain rfl : version = target := by simpa [Resolves] using hversion
    have hstep : t.minor ≤ addOne c.minor := by
      rw [hnext, hb, Nat.cast_le]
      omega
    have haccepts : Accepts json version current := (accepts_iff ht hc).mpr ⟨hmajor, hlt, hstep⟩
    exact List.IsChain.cons_cons haccepts (List.IsChain.singleton _)
  | succ k ih =>
    obtain ⟨version, rest, hversion, hrest, rfl⟩ := List.forall₂_cons_left_iff.mp hversions
    obtain ⟨v, hv, hvmajor, hvminor⟩ : ∃ v, parseK3sVersion version = some v ∧ v.major = t.major ∧
        v.minor = (a + 1 : ℕ) := by simpa [Resolves] using hversion
    have hrises : c.minor < v.minor := by
      rw [ha, hvminor, Nat.cast_lt]
      omega
    have hbelow : v.minor < t.minor := by
      rw [hb, hvminor, Nat.cast_lt]
      omega
    have haccepts : Accepts json version current := (accepts_iff hv hc).mpr
      ⟨hvmajor.trans hmajor, (rank_lt_iff (hvmajor.trans hmajor)).mpr (.inl hrises),
        (hvminor.trans hnext.symm).le⟩
    exact List.IsChain.cons_cons haccepts
      (ih hv hvmajor.symm ((rank_lt_iff hvmajor.symm).mpr (.inl hbelow))
      hvminor (by omega) rest (by rw [hvminor, addOne_coe (by omega)]) (by omega) hrest)

theorem exists_coe {x : Double} (h : x < (2 ^ 53 : ℕ)) : ∃ n : ℕ, x = n ∧ n < 2 ^ 53 := by
  obtain ⟨n, rfl⟩ := WithTop.ne_top_iff_exists.mp (h.trans_le le_top).ne
  exact ⟨n, rfl, Nat.cast_lt.mp h⟩

/-! ## The lowest version -/

theorem k3sVersionAtLeast_iff (ht : parseK3sVersion target = some t)
    (hc : parseK3sVersion current = some c) :
    k3sVersionAtLeast current target = true ↔ t.rank ≤ c.rank := by
  unfold k3sVersionAtLeast
  rw [ht, hc]
  exact K3sVersion.atLeast_iff

def Lowest (seen : List (Option Text)) : Option Text → Prop
  | none => ∀ text, some text ∈ seen → parseK3sVersion text = none
  | some low => ∃ l, parseK3sVersion low = some l ∧
      ∀ text v, some text ∈ seen → parseK3sVersion text = some v → l.rank ≤ v.rank

theorem lowest_push {seen : List (Option Text)} {low text : Text} {l : K3sVersion}
    (hl : parseK3sVersion low = some l)
    (hseen : ∀ other v, some other ∈ seen → parseK3sVersion other = some v → l.rank ≤ v.rank)
    (hnew : ∀ v, parseK3sVersion text = some v → l.rank ≤ v.rank) :
    Lowest (seen ++ [some text]) (some low) := by
  refine ⟨l, hl, fun other v hother hv => ?_⟩
  rcases List.mem_append.mp hother with h | h
  · exact hseen other v h hv
  · obtain rfl : other = text := by simpa using h
    exact hnew v hv

theorem Lowest.lower {seen : List (Option Text)} {low : Option Text} (h : Lowest seen low)
    (kubelet : Option Text) : Lowest (seen ++ [kubelet]) (lower low kubelet) := by
  cases kubelet with
  | none => cases low <;> simpa [Lowest, K3sUpgrades.lower] using h
  | some text =>
    cases hv : parseK3sVersion text with
    | none =>
      have hlower : K3sUpgrades.lower low (some text) = low := by simp [K3sUpgrades.lower, hv]
      rw [hlower]
      cases low with
      | none => simpa [Lowest, hv, or_imp, forall_and] using h
      | some low =>
        obtain ⟨l, hl, hbelow⟩ := h
        exact lowest_push hl hbelow (by simp [hv])
    | some v =>
      cases low with
      | none =>
        have hlower : K3sUpgrades.lower none (some text) = some text := by
          simp [K3sUpgrades.lower, hv]
        rw [hlower]
        exact lowest_push hv (fun other w hother hw => by simp [h other hother] at hw) (by simp [hv])
      | some low =>
        obtain ⟨l, hl, hbelow⟩ := h
        have hatLeast := k3sVersionAtLeast_iff hl hv
        by_cases hle : l.rank ≤ v.rank
        · have hlower : K3sUpgrades.lower (some low) (some text) = some low := by
            simp [K3sUpgrades.lower, hv, hatLeast.mpr hle]
          rw [hlower]
          exact lowest_push hl hbelow (by simpa [hv] using hle)
        · have hlower : K3sUpgrades.lower (some low) (some text) = some text := by
            simp [K3sUpgrades.lower, hv, mt hatLeast.mp hle]
          rw [hlower]
          exact lowest_push hv
            (fun other w hother hw => (le_of_not_ge hle).trans (hbelow other w hother hw))
            (by simp [hv])

theorem lowest_lowestKubelet (kubelets : List (Option Text)) :
    Lowest kubelets (lowestKubelet kubelets) := by
  induction kubelets using List.reverseRecOn with
  | nil => simp [lowestKubelet, Lowest]
  | append_singleton seen kubelet ih =>
    have hstep : lowestKubelet (seen ++ [kubelet]) = lower (lowestKubelet seen) kubelet := by
      simp [lowestKubelet]
    exact hstep ▸ ih.lower kubelet

theorem kubernetesOffer_iff (low : Option Text) (target : Text) :
    kubernetesOffer low (some target) = .offered ↔ ∃ text l t, low = some text ∧
      parseK3sVersion text = some l ∧ parseK3sVersion target = some t ∧
      t.major = l.major ∧ l.rank < t.rank ∧ t.minor ≤ addOne l.minor := by
  unfold kubernetesOffer
  by_cases hempty : target = []
  · subst hempty
    have hnone : parseK3sVersion [] = none := by decide
    simp [hnone]
  cases low with
  | none => simp [hempty]
  | some text =>
    cases ht : parseK3sVersion target with
    | none => simp [hempty, ht]
    | some t =>
      cases hl : parseK3sVersion text with
      | none => simp [hempty, hl]
      | some l =>
        have hatLeast := k3sVersionAtLeast_iff ht hl
        simp only [hempty, if_false, Option.bind_some, hl, Option.map_some, ht]
        by_cases hle : t.rank ≤ l.rank
        · simp [hatLeast.mpr hle, hl, not_lt.mpr hle]
        · have hlt := not_le.mp hle
          by_cases hmajor : t.major = l.major
          · by_cases hskip : addOne l.minor < t.minor
            · simp [mt hatLeast.mp hle, hmajor, hskip, hl]
            · simp [mt hatLeast.mp hle, hmajor, hskip, hl, hlt, not_lt.mp hskip]
          · simp [mt hatLeast.mp hle, hmajor, hl]

theorem major_le_of_rank_le (h : a.rank ≤ b.rank) : a.major ≤ b.major := by
  unfold K3sVersion.rank at h
  rw [Prod.Lex.toLex_le_toLex] at h
  exact h.elim le_of_lt fun h => h.1.le

theorem accepts_of_kubernetesOffer {kubelets : List (Option Text)}
    (hoffer : kubernetesOffer (lowestKubelet kubelets) (some target) = .offered) {node : Text}
    (hnode : some node ∈ kubelets) (hc : parseK3sVersion node = some c)
    (hbelow : k3sVersionAtLeast node target = false) : Accepts json target node := by
  obtain ⟨low, l, t, hlow, hl, ht, hmajor, hlt, hminor⟩ := (kubernetesOffer_iff _ _).mp hoffer
  have hlowest := lowest_lowestKubelet kubelets
  rw [hlow] at hlowest
  obtain ⟨l', hl', hleast⟩ := hlowest
  obtain rfl : l = l' := Option.some.inj (hl.symm.trans hl')
  have hle := hleast node c hnode hc
  have hct : c.rank < t.rank := by
    have hnot := mt (k3sVersionAtLeast_iff ht hc).mpr
    rw [hbelow] at hnot
    exact not_le.mp (hnot (by simp))
  have hmajors : c.major = l.major := by
    refine le_antisymm ?_ (major_le_of_rank_le hle)
    exact hmajor ▸ major_le_of_rank_le hct.le
  have hminors : l.minor ≤ c.minor := by
    unfold K3sVersion.rank at hle
    simp only [Prod.Lex.toLex_le_toLex, hmajors, lt_irrefl, false_or, true_and] at hle
    exact hle.elim le_of_lt fun h => h.1.le
  exact (accepts_iff ht hc).mpr ⟨hmajor.trans hmajors.symm, hct, hminor.trans (addOne_mono hminors)⟩

/-- The three rules agree on what a step may be. -/
theorem upgrades_agree (json : Text → Text) :
    (∀ target current t c, parseK3sVersion target = some t → parseK3sVersion current = some c →
      t.Exact → c.Exact → ∃ result, Returns json target current result ∧
        ((∃ reason, result = .error reason) ↔ t.major ≠ c.major ∨ t.rank ≤ c.rank) ∧
        ∀ steps, result = .ok steps → LeadsTo c t steps ∧
          ∀ versions, List.Forall₂ (Resolves target) steps versions →
            (current :: versions).IsChain fun before version => Accepts json version before) ∧
    ∀ kubelets target, kubernetesOffer (lowestKubelet kubelets) (some target) = .offered →
      ∀ node c, some node ∈ kubelets → parseK3sVersion node = some c →
        k3sVersionAtLeast node target = false → Accepts json target node := by
  refine ⟨fun target current t c ht hc htexact hcexact => ?_,
    fun kubelets target hoffer node c hnode hc hbelow =>
    accepts_of_kubernetesOffer hoffer hnode hc hbelow⟩
  cases hrefused : refused c t with
  | some reason =>
    have hnot : ¬ (t.major = c.major ∧ c.rank < t.rank) := by
      intro h
      simp [refused_eq_none_iff.mpr h] at hrefused
    refine ⟨.error reason, returns_refused ht hc hrefused, ⟨fun _ => ?_, fun _ => ⟨reason, rfl⟩⟩,
      fun steps hsteps => nomatch hsteps⟩
    rw [← not_lt]
    tauto
  | none =>
    obtain ⟨hmajor, hlt⟩ := refused_eq_none_iff.mp hrefused
    obtain ⟨a, ha, -⟩ := exists_coe hcexact.minor
    obtain ⟨b, hb, hexact⟩ := exists_coe htexact.minor
    have hminors : c.minor ≤ t.minor := ((rank_lt_iff hmajor).mp hlt).elim le_of_lt fun h => h.1.le
    rw [ha, hb] at hminors
    have hle : a ≤ b := Nat.cast_le.mp hminors
    refine ⟨.ok (pathSteps t a b), returns_path ht hc hrefused ha hb hexact hle,
      ⟨fun h => ?_, fun h => ?_⟩, fun steps hsteps => ?_⟩
    · obtain ⟨reason, hreason⟩ := h
      cases hreason
    · exact absurd h (by simp [hmajor, not_le.mpr hlt])
    · obtain rfl := Except.ok.inj hsteps
      exact ⟨leadsTo_pathSteps ha hb hle, accepts_pathSteps ht hc hmajor hlt ha hb hexact hle⟩

def mixedKubelets : List (Option Text) :=
  [some "v1.31.2+k3s1".toList, none, some "v1.30.4+k3s1".toList, some "v1.31.5+k3s1".toList]

theorem mixed_cluster_upgrades :
    kubernetesOffer (lowestKubelet mixedKubelets) (some "v1.31.5+k3s1".toList) = .offered ∧
      Accepts id "v1.31.5+k3s1".toList "v1.30.4+k3s1".toList ∧
      ∃ result, Returns id "v1.31.5+k3s1".toList "v1.28.4+k3s1".toList result ∧
        ¬ ∃ reason, result = .error reason := by
  obtain ⟨hpath, hoffer⟩ := upgrades_agree id
  refine ⟨by decide +kernel, hoffer mixedKubelets "v1.31.5+k3s1".toList (by decide +kernel)
    "v1.30.4+k3s1".toList ⟨1, 30, 4, 1, "v1.30.4+k3s1".toList⟩ (by decide)
    (by decide +kernel) (by decide +kernel), ?_⟩
  obtain ⟨result, hreturns, hrefuses, -⟩ := hpath "v1.31.5+k3s1".toList "v1.28.4+k3s1".toList
    ⟨1, 31, 5, 1, "v1.31.5+k3s1".toList⟩
    ⟨1, 28, 4, 1, "v1.28.4+k3s1".toList⟩ (by decide +kernel) (by decide +kernel)
    ⟨by decide +kernel, by decide +kernel, by decide +kernel, by decide +kernel⟩
    ⟨by decide +kernel, by decide +kernel, by decide +kernel, by decide +kernel⟩
  refine ⟨result, hreturns, fun h => ?_⟩
  exact absurd (hrefuses.mp h) (by decide +kernel)

def Numbers.rank (m : Numbers) : ℕ ×ₗ ℕ ×ₗ ℕ ×ₗ ℕ :=
  toLex (m.major, toLex (m.minor, toLex (m.patch, m.k3s)))

theorem upgradeSteps_stuck {m : Double} (hlt : m < t.minor) (hstuck : addOne m = m) (fuel : ℕ) :
    upgradeSteps t fuel m = none := by
  induction fuel with
  | zero => rfl
  | succ fuel ih => rw [upgradeSteps, if_pos hlt, hstuck, ih, Option.map_none]

/-- A node that is at the target already has no step to it; a patch above `2 ^ 53` is not told from
the one below it; and minors above `2 ^ 53` are not counted through. -/
theorem offered_beyond_a_node :
    (¬ ∀ (json : Text → Text) (kubelets : List (Option Text)) (target : Text),
      kubernetesOffer (lowestKubelet kubelets) (some target) = .offered →
        ∀ node, some node ∈ kubelets → Accepts json target node) ∧
    (¬ ∀ (json : Text → Text) (target current : Text) (t c : Numbers),
      matchK3sVersion (trim target) = some t → matchK3sVersion (trim current) = some c →
        t.major = c.major → c.rank < t.rank → ∀ reason, ¬ Returns json target current (.error reason)) ∧
    ¬ ∀ (json : Text → Text) (target current : Text) (t c : K3sVersion),
      parseK3sVersion target = some t → parseK3sVersion current = some c →
        ∃ result, Returns json target current result := by
  refine ⟨fun h => ?_, fun h => ?_, fun h => ?_⟩
  · have htarget : parseK3sVersion "v1.31.5+k3s1".toList =
        some ⟨1, 31, 5, 1, "v1.31.5+k3s1".toList⟩ := by
      decide +kernel
    have haccepts := h id mixedKubelets "v1.31.5+k3s1".toList (by decide +kernel) "v1.31.5+k3s1".toList
      (by decide)
    exact absurd ((accepts_iff htarget htarget).mp haccepts).2.1 (lt_irrefl _)
  · have hread : ∀ text ∈ ["v1.31.9007199254740993+k3s1".toList, "v1.31.9007199254740992+k3s1".toList],
        parseK3sVersion text = some ⟨1, 31, 9007199254740992, 1, text⟩ := by
      decide +kernel
    have hrefused : (refused ⟨1, 31, 9007199254740992, 1, "v1.31.9007199254740992+k3s1".toList⟩
        ⟨1, 31, 9007199254740992, 1, "v1.31.9007199254740993+k3s1".toList⟩).isSome = true := by
      decide +kernel
    obtain ⟨reason, hreason⟩ := Option.isSome_iff_exists.mp hrefused
    exact h id _ _ ⟨1, 31, 9007199254740993, 1⟩ ⟨1, 31, 9007199254740992, 1⟩ (by decide) (by decide) rfl
      (by decide) reason
      (returns_refused (hread _ List.mem_cons_self)
        (hread _ (List.mem_cons_of_mem _ List.mem_cons_self)) hreason)
  · have hread : parseK3sVersion "v1.9007199254740994.0+k3s1".toList =
        some ⟨1, 9007199254740994, 0, 1, "v1.9007199254740994.0+k3s1".toList⟩ := by
      decide +kernel
    have hread' : parseK3sVersion "v1.9007199254740991.0+k3s1".toList =
        some ⟨1, 9007199254740991, 0, 1, "v1.9007199254740991.0+k3s1".toList⟩ := by
      decide +kernel
    obtain ⟨result, turns, hreturns⟩ := h id _ _ _ _ hread hread'
    have hresult := hreturns (turns + 1) (by omega)
    have hrefused : refused ⟨1, 9007199254740991, 0, 1, "v1.9007199254740991.0+k3s1".toList⟩
        ⟨1, 9007199254740994, 0, 1, "v1.9007199254740994.0+k3s1".toList⟩ = none := by
      decide +kernel
    unfold planK3sUpgradePath at hresult
    rw [hread, hread'] at hresult
    dsimp only at hresult
    rw [hrefused] at hresult
    dsimp only at hresult
    rw [upgradeSteps_stuck (by decide +kernel) (by decide +kernel)] at hresult
    cases hresult

end Insula.K3sUpgrades
