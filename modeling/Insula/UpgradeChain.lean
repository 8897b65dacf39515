import Insula.BreadthFirst
import Insula.VersionChanges

/-!
# The recommended chain of upgrades

A strict entry upgrades through the versions that list the one before them. `findUpgradeChain`
searches the versions breadth first, and every hop of what it finds passes the check of an upgrade.
-/

namespace Insula.Deployments

open BreadthFirst

variable (versions : List CatalogVersion)

/-- Edges from a version to those that list it in their `upgradeFrom`, in the order of the rows. -/
def incoming (f : String) : List String :=
  versions.flatMap fun v => ((v.upgradeFrom.getD []).filter (· = f)).map fun _ => v.version

theorem mem_incoming {f n : String} :
    n ∈ incoming versions f ↔ ∃ v ∈ versions, v.version = n ∧ f ∈ v.upgradeFrom.getD [] := by
  unfold incoming
  simp only [List.mem_flatMap, List.mem_map, List.mem_filter, decide_eq_true_eq]
  constructor
  · rintro ⟨v, hv, g, ⟨hg, rfl⟩, rfl⟩
    exact ⟨v, hv, rfl, hg⟩
  · rintro ⟨v, hv, rfl, hf⟩
    exact ⟨v, hv, f, ⟨hf, rfl⟩, rfl⟩

def upgradeGraph : Graph String where
  next := incoming versions
  nodes := versions.map CatalogVersion.version
  closed := by
    intro f n hn
    obtain ⟨v, hv, rfl, -⟩ := (mem_incoming versions).mp hn
    exact List.mem_map_of_mem hv

def findUpgradeChain (start stop : String) : List String :=
  shortestPath (upgradeGraph versions) stop start

/-! ## Chains -/

/-- A declared version that may be upgraded into from `f`. -/
def Lists (f n : String) : Prop :=
  ∃ v ∈ versions, v.version = n ∧ f ∈ v.upgradeFrom.getD []

def IsUpgradeChain : String → List String → String → Prop
  | start, [], stop => start = stop
  | start, v :: chain, stop => Lists versions start v ∧ IsUpgradeChain v chain stop

variable {versions} {start x y stop : String} {path chain : List String}

theorem IsUpgradeChain.snoc (h : IsUpgradeChain versions start chain x) (hy : Lists versions x y) :
    IsUpgradeChain versions start (chain ++ [y]) y := by
  induction chain generalizing start with
  | nil =>
    cases h
    exact ⟨hy, rfl⟩
  | cons v chain ih => exact ⟨h.1, ih h.2⟩

theorem isUpgradeChain_of_walks (h : Walks (upgradeGraph versions) start path x) :
    IsUpgradeChain versions start path x := by
  induction h with
  | nil => exact rfl
  | snoc _ hedge ih => exact ih.snoc ((mem_incoming versions).mp hedge)

theorem Walks.append_chain (h : Walks (upgradeGraph versions) start path x)
    (hchain : IsUpgradeChain versions x chain stop) :
    Walks (upgradeGraph versions) start (path ++ chain) stop := by
  induction chain generalizing path x with
  | nil =>
    cases hchain
    rw [List.append_nil]
    exact h
  | cons v chain ih =>
    rw [List.append_cons]
    exact ih (h.snoc ((mem_incoming versions).mpr hchain.1)) hchain.2

theorem walks_iff_isUpgradeChain :
    Walks (upgradeGraph versions) start path x ↔ IsUpgradeChain versions start path x := by
  constructor
  · exact isUpgradeChain_of_walks
  · intro h
    exact Walks.append_chain .nil h

def ShortestChain (versions : List CatalogVersion) (start : String) (chain : List String)
    (stop : String) :
    Prop :=
  IsUpgradeChain versions start chain stop ∧
    ∀ other, IsUpgradeChain versions start other stop → chain.length ≤ other.length

theorem shortest_iff :
    Shortest (upgradeGraph versions) start chain stop ↔ ShortestChain versions start chain stop := by
  unfold Shortest ShortestChain
  simp only [walks_iff_isUpgradeChain]

theorem ShortestChain.tail {v : String} (h : ShortestChain versions start (v :: chain) stop) :
    ShortestChain versions v chain stop := by
  refine ⟨h.1.2, ?_⟩
  intro other hother
  have hle := h.2 (v :: other) ⟨h.1.1, hother⟩
  rw [List.length_cons, List.length_cons] at hle
  omega

theorem ShortestChain.moves {v : String} (h : ShortestChain versions start (v :: chain) stop) :
    v ≠ start := by
  rintro rfl
  have hle := h.2 chain h.1.2
  rw [List.length_cons] at hle
  omega

/-! ## The check of an upgrade -/

/-- The versions of the chain are installed one after another: each is declared, is not installed
yet and passes the check of the upgrade without force. -/
def AcceptsHops (versions : List CatalogVersion) (entry : CatalogEntry) (deployment : Deployment) :
    List String → Prop
  | [] => True
  | v :: chain =>
    (∃ target, versions.find? (·.version = v) = some target ∧ deployment.installedVersion ≠ some v ∧
      assertUpgradePath deployment entry target { targetVersion := v, force := false } = pure ()) ∧
    AcceptsHops versions entry ((upgradeFinish v).applyTo deployment) chain

theorem find_of_nodup {v : CatalogVersion} (hnames : (versions.map CatalogVersion.version).Nodup)
    (hv : v ∈ versions) : versions.find? (·.version = v.version) = some v := by
  induction versions with
  | nil => cases hv
  | cons w versions ih =>
    rw [List.map_cons, List.nodup_cons] at hnames
    by_cases heq : w.version = v.version
    · rw [List.find?_cons_of_pos (by simpa using heq)]
      rcases List.mem_cons.mp hv with rfl | hv
      · rfl
      · exact absurd (heq ▸ List.mem_map_of_mem hv) hnames.1
    · rw [List.find?_cons_of_neg (by simpa using heq)]
      rcases List.mem_cons.mp hv with rfl | hv
      · exact absurd rfl heq
      · exact ih hnames.2 hv

theorem assertUpgradePath_of_mem {entry : CatalogEntry} {deployment : Deployment}
    {target : CatalogVersion} {input : UpgradeVersionInput}
    (hinstalled : deployment.installedVersion = some x) (hfrom : x ∈ target.upgradeFrom.getD []) :
    assertUpgradePath deployment entry target input = pure () := by
  unfold assertUpgradePath
  rw [hinstalled, Option.filter_some]
  by_cases hempty : x = ""
  · rw [if_neg (by simpa using hempty)]
  · rw [if_pos (by simpa using hempty)]
    simp only [hfrom, decide_true, Bool.or_true, if_true]

theorem acceptsHops_of_shortest {entry : CatalogEntry} {deployment : Deployment}
    (hnames : (versions.map CatalogVersion.version).Nodup)
    (hinstalled : deployment.installedVersion = some start)
    (h : ShortestChain versions start chain stop) :
    AcceptsHops versions entry deployment chain := by
  induction chain generalizing start deployment with
  | nil => exact trivial
  | cons v chain ih =>
    obtain ⟨target, htarget, rfl, hfrom⟩ := h.1.1
    constructor
    · refine ⟨target, find_of_nodup hnames htarget, ?_, assertUpgradePath_of_mem hinstalled hfrom⟩
      rw [hinstalled]
      intro heq
      exact h.moves (Option.some.inj heq).symm
    · exact ih (by rfl) h.tail

/-- The chain is found when there is one, it is a shortest one, and its hops are accepted in every
lock mode. -/
theorem findUpgradeChain_shortest (versions : List CatalogVersion)
    (hnames : (versions.map CatalogVersion.version).Nodup) (start stop : String) :
    (findUpgradeChain versions start stop ≠ [] ↔
      start ≠ stop ∧ ∃ chain, IsUpgradeChain versions start chain stop) ∧
    (findUpgradeChain versions start stop ≠ [] →
      IsUpgradeChain versions start (findUpgradeChain versions start stop) stop ∧
      (∀ other, IsUpgradeChain versions start other stop →
        (findUpgradeChain versions start stop).length ≤ other.length) ∧
      ∀ (entry : CatalogEntry) (deployment : Deployment), deployment.installedVersion = some start →
        AcceptsHops versions entry deployment (findUpgradeChain versions start stop)) := by
  by_cases hend : start = stop
  · have hnil : findUpgradeChain versions start stop = [] := by
      unfold findUpgradeChain shortestPath
      rw [if_pos hend]
    rw [hnil]
    simp [hend]
  · have hcorrect := shortestPath_correct (g := upgradeGraph versions) hend
    change Correct _ _ _ (findUpgradeChain versions start stop) at hcorrect
    rcases hcorrect with ⟨hne, hshortest⟩ | ⟨hnil, hnone⟩
    · rw [shortest_iff] at hshortest
      constructor
      · exact iff_of_true hne ⟨hend, _, hshortest.1⟩
      · intro _
        refine ⟨hshortest.1, hshortest.2, ?_⟩
        intro entry deployment hinstalled
        exact acceptsHops_of_shortest hnames hinstalled hshortest
    · have hchains : ∀ chain, ¬ IsUpgradeChain versions start chain stop := by
        intro chain hchain
        exact hnone chain (walks_iff_isUpgradeChain.mpr hchain)
      constructor
      · apply iff_of_false
        · exact not_not_intro hnil
        · rintro ⟨-, chain, hchain⟩
          exact hchains chain hchain
      · intro hne
        exact absurd hnil hne

def cyclicVersions : List CatalogVersion :=
  [ { version := "5.1", components := none, upgradeFrom := some ["5.0", "5.1"], volumes := none,
      envVars := none },
    { version := "5.0", components := none, upgradeFrom := some ["4.5", "5.1"], volumes := none,
      envVars := none } ]

theorem cyclicVersions_upgrade : findUpgradeChain cyclicVersions "4.5" "5.1" ≠ [] ∧
    (findUpgradeChain cyclicVersions "4.5" "5.1").length ≤ 2 := by
  have hchain : IsUpgradeChain cyclicVersions "4.5" ["5.0", "5.1"] "5.1" :=
    ⟨⟨_, .tail _ (.head _), rfl, .head _⟩, ⟨_, .head _, rfl, .head _⟩, rfl⟩
  have h := findUpgradeChain_shortest cyclicVersions (by decide) "4.5" "5.1"
  have hne := h.1.mpr ⟨by decide, _, hchain⟩
  exact ⟨hne, (h.2 hne).2.1 _ hchain⟩

end Insula.Deployments
