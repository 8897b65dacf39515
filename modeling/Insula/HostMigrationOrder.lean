import Insula.HostMigrationRuns
import Insula.StableSort

/-!
# Skipping releases

The catalog of a release holds the scripts up to it. An upgrade to a release converges with its
catalog while the services still run the last release, and again once they run the new one. A node
that goes through a chain of releases is compared with one that goes from the first to the last.
-/

namespace Insula.HostMigrations

open Std Versions StableSort
open Javascript (compareNumbers compareNumberDifference trim)
open PlatformUpgrade (HostMigrationPhase)

/-! ## Releases and catalogs -/

structure Release where
  text : Text
  version : ParsedVersion
  reads : parseVersion (stripV (trim text)) = some version

namespace Release

variable (r : Release)

def reached (s : HostMigrationScript) : Bool := servicesReachedRelease (some r.text) s.version

def base : Text := r.version.base

theorem reached_eq (s : HostMigrationScript) :
    r.reached s = (compareTexts compareNumbers compareNumbers r.base s.version).isGE := by
  have hne : r.text ≠ [] := by
    intro h
    have hreads := r.reads
    have hnone : parseVersion (stripV (trim [])) = none := by decide
    rw [h, hnone] at hreads
    cases hreads
  unfold reached servicesReachedRelease
  simp only [r.reads, compareVersions_eq (finite_base r.version), ne_eq, hne, not_false_eq_true,
    decide_true, Bool.true_and]
  rfl

def Before (v w : Release) : Prop := (compareVersions v.base w.base).isLE

instance (v w : Release) : Decidable (Before v w) := inferInstanceAs (Decidable (_ = _))

end Release

/-- A later release has reached all scripts that an earlier one has. -/
theorem Release.Before.reached {v w : Release} (h : v.Before w) {s : HostMigrationScript}
    (hs : v.reached s = true) : w.reached s = true := by
  rw [Release.reached_eq] at hs ⊢
  have hle : (compareTexts compareNumbers compareNumbers v.base w.base).isLE := by
    rw [Release.base, ← compareVersions_eq (finite_base v.version)]
    exact h
  rw [OrientedCmp.isGE_iff_isLE] at hs ⊢
  exact TransCmp.isLE_trans hs hle

theorem Release.reached_of_isLE (c : Collation) (r : Release) {a b : HostMigrationScript}
    (h : (compareScripts c a b).isLE) (hb : r.reached b = true) : r.reached a = true := by
  have hversion : (compareTexts compareNumbers compareNumbers a.version b.version).isLE := by
    rw [compareScripts_eq, compareLex] at h
    revert h
    cases compareTexts compareNumbers compareNumbers a.version b.version <;> simp
  rw [Release.reached_eq] at hb ⊢
  rw [OrientedCmp.isGE_iff_isLE] at hb ⊢
  exact TransCmp.isLE_trans hversion hb

structure Catalog where
  scripts : List HostMigrationScript
  nodup : (scripts.map HostMigrationScript.key).Nodup

namespace Catalog

variable (catalog : Catalog)

def upTo (cli : Release) : List HostMigrationScript := catalog.scripts.filter cli.reached

def converge (cli services : Release) : Pass where
  scripts := some (catalog.upTo cli)
  enforcing := true
  servicesVersion := some services.text
  attempts _ := .marked

end Catalog

/-! ## What a converge runs -/

def due (l : Ledger) (s : HostMigrationScript) : Bool :=
  s.phase.isSome && ! l.isApplied s.key && (l.readSkip s.key).isNone && ! l.readBaseline s.key

def ready (services : Release) (s : HostMigrationScript) : Bool :=
  s.phase ≠ some .afterServices || services.reached s

/-- What a walk in which every script succeeds has come to. -/
structure Applied (services : Release) (st : PassState) (l : List HostMigrationScript)
    (st' : PassState) : Prop where
  journal : st'.journal.map Entry.script =
    st.journal.map Entry.script ++ l.filter fun s => due st.ledger s && ready services s
  skipped : st'.ledger.skipped = st.ledger.skipped
  baseline : st'.ledger.baseline = st.ledger.baseline
  done : ∀ key, key ∈ st'.ledger.done ↔
    key ∈ st.ledger.done ∨ ∃ s ∈ l, (due st.ledger s && ready services s) = true ∧ key = s.key

section Converge

variable {catalog : Catalog} {cli services : Release} {st : PassState} {s : HostMigrationScript}

theorem keptBack_converge (h : st.halted = false) :
    keptBack (catalog.converge cli services) st s = none ↔
      (due st.ledger s && ready services s) = true := by
  unfold keptBack due ready
  cases hphase : s.phase with
  | none => simp
  | some phase =>
    cases happlied : st.ledger.isApplied s.key with
    | true => simp
    | false =>
      cases hskip : st.ledger.readSkip s.key with
      | some reason => simp
      | none =>
        cases hbaseline : st.ledger.readBaseline s.key with
        | true => simp
        | false =>
          cases phase with
          | beforeServices => simp [Catalog.converge, h]
          | afterServices =>
            simp only [Release.reached]
            cases hreached : servicesReachedRelease (some services.text) s.version <;>
              simp [Catalog.converge, h, hreached]

theorem due_of_ledger {l l' : Ledger} (hskipped : l'.skipped = l.skipped)
    (hbaseline : l'.baseline = l.baseline) (hdone : s.key ∈ l'.done ↔ s.key ∈ l.done) :
    due l' s = due l s := by
  simp only [due, Ledger.isApplied, Ledger.readSkip, Ledger.readBaseline, hskipped, hbaseline, hdone]

theorem applied_foldl (l : List HostMigrationScript) (hkeys : (l.map HostMigrationScript.key).Nodup)
    (st : PassState) (hhalted : st.halted = false) :
    Applied services st l (l.foldl (visit (catalog.converge cli services)) st) := by
  induction l generalizing st with
  | nil => exact ⟨by simp, rfl, rfl, by simp⟩
  | cons s l ih =>
    rw [List.map_cons, List.nodup_cons] at hkeys
    rw [List.foldl_cons]
    cases hkept : keptBack (catalog.converge cli services) st s with
    | some item =>
      have hnot : (due st.ledger s && ready services s) = false := by
        rw [Bool.eq_false_iff]
        intro hdue
        rw [(keptBack_converge hhalted).mpr hdue] at hkept
        cases hkept
      have hvisit : visit (catalog.converge cli services) st s =
          { st with items := st.items ++ [item] } := by
        rw [visit, hkept]
      have h := ih hkeys.2 (visit (catalog.converge cli services) st s) (by rw [hvisit]; exact hhalted)
      rw [hvisit] at h ⊢
      refine ⟨?_, h.skipped, h.baseline, ?_⟩
      · rw [h.journal, List.filter_cons, hnot]
        rfl
      · intro key
        rw [h.done key]
        simp only [List.mem_cons, exists_eq_or_imp, hnot, Bool.false_eq_true, false_and, false_or]
    | none =>
      have hdue := (keptBack_converge hhalted).mp hkept
      have hvisit : visit (catalog.converge cli services) st s =
          runScript (catalog.converge cli services) st s := by
        rw [visit, hkept]
      obtain ⟨hjournal, hhalts, hdone⟩ :=
        runScript_spec (catalog.converge cli services) st s
      have h := ih hkeys.2 (runScript (catalog.converge cli services) st s)
        (by rw [hhalts, hhalted]; rfl)
      have hsame : ∀ x ∈ l, due (runScript (catalog.converge cli services) st s).ledger x =
          due st.ledger x := by
        intro x hx
        refine due_of_ledger rfl rfl ?_
        rw [hdone]
        apply or_iff_left
        rintro ⟨-, heq⟩
        exact hkeys.1 (heq ▸ List.mem_map_of_mem hx)
      rw [hvisit]
      refine ⟨?_, h.skipped, h.baseline, ?_⟩
      · have hfilter : (l.filter fun x =>
          due (runScript (catalog.converge cli services) st s).ledger x &&
            ready services x) = l.filter fun x => due st.ledger x && ready services x :=
          List.filter_congr fun x hx => by rw [hsame x hx]
        rw [h.journal, hjournal, hfilter, List.filter_cons, if_pos hdue, List.map_append,
          List.append_assoc]
        rfl
      · intro key
        rw [h.done key, hdone key]
        simp only [List.mem_cons, exists_eq_or_imp, hdue, true_and, or_assoc]
        refine or_congr_right (or_congr ?_ ?_)
        · exact and_iff_right rfl
        · refine exists_congr fun x => and_congr_right fun hx => ?_
          rw [hsame x hx]

theorem Applied.due {l : List HostMigrationScript} {st' : PassState} (h : Applied services st l st')
    (hkey : ∀ x ∈ l, x.key = s.key → x = s) :
    due st'.ledger s = (due st.ledger s && ! (decide (s ∈ l) && ready services s)) := by
  by_cases hrun : s ∈ l ∧ (HostMigrations.due st.ledger s && ready services s) = true
  · have hdone : s.key ∈ st'.ledger.done := (h.done s.key).mpr (.inr ⟨s, hrun.1, hrun.2, rfl⟩)
    have hnot : HostMigrations.due st'.ledger s = false := by
      simp [HostMigrations.due, Ledger.isApplied, hdone]
    rw [Bool.and_eq_true] at hrun
    rw [hnot]
    simp [hrun]
  · have hsame : HostMigrations.due st'.ledger s = HostMigrations.due st.ledger s := by
      apply due_of_ledger h.skipped h.baseline
      rw [h.done]
      apply or_iff_left
      rintro ⟨x, hx, hdue, heq⟩
      obtain rfl := hkey x hx heq.symm
      exact hrun ⟨hx, hdue⟩
    rw [hsame]
    by_cases hmem : s ∈ l
    · have hnot := Bool.eq_false_iff.mpr fun hdue => hrun ⟨hmem, hdue⟩
      revert hnot
      cases HostMigrations.due st.ledger s <;> cases ready services s <;> simp
    · simp [hmem]

def Catalog.small (catalog : Catalog) (cli : Release) : Bool :=
  (catalog.upTo cli).length ≤ maxScripts

def Catalog.picks (catalog : Catalog) (cli services : Release) (s : HostMigrationScript) : Bool :=
  catalog.small cli && cli.reached s && ready services s

def Catalog.queue (c : Collation) (catalog : Catalog) (l : Ledger) : List HostMigrationScript :=
  (orderHostMigrations c catalog.scripts).filter (due l)

end Converge

section Passes

variable {c : Collation} {catalog : Catalog}

theorem order_upTo (cli : Release) : orderHostMigrations c (catalog.upTo cli) =
    (orderHostMigrations c catalog.scripts).filter cli.reached :=
  (filter_insertionSort cli.reached catalog.scripts).symm

theorem nodup_order_upTo (cli : Release) :
    ((orderHostMigrations c (catalog.upTo cli)).map HostMigrationScript.key).Nodup := by
  have hperm := (perm_order c (catalog.upTo cli)).map HostMigrationScript.key
  exact hperm.nodup_iff.mpr (catalog.nodup.sublist (List.filter_sublist.map _))

variable (c catalog) in
theorem converge_spec (cli services : Release) (l : Ledger) :
    (runHostMigrations c (catalog.converge cli services) l).2.2.map Entry.script =
        (catalog.queue c l).filter (catalog.picks cli services) ∧
      catalog.queue c (runHostMigrations c (catalog.converge cli services) l).2.1 =
        (catalog.queue c l).filter (! catalog.picks cli services ·) := by
  unfold runHostMigrations
  dsimp only [Catalog.converge]
  by_cases hmany : maxScripts < (catalog.upTo cli).length
  · have hpicks : ∀ s, catalog.picks cli services s = false := by
      intro s
      have hsmall : catalog.small cli = false := decide_eq_false (Nat.not_le.mpr hmany)
      simp [Catalog.picks, hsmall]
    rw [if_pos hmany]
    simp [hpicks]
  · have hsmall : catalog.small cli = true := decide_eq_true (Nat.not_lt.mp hmany)
    rw [if_neg hmany]
    have h : Applied services ⟨l, [], [], false, true, 0⟩ (orderHostMigrations c (catalog.upTo cli))
        ((orderHostMigrations c (catalog.upTo cli)).foldl (visit (catalog.converge cli services))
          ⟨l, [], [], false, true, 0⟩) :=
      applied_foldl _ (nodup_order_upTo cli) _ rfl
    constructor
    · apply h.journal.trans
      rw [order_upTo, Catalog.queue, List.map_nil, List.nil_append, List.filter_filter,
        List.filter_filter]
      refine List.filter_congr fun s _ => ?_
      simp only [Catalog.picks, hsmall, Bool.true_and]
      cases due l s <;> cases cli.reached s <;> simp
    · rw [Catalog.queue, Catalog.queue, List.filter_filter]
      refine List.filter_congr fun s hs => ?_
      have hs : s ∈ catalog.scripts := (perm_order c _).mem_iff.mp hs
      have hmem : s ∈ orderHostMigrations c (catalog.upTo cli) ↔ cli.reached s = true := by
        rw [(perm_order c _).mem_iff, Catalog.upTo, List.mem_filter]
        exact and_iff_right hs
      have hkey : ∀ x ∈ orderHostMigrations c (catalog.upTo cli), x.key = s.key → x = s := by
        intro x hx heq
        have hx := List.mem_of_mem_filter ((perm_order c _).mem_iff.mp hx)
        exact List.inj_on_of_nodup_map catalog.nodup hx hs heq
      apply (h.due hkey).trans
      simp only [Catalog.picks, hsmall, Bool.true_and, hmem, Bool.decide_eq_true]
      exact Bool.and_comm _ _

def runs (c : Collation) (l : Ledger) (passes : List Pass) : List HostMigrationScript :=
  (journalOf (history c l (passes.map .pass))).map Entry.script

theorem runs_converges (releases : List (Release × Release)) (l : Ledger) :
    runs c l (releases.map fun x => catalog.converge x.1 x.2) =
      collect (releases.map fun x => catalog.picks x.1 x.2) (catalog.queue c l) := by
  induction releases generalizing l with
  | nil => rfl
  | cons x releases ih =>
    obtain ⟨hrun, hrest⟩ := converge_spec c catalog x.1 x.2 l
    have htail := ih (runHostMigrations c (catalog.converge x.1 x.2) l).2.1
    rw [List.map_cons, List.map_cons, collect, ← hrun, ← hrest, ← htail]
    simp only [runs, List.map_cons, history, journalOf, List.flatMap_cons, List.map_append]

end Passes

/-! ## Two ways to a release -/

structure Stop where
  release : Release
  before : ℕ
  after : ℕ

def upgrade (running : Release) (stop : Stop) : List (Release × Release) :=
  List.replicate (stop.before + 1) (stop.release, running) ++
    List.replicate (stop.after + 1) (stop.release, stop.release)

def stepwise : Release → List Stop → List (Release × Release)
  | _, [] => []
  | running, stop :: stops => upgrade running stop ++ stepwise stop.release stops

structure Journey where
  start : Release
  stops : List Stop
  last : Stop
  increasing : (start :: stops.map Stop.release ++ [last.release]).Pairwise Release.Before

namespace Journey

variable (c : Collation) (catalog : Catalog) (journey : Journey) (l : Ledger)

def incremental : List HostMigrationScript :=
  runs c l ((stepwise journey.start (journey.stops ++ [journey.last])).map fun x =>
    catalog.converge x.1 x.2)

def direct (before after : ℕ) : List HostMigrationScript :=
  runs c l ((upgrade journey.start ⟨journey.last.release, before, after⟩).map fun x =>
    catalog.converge x.1 x.2)

end Journey

section Queue

variable {catalog : Catalog} {v : Release} {stop last : Stop} {queue : List HostMigrationScript}

theorem ready_of_reached {w : Release} {s : HostMigrationScript} (h : w.reached s = true) :
    ready w s = true := by
  simp [ready, h]

theorem ready_of_not_reached {w : Release} {s : HostMigrationScript} (h : w.reached s = false) :
    ready w s = decide (s.phase ≠ some .afterServices) := by
  simp [ready, h]

def rounds (catalog : Catalog) (releases : List (Release × Release)) :
    List (HostMigrationScript → Bool) := releases.map fun x => catalog.picks x.1 x.2

theorem collect_rounds_upgrade (rest : List (Release × Release)) :
    collect (rounds catalog (upgrade v stop ++ rest)) queue =
      collect (catalog.picks stop.release v :: catalog.picks stop.release stop.release ::
        rounds catalog rest) queue := by
  simp only [rounds, upgrade, List.map_append, List.map_replicate, List.append_assoc]
  rw [collect_replicate, collect, collect, collect_replicate]

/-- An upgrade runs what its release has reached: first what is ready beside the old services. -/
theorem collect_upgrade (hsmall : catalog.small stop.release = true) (rest : List (Release × Release)) :
    collect (rounds catalog (upgrade v stop ++ rest)) queue =
      (queue.filter fun s => stop.release.reached s && ready v s) ++
        ((queue.filter fun s => stop.release.reached s && ! ready v s) ++
          collect (rounds catalog rest) (queue.filter (! stop.release.reached ·))) := by
  have hfirst : queue.filter (catalog.picks stop.release v) =
      queue.filter fun s => stop.release.reached s && ready v s :=
    List.filter_congr fun s _ => by simp [Catalog.picks, hsmall]
  have hsecond : (queue.filter (! catalog.picks stop.release v ·)).filter
        (catalog.picks stop.release stop.release) =
      queue.filter fun s => stop.release.reached s && ! ready v s := by
    rw [List.filter_filter]
    refine List.filter_congr fun s _ => ?_
    cases hreached : stop.release.reached s
    · simp [Catalog.picks, hreached]
    · simp [Catalog.picks, hsmall, hreached, ready_of_reached hreached]
  have hrest : (queue.filter (! catalog.picks stop.release v ·)).filter
        (! catalog.picks stop.release stop.release ·) = queue.filter (! stop.release.reached ·) := by
    rw [List.filter_filter]
    refine List.filter_congr fun s _ => ?_
    cases hreached : stop.release.reached s
    · simp [Catalog.picks, hreached]
    · simp [Catalog.picks, hsmall, hreached, ready_of_reached hreached]
  rw [collect_rounds_upgrade, collect, collect, hfirst, hsecond, hrest]

def atOnce (v : Release) (last : Stop) (queue : List HostMigrationScript) : List HostMigrationScript :=
  (queue.filter fun s => last.release.reached s && ready v s) ++
    queue.filter fun s => last.release.reached s && ! ready v s

/-- A release on the way leaves the order as it is: all it brings is ready beside the first
services, or all that comes after it waits for the services. -/
def Leaves (v : Release) (last : Stop) (queue : List HostMigrationScript) (w : Release) : Prop :=
  (∀ s ∈ queue, w.reached s = true → ready v s = true) ∨
    ∀ s ∈ queue, last.release.reached s = true → w.reached s = false →
      s.phase = some .afterServices

variable {c : Collation} {stops : List Stop}

theorem stepwise_eq_atOnce (hsorted : queue.Pairwise fun a b => (compareScripts c a b).isLE)
    (hincreasing : (v :: stops.map Stop.release ++ [last.release]).Pairwise Release.Before)
    (hsmall : ∀ stop ∈ stops ++ [last], catalog.small stop.release = true)
    (h : ∀ stop ∈ stops, Leaves v last queue stop.release) :
    collect (rounds catalog (stepwise v (stops ++ [last]))) queue = atOnce v last queue := by
  induction stops generalizing v queue with
  | nil =>
    have hlast := hsmall last (by simp)
    rw [List.nil_append, stepwise, collect_upgrade hlast, stepwise]
    simp [rounds, collect, atOnce]
  | cons stop stops ih =>
    have hstop := hsmall stop (by simp)
    rw [List.map_cons, List.cons_append, List.cons_append, List.pairwise_cons] at hincreasing
    obtain ⟨hbefore, hincreasing⟩ := hincreasing
    have hfirst : v.Before stop.release := hbefore _ (by simp)
    have hend : stop.release.Before last.release := by
      rw [List.pairwise_cons] at hincreasing
      exact hincreasing.1 _ (by simp)
    have hready : ∀ s, stop.release.reached s = false → ready stop.release s = ready v s := by
      intro s hs
      have hv : v.reached s = false := by
        rw [Bool.eq_false_iff]
        intro hv
        rw [hfirst.reached hv] at hs
        cases hs
      rw [ready_of_not_reached hs, ready_of_not_reached hv]
    have hleaves : ∀ x ∈ stops,
        Leaves stop.release last (queue.filter (! stop.release.reached ·)) x.release := by
      intro x hx
      rcases h x (List.mem_cons_of_mem _ hx) with hbrings | hlater
      · left
        intro s hs hreached
        rw [List.mem_filter, Bool.not_eq_true'] at hs
        rw [hready s hs.2]
        exact hbrings s hs.1 hreached
      · right
        intro s hs
        exact hlater s (List.mem_of_mem_filter hs)
    have hrest := ih (hsorted.sublist List.filter_sublist) hincreasing
      (fun x hx => hsmall x (List.mem_cons_of_mem _ hx)) hleaves
    have hsplit := filter_append_filter_not hsorted
      (fun a b hab hb => stop.release.reached_of_isLE c hab hb)
    have hdirect : ∀ f : HostMigrationScript → Bool,
        (queue.filter fun s => last.release.reached s && f s) =
          (queue.filter fun s => stop.release.reached s && f s) ++
            (queue.filter (! stop.release.reached ·)).filter fun s =>
            last.release.reached s && f s := by
      intro f
      have hhead : (queue.filter stop.release.reached).filter (fun s => last.release.reached s && f s) =
          queue.filter fun s => stop.release.reached s && f s := by
        rw [List.filter_filter]
        refine List.filter_congr fun s _ => ?_
        cases hs : stop.release.reached s with
        | false => simp
        | true => simp [hend.reached hs]
      rw [← hhead, ← List.filter_append, hsplit]
    have hsame : ∀ s ∈ queue.filter (! stop.release.reached ·),
        ready stop.release s = ready v s := by
      intro s hs
      rw [List.mem_filter, Bool.not_eq_true'] at hs
      exact hready s hs.2
    have hnow : ((queue.filter (! stop.release.reached ·)).filter fun s =>
        last.release.reached s && ready stop.release s) =
          (queue.filter (! stop.release.reached ·)).filter fun s =>
            last.release.reached s && ready v s :=
      List.filter_congr fun s hs => by rw [hsame s hs]
    have hlater : ((queue.filter (! stop.release.reached ·)).filter fun s =>
        last.release.reached s && ! ready stop.release s) =
          (queue.filter (! stop.release.reached ·)).filter fun s =>
            last.release.reached s && ! ready v s :=
      List.filter_congr fun s hs => by rw [hsame s hs]
    rw [List.cons_append, stepwise, collect_upgrade hstop, hrest, atOnce, atOnce, hdirect (ready v),
      hdirect (! ready v ·), hnow, hlater]
    -- What the release leaves waiting, and what later releases bring that does not wait.
    have hswap : (queue.filter fun s => stop.release.reached s && ! ready v s) = [] ∨
        ((queue.filter (! stop.release.reached ·)).filter fun s =>
          last.release.reached s && ready v s) = [] := by
      rcases h stop List.mem_cons_self with hbrings | hlater
      · left
        rw [List.filter_eq_nil_iff]
        intro s hs
        cases hreached : stop.release.reached s with
        | false => simp
        | true => simp [hbrings s hs hreached]
      · right
        rw [List.filter_eq_nil_iff]
        intro s hs
        rw [List.mem_filter, Bool.not_eq_true'] at hs
        cases hreached : last.release.reached s with
        | false => simp
        | true =>
          have hphase := hlater s hs.1 hreached hs.2
          rw [← hready s hs.2, ready_of_not_reached hs.2]
          simp [hphase]
    rcases hswap with hnil | hnil
    · simp only [hnil, List.nil_append, List.append_assoc]
    · simp only [hnil, List.nil_append, List.append_assoc]

variable (queue) in
theorem stepwise_split
    (hincreasing : (v :: stops.map Stop.release ++ [last.release]).Pairwise Release.Before)
    (hsmall : ∀ stop ∈ stops ++ [last], catalog.small stop.release = true) (hstop : stop ∈ stops) :
    ∃ early late, collect (rounds catalog (stepwise v (stops ++ [last]))) queue = early ++ late ∧
      (∀ s ∈ queue, stop.release.reached s = true → s ∈ early) ∧
      (∀ s ∈ early, stop.release.reached s = true) ∧
      ∀ s ∈ late, stop.release.reached s = false := by
  induction stops generalizing v queue with
  | nil => cases hstop
  | cons first stops ih =>
    have hfirst := hsmall first (by simp)
    rw [List.map_cons, List.cons_append, List.cons_append, List.pairwise_cons] at hincreasing
    rw [List.cons_append, stepwise, collect_upgrade hfirst]
    rcases List.mem_cons.mp hstop with rfl | hstop
    · refine ⟨_, _, (List.append_assoc _ _ _).symm, ?_, ?_, ?_⟩
      · intro s hs hreached
        cases hready : ready v s <;> simp [hs, hreached, hready]
      · intro s hs
        simp only [List.mem_append, List.mem_filter, Bool.and_eq_true] at hs
        rcases hs with hs | hs
        · exact hs.2.1
        · exact hs.2.1
      · intro s hs
        have hs := mem_of_mem_collect hs
        rw [List.mem_filter, Bool.not_eq_true'] at hs
        exact hs.2
    · obtain ⟨early, late, hcollect, hall, hearly, hlate⟩ :=
        ih (queue.filter (! first.release.reached ·)) hincreasing.2
          (fun x hx => hsmall x (List.mem_cons_of_mem _ hx)) hstop
      have hbefore : first.release.Before stop.release := by
        have hpairs := hincreasing.2
        rw [List.pairwise_cons] at hpairs
        exact hpairs.1 _ (List.mem_append_left _ (List.mem_map_of_mem hstop))
      rw [hcollect, ← List.append_assoc, ← List.append_assoc]
      refine ⟨_, late, rfl, ?_, ?_, hlate⟩
      · intro s hs hreached
        cases hnow : first.release.reached s with
        | true => cases hready : ready v s <;> simp [hs, hnow, hready]
        | false => exact List.mem_append_right _ (hall s (List.mem_filter.mpr ⟨hs, by simp [hnow]⟩) hreached)
      · intro s hs
        simp only [List.mem_append, List.mem_filter, Bool.and_eq_true] at hs
        rcases hs with (hs | hs) | hs
        · exact hbefore.reached hs.2.1
        · exact hbefore.reached hs.2.1
        · exact hearly s hs

theorem leaves_of_stepwise
    (hincreasing : (v :: stops.map Stop.release ++ [last.release]).Pairwise Release.Before)
    (hsmall : ∀ stop ∈ stops ++ [last], catalog.small stop.release = true)
    (h : collect (rounds catalog (stepwise v (stops ++ [last]))) queue = atOnce v last queue)
    (hstop : stop ∈ stops) : Leaves v last queue stop.release := by
  by_contra hnot
  simp only [Leaves, not_or, not_forall] at hnot
  obtain ⟨⟨waiting, hwaiting, hbrought, hunready⟩, later, hlater, hlast, hbeyond, hphase⟩ := hnot
  obtain ⟨early, late, hcollect, hall, hearly, -⟩ :=
    stepwise_split queue hincreasing hsmall hstop
  have hready : ready v later = true := by simp [ready, hphase]
  have hnow : later ∈ queue.filter fun s => last.release.reached s && ready v s := by
    simp [hlater, hlast, hready]
  have hwaits : waiting ∉ queue.filter fun s => last.release.reached s && ready v s := by
    simp [hunready]
  have hlate : later ∉ early := by
    intro hmem
    rw [hearly later hmem] at hbeyond
    cases hbeyond
  exact append_ne_append (hall waiting hwaiting hbrought) hwaits hnow hlate (hcollect.symm.trans h)

theorem fst_of_mem_stepwise {x : Release × Release} (h : x ∈ stepwise v stops) :
    ∃ stop ∈ stops, x.1 = stop.release := by
  induction stops generalizing v with
  | nil => cases h
  | cons stop stops ih =>
    rw [stepwise, List.mem_append] at h
    rcases h with h | h
    · rw [upgrade, List.mem_append] at h
      refine ⟨stop, List.mem_cons_self, ?_⟩
      rcases h with h | h
      · rw [List.eq_of_mem_replicate h]
      · rw [List.eq_of_mem_replicate h]
    · obtain ⟨later, hlater, heq⟩ := ih h
      exact ⟨later, List.mem_cons_of_mem _ hlater, heq⟩

theorem mem_stepwise (h : stop ∈ stops) : (stop.release, stop.release) ∈ stepwise v stops := by
  induction stops generalizing v with
  | nil => cases h
  | cons first stops ih =>
    rw [stepwise, List.mem_append]
    rcases List.mem_cons.mp h with rfl | h
    · left
      simp [upgrade]
    · exact .inr (ih h)

/-- A chain runs nothing when every release whose catalog is taken has reached nothing. -/
theorem stepwise_eq_nil : collect (rounds catalog (stepwise v stops)) queue = [] ↔
      ∀ stop ∈ stops, catalog.small stop.release = true →
        ∀ s ∈ queue, stop.release.reached s = false := by
  rw [collect_eq_nil]
  constructor
  · intro h stop hstop hsmall s hs
    have hpicks := h _ (List.mem_map_of_mem (mem_stepwise (v := v) hstop)) s hs
    rw [Bool.eq_false_iff]
    intro hreached
    rw [Catalog.picks, hsmall, hreached, ready_of_reached hreached] at hpicks
    cases hpicks
  · intro h q hq s hs
    obtain ⟨x, hx, rfl⟩ := List.mem_map.mp hq
    obtain ⟨stop, hstop, heq⟩ := fst_of_mem_stepwise hx
    have hnone := h stop hstop
    rw [Catalog.picks, heq]
    cases hsmall : catalog.small stop.release with
    | false => rfl
    | true => simp [hnone hsmall s hs]

end Queue

theorem Catalog.small_of_before {catalog : Catalog} {v w : Release} (h : v.Before w)
    (hsmall : catalog.small w = true) : catalog.small v = true := by
  have hmono : catalog.scripts.countP v.reached ≤ catalog.scripts.countP w.reached :=
    List.countP_mono_left fun s _ hs => h.reached hs
  simp only [Catalog.small, Catalog.upTo, ← List.countP_eq_length_filter, decide_eq_true_eq] at hsmall ⊢
  exact hmono.trans hsmall

theorem Catalog.sorted_queue (c : Collation) (catalog : Catalog) (l : Ledger) :
    (catalog.queue c l).Pairwise fun a b => (compareScripts c a b).isLE :=
  (pairwise_order c catalog.scripts).sublist List.filter_sublist

namespace Journey

variable (c : Collation) (catalog : Catalog) (journey : Journey) (l : Ledger)

/-- The releases on the way leave the order as it is, or no catalog that is taken brings
anything. -/
def Unmoved : Prop :=
  if catalog.small journey.last.release = true then
    ∀ stop ∈ journey.stops, Leaves journey.start journey.last (catalog.queue c l) stop.release
  else
    ∀ stop ∈ journey.stops, catalog.small stop.release = true →
      ∀ s ∈ catalog.queue c l, stop.release.reached s = false

/-- Going through a chain of releases runs what going to the last at once runs, in the same order,
exactly when the releases on the way do not move it. -/
theorem incremental_eq_direct_iff (before after : ℕ) :
    journey.incremental c catalog l = journey.direct c catalog l before after ↔
      journey.Unmoved c catalog l := by
  have hincremental : journey.incremental c catalog l =
      collect (rounds catalog (stepwise journey.start (journey.stops ++ [journey.last])))
        (catalog.queue c l) := runs_converges _ l
  have hdirect : journey.direct c catalog l before after =
      collect (rounds catalog (stepwise journey.start
        ([] ++ [⟨journey.last.release, before, after⟩]))) (catalog.queue c l) := by
    rw [List.nil_append, stepwise, stepwise, List.append_nil]
    exact runs_converges _ l
  have hlast : ∀ stop ∈ journey.stops, stop.release.Before journey.last.release := by
    intro stop hstop
    have hpairs := journey.increasing
    rw [List.pairwise_append] at hpairs
    exact hpairs.2.2 _ (List.mem_cons_of_mem _ (List.mem_map_of_mem hstop)) _ (by simp)
  have hends : journey.start.Before journey.last.release := by
    have hpairs := journey.increasing
    rw [List.pairwise_append] at hpairs
    exact hpairs.2.2 _ List.mem_cons_self _ (by simp)
  rw [hincremental, hdirect, Unmoved]
  cases hsmall : catalog.small journey.last.release with
  | true =>
    have hall : ∀ stop ∈ journey.stops ++ [journey.last], catalog.small stop.release = true := by
      intro stop hstop
      rcases List.mem_append.mp hstop with hstop | hstop
      · exact Catalog.small_of_before (hlast stop hstop) hsmall
      · rw [List.mem_singleton.mp hstop]
        exact hsmall
    have honce : collect (rounds catalog (stepwise journey.start
        ([] ++ [⟨journey.last.release, before, after⟩]))) (catalog.queue c l) =
          atOnce journey.start journey.last (catalog.queue c l) :=
      stepwise_eq_atOnce (Catalog.sorted_queue c catalog l) (by simpa using hends)
        (by simpa using hsmall) (by simp)
    rw [honce, if_pos rfl]
    constructor
    · intro h stop hstop
      exact leaves_of_stepwise journey.increasing hall h hstop
    · exact stepwise_eq_atOnce (Catalog.sorted_queue c catalog l) journey.increasing hall
  | false =>
    have hnone : collect (rounds catalog (stepwise journey.start
        ([] ++ [⟨journey.last.release, before, after⟩]))) (catalog.queue c l) = [] := by
      rw [stepwise_eq_nil]
      simp [hsmall]
    rw [hnone, stepwise_eq_nil, if_neg (by simp)]
    simp [or_imp, forall_and, hsmall]

end Journey

/-! ### Skipping one release -/

def october (patch : String) (h : (parseVersion (stripV (trim patch.toList))).isSome) : Release where
  text := patch.toList
  version := (parseVersion (stripV (trim patch.toList))).get h
  reads := (Option.some_get h).symm

/-- The services of 2026.10.6, with 2026.10.7 and 2026.10.8 to come. -/
def twoReleases : Journey where
  start := october "2026.10.6" (by rfl)
  stops := [⟨october "2026.10.7" (by rfl), 0, 0⟩]
  last := ⟨october "2026.10.8" (by rfl), 0, 0⟩
  increasing := by decide +kernel

theorem october_short : "2026.10.7".toList.length ≤ 255 := by decide

def waitsAndPrepares : Catalog where
  scripts := [
    { script "2026.10.7" october_short with body := "# phase: after-services".toList },
    script "2026.10.8" (by decide)]
  nodup := by decide

/-- Through 2026.10.7 the script of 2026.10.7 runs first, and at once that of 2026.10.8. -/
theorem skipping_a_release_moves_a_script :
    ¬ ∀ (c : Collation) (catalog : Catalog) (journey : Journey) (l : Ledger) (before after : ℕ),
      journey.incremental c catalog l = journey.direct c catalog l before after := by
  intro h
  have hincremental : (twoReleases.incremental asciiCollation waitsAndPrepares noMarkers).map
      HostMigrationScript.version = ["2026.10.7".toList, "2026.10.8".toList] := by
    decide +kernel
  have hdirect : (twoReleases.direct asciiCollation waitsAndPrepares noMarkers 0 0).map
      HostMigrationScript.version = ["2026.10.8".toList, "2026.10.7".toList] := by
    decide +kernel
  rw [h, hdirect] at hincremental
  revert hincremental
  decide

end Insula.HostMigrations
