import Insula.CrowdsecReconcile

/-!
# Ticks of the L4 reconciler

A run of ticks, each of which reads an answer of the LAPI and the exclusions of its time. The trip
counter only rises, the latch only closes, and what a tick hands to the applier is a part of the
bans that it read, each with its own time to live.
-/

namespace Insula.CrowdsecL4

open Ranking

/-- What one tick meets; the sort may put ties in an order of its own at every tick. -/
structure Feed where
  sorter : Sorter sortsBefore
  lapi : Option (Except FetchError (List LapiDecision))
  exclusions : Option (Except FetchError ExclusionSet)

namespace Feed

variable (f : Feed)

def readings : Readings where
  fetchDecisions := f.lapi.map fun answer => answer.map parseLAPIStream
  computeExclusions := f.exclusions

def decisions : List LapiDecision :=
  match f.lapi with
  | some (.ok decisions) => decisions
  | _ => []

def exclusionSet : ExclusionSet :=
  match f.exclusions with
  | some (.ok ex) => ex
  | _ => ⟨[], []⟩

def trips : Bool := shouldSelfProtectTrip (parseLAPIStream f.decisions) f.exclusionSet

end Feed

namespace CrowdsecReconciler

variable (cr : CrowdsecReconciler)

def handed (f : Feed) : Option CrowdsecBlocklist := (cr.tick f.sorter f.readings).2

def ticks (feeds : List Feed) : CrowdsecReconciler :=
  feeds.foldl (fun cr f => (cr.tick f.sorter f.readings).1) cr

theorem ticks_append (before later : List Feed) :
    cr.ticks (before ++ later) = (cr.ticks before).ticks later := List.foldl_append

theorem tick_cases (sorter : Sorter sortsBefore) (readings : Readings) :
    (cr.tick sorter readings).1 = cr ∨ (cr.tick sorter readings).1 = cr.trip := by
  unfold tick filtered
  split
  · exact .inl rfl
  · split
    · exact .inl rfl
    · split
      · exact .inl rfl
      · dsimp only
        split
        · exact .inr rfl
        · split
          · exact .inl rfl
          · exact .inl rfl

theorem tripCount_le_tick (f : Feed) :
    cr.tripCount ≤ ((cr.tick f.sorter f.readings).1).tripCount := by
  rcases cr.tick_cases f.sorter f.readings with h | h
  · rw [h]
  · rw [h]
    exact Nat.le_succ _

theorem quiescent_tick {cr : CrowdsecReconciler} (h : cr.quiescent = true) (f : Feed) :
    ((cr.tick f.sorter f.readings).1).quiescent = true := by
  rcases cr.tick_cases f.sorter f.readings with htick | htick
  · rw [htick]
    exact h
  · rw [htick]
    unfold trip
    rw [h]
    rfl

theorem tripCount_le_ticks (feeds : List Feed) : cr.tripCount ≤ (cr.ticks feeds).tripCount := by
  induction feeds generalizing cr with
  | nil => exact Nat.le_refl _
  | cons f later ih => exact Nat.le_trans (cr.tripCount_le_tick f) (ih _)

theorem quiescent_ticks {cr : CrowdsecReconciler} (h : cr.quiescent = true) (feeds : List Feed) :
    (cr.ticks feeds).quiescent = true := by
  induction feeds generalizing cr with
  | nil => exact h
  | cons f later ih => exact ih (quiescent_tick h f)

variable {cr}

/-- What a tick hands over comes from decisions and exclusions that it read, below the threshold. -/
theorem handed_eq_some {f : Feed} {s : CrowdsecBlocklist} (h : cr.handed f = some s) :
    cr.quiescent = false ∧ f.trips = false ∧
      s = capped f.sorter (parseLAPIStream f.decisions) f.exclusionSet := by
  have hempty : parseLAPIStream [] = ⟨[], [], [], []⟩ := rfl
  unfold handed tick at h
  cases hquiescent : cr.quiescent with
  | true =>
    rw [hquiescent] at h
    cases h
  | false =>
    rw [hquiescent, if_neg Bool.false_ne_true] at h
    have hfiltered : (cr.filtered f.sorter (parseLAPIStream f.decisions) f.exclusionSet).2 =
        some s := by
      unfold Feed.readings at h
      unfold Feed.decisions Feed.exclusionSet
      rcases hlapi : f.lapi with - | (e | decisions)
      · rw [hlapi] at h
        rcases hex : f.exclusions with - | (e | ex)
        · rw [hex] at h
          exact h
        · rw [hex] at h
          cases h
        · rw [hex] at h
          exact h
      · rw [hlapi] at h
        cases h
      · rw [hlapi] at h
        rcases hex : f.exclusions with - | (e | ex)
        · rw [hex] at h
          exact h
        · rw [hex] at h
          cases h
        · rw [hex] at h
          exact h
    unfold filtered at hfiltered
    unfold Feed.trips
    cases htrip : shouldSelfProtectTrip (parseLAPIStream f.decisions) f.exclusionSet with
    | true =>
      rw [htrip] at hfiltered
      cases hfiltered
    | false =>
      rw [htrip, if_neg Bool.false_ne_true] at hfiltered
      dsimp only at hfiltered
      split at hfiltered
      · exact ⟨rfl, rfl, (Option.some.inj hfiltered).symm⟩
      · cases hfiltered

end CrowdsecReconciler

/-! ## Prefixes and their times -/

def CrowdsecBlocklist.bans (s : CrowdsecBlocklist) : List (Prefix × ℤ) :=
  s.v4.zip s.ttlv4 ++ s.v6.zip s.ttlv6

theorem zip_map_fst_snd (bans : List (Prefix × ℤ)) :
    (bans.map Prod.fst).zip (bans.map Prod.snd) = bans := by
  induction bans with
  | nil => rfl
  | cons ban bans ih => rw [List.map_cons, List.map_cons, List.zip_cons_cons, ih]

def kept (sorter : Sorter sortsBefore) (exPrefixes prefixes : List Prefix) (ttls : List ℤ) :
    List (Prefix × ℤ) :=
  (sorter.sort (survivors exPrefixes prefixes ttls)).take crowdsecBlocklistMaxElements

theorem capped_eq (sorter : Sorter sortsBefore) (bl : CrowdsecBlocklist) (ex : ExclusionSet) :
    capped sorter bl ex =
      { v4 := (kept sorter ex.v4 bl.v4 bl.ttlv4).map Prod.fst
        v6 := (kept sorter ex.v6 bl.v6 bl.ttlv6).map Prod.fst
        ttlv4 := (kept sorter ex.v4 bl.v4 bl.ttlv4).map Prod.snd
        ttlv6 := (kept sorter ex.v6 bl.v6 bl.ttlv6).map Prod.snd } := by
  unfold capped enforceCap applyExclusions kept
  simp only [withTtls_filterFamily]

theorem length_kept_le (sorter : Sorter sortsBefore) (exPrefixes prefixes : List Prefix)
    (ttls : List ℤ) :
    (kept sorter exPrefixes prefixes ttls).length ≤ crowdsecBlocklistMaxElements := by
  unfold kept
  rw [List.length_take]
  exact Nat.min_le_left _ _

theorem kept_subperm (sorter : Sorter sortsBefore) (exPrefixes : List Prefix)
    (bans : List (Prefix × ℤ)) :
    (kept sorter exPrefixes (bans.map Prod.fst) (bans.map Prod.snd)).Subperm bans := by
  have hsort : (sorter.sort (survivors exPrefixes (bans.map Prod.fst) (bans.map Prod.snd))).Subperm
      (survivors exPrefixes (bans.map Prod.fst) (bans.map Prod.snd)) := (sorter.perm _).subperm
  have hsurvivors : (survivors exPrefixes (bans.map Prod.fst) (bans.map Prod.snd)).Sublist bans := by
    unfold survivors
    rw [withTtls_map]
    exact List.filter_sublist
  exact (List.take_sublist _ _).subperm.trans (hsort.trans hsurvivors.subperm)

theorem bans_capped_subperm (sorter : Sorter sortsBefore) (decisions : List LapiDecision)
    (ex : ExclusionSet) : (capped sorter (parseLAPIStream decisions) ex).bans.Subperm
      (decisions.filterMap LapiDecision.ban) := by
  rw [capped_eq]
  unfold CrowdsecBlocklist.bans parseLAPIStream
  dsimp only
  rw [zip_map_fst_snd, zip_map_fst_snd]
  have h4 := kept_subperm sorter ex.v4
    ((decisions.filterMap LapiDecision.ban).filter fun ban => ban.1.addr.is4)
  have h6 := kept_subperm sorter ex.v6
    ((decisions.filterMap LapiDecision.ban).filter fun ban => ! ban.1.addr.is4)
  have hsplit := List.filter_append_perm (fun ban : Prefix × ℤ => ban.1.addr.is4)
    (decisions.filterMap LapiDecision.ban)
  apply (h4.append h6).trans
  exact hsplit.subperm

structure Measured (f : Feed) (s : CrowdsecBlocklist) : Prop where
  below_threshold : f.trips = false
  v4_le : s.v4.length ≤ crowdsecBlocklistMaxElements
  v6_le : s.v6.length ≤ crowdsecBlocklistMaxElements
  v4_aligned : s.ttlv4.length = s.v4.length
  v6_aligned : s.ttlv6.length = s.v6.length
  /-- Every prefix stands with the time of its own decision. -/
  from_decisions : s.bans.Subperm (f.decisions.filterMap LapiDecision.ban)

theorem handed_measured {cr : CrowdsecReconciler} {f : Feed} {s : CrowdsecBlocklist}
    (h : cr.handed f = some s) : Measured f s := by
  obtain ⟨-, htrips, rfl⟩ := CrowdsecReconciler.handed_eq_some h
  have hbans := bans_capped_subperm f.sorter f.decisions f.exclusionSet
  rw [capped_eq] at hbans ⊢
  exact {
    below_threshold := htrips
    v4_le := by rw [List.length_map]; exact length_kept_le _ _ _ _
    v6_le := by rw [List.length_map]; exact length_kept_le _ _ _ _
    v4_aligned := by rw [List.length_map, List.length_map]
    v6_aligned := by rw [List.length_map, List.length_map]
    from_decisions := hbans }

/-- Over any run of ticks the trip counter only rises, a closed latch ends the writes, and whatever
a tick hands over is below the threshold, within the cap and aligned with its decisions. -/
theorem ticks_safe (cr : CrowdsecReconciler) (before later : List Feed) (f : Feed) :
    (cr.ticks before).tripCount ≤ (cr.ticks (before ++ later)).tripCount ∧
      ((cr.ticks before).quiescent = true → (cr.ticks (before ++ later)).handed f = none) ∧
      ∀ s, (cr.ticks before).handed f = some s → Measured f s := by
  refine ⟨?_, ?_, fun s hs => handed_measured hs⟩
  · rw [CrowdsecReconciler.ticks_append]
    exact CrowdsecReconciler.tripCount_le_ticks _ later
  · intro hlatched
    have hquiescent : (cr.ticks (before ++ later)).quiescent = true := by
      rw [CrowdsecReconciler.ticks_append]
      exact CrowdsecReconciler.quiescent_ticks hlatched later
    cases hhanded : (cr.ticks (before ++ later)).handed f with
    | none => rfl
    | some s =>
      have hopen := (CrowdsecReconciler.handed_eq_some hhanded).1
      rw [hquiescent] at hopen
      cases hopen

/-- A tick that reads one ban of `1.2.3.0/24` for an hour. -/
def oneBan : Feed where
  sorter := sortsBefore_weak.stable
  lapi := some (.ok [⟨.cidr wideBan, "ban".toList, "Range".toList, some hour⟩])
  exclusions := some (.ok ⟨[], []⟩)

theorem ticks_safe_one_ban : ∃ s, enforcing.handed oneBan = some s ∧ Measured oneBan s := by
  have htrip : oneBan.trips = false := by rfl
  have hhanded := tick_enforcing oneBan.sorter htrip
  exact ⟨_, hhanded, (ticks_safe enforcing [] [] oneBan).2.2 _ hhanded⟩

/-- Three trips close the latch. -/
example : ((enforcing.trip).trip).trip.quiescent = true := rfl

end Insula.CrowdsecL4
