import Insula.ArtefactRetention
import Insula.Ranking

/-!
# The prune of a Job and the rule

The rule ranks the copies of an artefact by the stamps in their names, the Job by the names. The Job
evicts no copy that the rule keeps, whatever the policy, just when the two rankings are one and no
count that stands for "no limit" is reached.
-/

namespace Insula.BackupSchedules

open Javascript (utf16 utf16_injective)
open Ranking

/-! ## Jobs -/

structure DrJob where
  spec : DrArtefactSpec
  grep : Text → Bool
  slash : ∃ dir, spec.keyPrefix = dir ++ ['/']
  grep_iff : ∀ name, '/' ∉ name → (stampIn name).isSome →
    (grep name = true ↔ spec.isCopy (spec.keyPrefix ++ name) = true)
  companions_not_copy : ∀ key, ∀ companion ∈ spec.companions key, spec.isCopy companion = false

variable {name s : Text} {a b c : RetainedCopy} {copies : List RetainedCopy} {spec : DrArtefactSpec}
  {objects : List Text}

theorem baseName_append {dir : Text} (h : '/' ∉ name) : baseName (dir ++ ['/'] ++ name) = name := by
  unfold baseName List.rtakeWhile
  rw [List.reverse_append, List.reverse_append, List.takeWhile_append_of_pos]
  · simp
  · intro c hc
    have hne : c ≠ '/' := fun heq => h (heq ▸ List.mem_reverse.mp hc)
    simpa using hne

theorem etcd_slash (clusterId : Text) : ∃ dir, (etcdSpec clusterId).keyPrefix = dir ++ ['/'] :=
  ⟨"etcd/".toList ++ clusterId, rfl⟩

theorem isSuffixOf_append_of_length {last : Text} (hlength : last.length ≤ name.length) :
    last.isSuffixOf (s ++ name) = last.isSuffixOf name := by
  rw [Bool.eq_iff_iff, List.isSuffixOf_iff_suffix, List.isSuffixOf_iff_suffix]
  constructor
  · intro h
    exact List.suffix_of_suffix_length_le h (List.suffix_append s name) hlength
  · intro h
    exact h.trans (List.suffix_append s name)

theorem stampFirst_length (h : (stampFirst s).isSome) : 16 ≤ s.length := by
  unfold stampFirst at h
  split at h
  · simp only [List.length_cons]
    omega
  · cases h

theorem stampIn_length (h : (stampIn s).isSome) : 16 ≤ s.length := by
  induction s with
  | nil => cases h
  | cons c rest ih =>
    unfold stampIn at h
    rw [Option.isSome_or, Bool.or_eq_true] at h
    rcases h with h | h
    · exact stampFirst_length h
    · have := ih h
      rw [List.length_cons]
      omega

theorem stampIn_append {host rest : Text} (h : (stampFirst rest).isSome) :
    (stampIn (host ++ rest)).isSome := by
  induction host with
  | nil =>
    cases rest with
    | nil => cases h
    | cons c rest =>
      rw [List.nil_append, stampIn, Option.isSome_or, h, Bool.true_or]
  | cons c host ih => rw [List.cons_append, stampIn, Option.isSome_or, ih, Bool.or_true]

theorem etcd_grep_iff (clusterId : Text) (name : Text) (_ : '/' ∉ name)
    (hstamp : (stampIn name).isSome) : etcdGrep name = true ↔
      (etcdSpec clusterId).isCopy ((etcdSpec clusterId).keyPrefix ++ name) = true := by
  have hlength : ".db".toList.length ≤ name.length := by
    have := stampIn_length hstamp
    have hdb : ".db".toList.length = 3 := rfl
    omega
  unfold etcdGrep etcdSpec
  dsimp only
  rw [isSuffixOf_append_of_length hlength]

theorem etcd_companions_not_copy (clusterId : Text) (key : Text) (companion : Text)
    (h : companion ∈ (etcdSpec clusterId).companions key) :
    (etcdSpec clusterId).isCopy companion = false := by
  rw [show (etcdSpec clusterId).companions key = [key ++ ".meta".toList] from rfl,
    List.mem_singleton] at h
  have hmeta : ".db".toList.isSuffixOf ".meta".toList = false := by decide
  have hlength : ".db".toList.length ≤ ".meta".toList.length := by decide
  rw [h]
  exact (isSuffixOf_append_of_length hlength).trans hmeta

def etcdJob (clusterId : Text) : DrJob where
  spec := etcdSpec clusterId
  grep := etcdGrep
  slash := etcd_slash clusterId
  grep_iff := etcd_grep_iff clusterId
  companions_not_copy := etcd_companions_not_copy clusterId

theorem named_grep_iff {first last : Text} (dir : Text) (hnone : stampIn (first ++ last) = none)
    (hslash : '/' ∉ name) (hstamp : (stampIn name).isSome) :
    namedGrep first last name = true ↔ namedCopy first last (dir ++ ['/'] ++ name) = true := by
  have hany : (dir ++ ['/'] ++ name).any (· = '/') = true := by simp
  unfold namedGrep namedCopy
  rw [baseName_append hslash, hany, Bool.true_and]
  simp only [Bool.and_eq_true, decide_eq_true_eq]
  apply and_congr_right
  rintro ⟨hfirst, hlast⟩
  constructor
  · intro hle
    apply Nat.lt_of_le_of_ne hle
    intro heq
    obtain ⟨mid, hmid⟩ := List.isPrefixOf_iff_prefix.mp hfirst
    have hlength : mid.length = last.length := by
      have := congrArg List.length hmid
      rw [List.length_append] at this
      omega
    have hsuffix : last <:+ mid := by
      refine List.suffix_of_suffix_length_le (List.isSuffixOf_iff_suffix.mp hlast) ?_
        (Nat.le_of_eq hlength.symm)
      exact ⟨first, hmid⟩
    rw [hsuffix.eq_of_length hlength.symm] at hnone
    rw [← hmid, hnone] at hstamp
    cases hstamp
  · exact Nat.le_of_lt

theorem secrets_slash : ∃ dir, secretsSpec.keyPrefix = dir ++ ['/'] := ⟨"dr/secrets".toList, rfl⟩

theorem secrets_grep_iff (name : Text) (hslash : '/' ∉ name) (hstamp : (stampIn name).isSome) :
    secretsGrep name = true ↔ secretsSpec.isCopy (secretsSpec.keyPrefix ++ name) = true :=
  named_grep_iff "dr/secrets".toList (by decide) hslash hstamp

theorem secrets_companions_not_copy (key companion : Text)
    (h : companion ∈ secretsSpec.companions key) : secretsSpec.isCopy companion = false := nomatch h

def secretsJob : DrJob where
  spec := secretsSpec
  grep := secretsGrep
  slash := secrets_slash
  grep_iff := secrets_grep_iff
  companions_not_copy := secrets_companions_not_copy

theorem clusterState_slash : ∃ dir, clusterStateSpec.keyPrefix = dir ++ ['/'] :=
  ⟨"dr/cluster-state".toList, rfl⟩

theorem clusterState_grep_iff (name : Text) (hslash : '/' ∉ name) (hstamp : (stampIn name).isSome) :
    clusterStateGrep name = true ↔
      clusterStateSpec.isCopy (clusterStateSpec.keyPrefix ++ name) = true :=
  named_grep_iff "dr/cluster-state".toList (by decide) hslash hstamp

theorem clusterState_companions_not_copy (key companion : Text)
    (h : companion ∈ clusterStateSpec.companions key) :
    clusterStateSpec.isCopy companion = false := nomatch h

def clusterStateJob : DrJob where
  spec := clusterStateSpec
  grep := clusterStateGrep
  slash := clusterState_slash
  grep_iff := clusterState_grep_iff
  companions_not_copy := clusterState_companions_not_copy

/-! ## The order of copies -/

def newer (a b : RetainedCopy) : Bool :=
  decide (b.createdAt < a.createdAt) ||
    (decide (a.createdAt = b.createdAt) && decide (utf16 b.key < utf16 a.key))

theorem compareCopies_nonpos_iff : compareCopies a b ≤ 0 ↔ newer b a = false := by
  unfold compareCopies newer
  dsimp only
  have hasymm : utf16 a.key < utf16 b.key → ¬ utf16 b.key < utf16 a.key := List.lt_asymm
  by_cases ht : b.createdAt - a.createdAt = 0
  · rw [if_neg (not_not.mpr ht)]
    split_ifs with hab hba
    · simp [hab]
      omega
    · simp [hab]
      omega
    · simp [hab]
      omega
  · rw [if_pos ht]
    simp
    omega

theorem newer_iff : newer a b = true ↔
    b.createdAt < a.createdAt ∨ (a.createdAt = b.createdAt ∧ utf16 b.key < utf16 a.key) := by
  simp [newer]

theorem newer_irrefl (a : RetainedCopy) : newer a a = false := by
  rw [← Bool.not_eq_true, newer_iff]
  rintro (h | ⟨-, h⟩)
  · omega
  · exact List.lt_irrefl _ h

theorem newer_asymm (a b : RetainedCopy) (h : newer a b = true) : newer b a = false := by
  rw [← Bool.not_eq_true, newer_iff]
  rw [newer_iff] at h
  rintro (hba | ⟨heq, hba⟩)
  · omega
  · rcases h with h | ⟨-, h⟩
    · omega
    · exact List.lt_asymm h hba

theorem newer_total (hne : a.key ≠ b.key) (h : newer b a = false) : newer a b = true := by
  rw [← Bool.not_eq_true, newer_iff] at h
  rw [newer_iff]
  rcases Int.lt_trichotomy a.createdAt b.createdAt with hlt | heq | hgt
  · exact absurd (.inl hlt) h
  · refine .inr ⟨heq, ?_⟩
    by_contra hnot
    have hle : ¬ utf16 a.key < utf16 b.key := fun hkey => h (.inr ⟨heq.symm, hkey⟩)
    exact hne (utf16_injective (List.le_antisymm (List.not_lt.mp hnot) (List.not_lt.mp hle)))
  · exact .inl hgt

theorem newer_trans (hab : newer b a = false) (hbc : newer c b = false) : newer c a = false := by
  rw [← Bool.not_eq_true, newer_iff] at hab hbc ⊢
  rintro (h | ⟨heq, h⟩)
  · by_cases hb : a.createdAt < b.createdAt
    · exact hab (.inl hb)
    · exact hbc (.inl (by omega))
  · have hcb : ¬ b.createdAt < c.createdAt := fun hlt => hbc (.inl hlt)
    have hba : ¬ a.createdAt < b.createdAt := fun hlt => hab (.inl hlt)
    have hkeys : ¬ utf16 b.key < utf16 c.key := fun hlt => hbc (.inr ⟨by omega, hlt⟩)
    have hkeys' : ¬ utf16 a.key < utf16 b.key := fun hlt => hab (.inr ⟨by omega, hlt⟩)
    exact List.not_lt.mpr (List.le_trans (List.not_lt.mp hkeys) (List.not_lt.mp hkeys')) h

def Distinct (copies : List RetainedCopy) : Prop := (copies.map RetainedCopy.key).Nodup

theorem ordered_perm (copies : List RetainedCopy) : (ordered copies).Perm copies :=
  List.mergeSort_perm copies _

theorem ordered_pairwise (h : Distinct copies) :
    (ordered copies).Pairwise fun a b => newer a b = true := by
  have hle : (ordered copies).Pairwise fun a b => newer b a = false := by
    have hsorted := @List.pairwise_mergeSort _ (fun a b => decide (compareCopies a b ≤ 0))
      ?_ ?_ copies
    · apply hsorted.imp
      intro a b hab
      exact compareCopies_nonpos_iff.mp (of_decide_eq_true hab)
    · intro a b c hab hbc
      simp only [decide_eq_true_eq, compareCopies_nonpos_iff] at hab hbc ⊢
      exact newer_trans hab hbc
    · intro a b
      simp only [Bool.or_eq_true, decide_eq_true_eq, compareCopies_nonpos_iff]
      cases hab : newer a b with
      | false => exact .inr rfl
      | true => exact .inl (newer_asymm a b hab)
  have hkeys : (ordered copies).Pairwise fun a b => a.key ≠ b.key := by
    have hnodup : ((ordered copies).map RetainedCopy.key).Nodup :=
      ((ordered_perm copies).map _).nodup_iff.mpr h
    exact List.pairwise_map.mp hnodup
  exact (hle.and hkeys).imp fun hab => newer_total hab.2 hab.1

/-! ## What the rule removes -/

def rank (copies : List RetainedCopy) (c : RetainedCopy) : ℕ := copies.countP (newer · c)

/-- Older than the days limit, or not among the newest `count`; the newest copy never is. -/
def Expired (copies : List RetainedCopy) (policy : RetentionPolicy) (now : ℤ) (c : RetainedCopy) :
    Prop :=
  0 < rank copies c ∧ ((∃ days ∈ policy.days, c.createdAt < now - days * dayMs) ∨
    ∃ count ∈ policy.count, count ≤ rank copies c)

theorem rank_ordered (copies : List RetainedCopy) (c : RetainedCopy) :
    rank (ordered copies) c = rank copies c :=
  (ordered_perm copies).countP_eq _

theorem mem_ordered_drop (h : Distinct copies) {n : ℕ} :
    c ∈ (ordered copies).drop n ↔ c ∈ copies ∧ n ≤ rank copies c := by
  rw [mem_drop_iff newer_irrefl newer_asymm (ordered_pairwise h), (ordered_perm copies).mem_iff,
    ← rank_ordered]
  rfl

theorem mem_selectForRemoval (h : Distinct copies) {policy : RetentionPolicy} {now : ℤ} :
    c ∈ selectForRemoval copies policy now ↔ c ∈ copies ∧ Expired copies policy now c := by
  unfold selectForRemoval Expired
  dsimp only
  rw [List.mem_map]
  simp only [List.mem_filter, Prod.exists, exists_and_right, exists_eq_right,
    List.mem_zipIdx_iff_getElem?, Bool.and_eq_true, Bool.or_eq_true, decide_eq_true_eq,
    Option.any_map, Option.any_eq_true]
  constructor
  · rintro ⟨i, hi, hexpired⟩
    have hrank := countP_eq_of_getElem? newer_irrefl newer_asymm (ordered_pairwise h) hi
    have hcopies : rank copies c = i := (rank_ordered copies c).symm.trans hrank
    rw [hcopies]
    exact ⟨(ordered_perm copies).mem_iff.mp (List.mem_of_getElem? hi), hexpired⟩
  · rintro ⟨hc, hexpired⟩
    obtain ⟨i, hi⟩ := List.mem_iff_getElem?.mp ((ordered_perm copies).mem_iff.mpr hc)
    have hrank := countP_eq_of_getElem? newer_irrefl newer_asymm (ordered_pairwise h) hi
    have hcopies : rank copies c = i := (rank_ordered copies c).symm.trans hrank
    rw [hcopies] at hexpired
    exact ⟨i, hi, hexpired⟩

/-! ## Listings -/

theorem childName_eq_some {keyPrefix key : Text} :
    childName keyPrefix key = some name ↔ key = keyPrefix ++ name ∧ '/' ∉ name := by
  unfold childName
  rw [Option.ite_none_right_eq_some, Bool.and_eq_true, List.isPrefixOf_iff_prefix]
  constructor
  · rintro ⟨⟨⟨rest, rfl⟩, hslash⟩, hname⟩
    cases hname
    rw [List.drop_left] at hslash ⊢
    refine ⟨rfl, ?_⟩
    intro hmem
    simp only [Bool.not_eq_true', List.any_eq_false, decide_eq_true_eq] at hslash
    exact hslash '/' hmem rfl
  · rintro ⟨rfl, hslash⟩
    rw [List.drop_left]
    refine ⟨⟨List.prefix_append _ _, ?_⟩, rfl⟩
    simp only [Bool.not_eq_true', List.any_eq_false, decide_eq_true_eq]
    exact fun c hc heq => hslash (heq ▸ hc)

theorem mem_copiesOf :
    c ∈ copiesOf spec objects ↔ c.key ∈ objects ∧ (∃ name, childName spec.keyPrefix c.key = some name) ∧
      spec.isCopy c.key = true ∧ stampOf c.key = some c.createdAt := by
  unfold copiesOf
  rw [List.mem_flatMap]
  constructor
  · rintro ⟨key, hkey, hc⟩
    obtain ⟨hobject, hcopy⟩ := List.mem_filter.mp hkey
    rw [Bool.and_eq_true, Option.isSome_iff_exists] at hcopy
    cases hstamp : stampOf key with
    | none =>
      rw [hstamp] at hc
      cases hc
    | some createdAt =>
      rw [hstamp] at hc
      obtain rfl := List.mem_singleton.mp hc
      exact ⟨hobject, hcopy.1, hcopy.2, hstamp⟩
  · rintro ⟨hobject, hchild, hcopy, hstamp⟩
    refine ⟨c.key, List.mem_filter.mpr ⟨hobject, ?_⟩, ?_⟩
    · rw [Bool.and_eq_true, Option.isSome_iff_exists]
      exact ⟨hchild, hcopy⟩
    · rw [hstamp]
      exact List.mem_singleton_self _

theorem copiesOf_keys (spec : DrArtefactSpec) (objects : List Text) :
    ((copiesOf spec objects).map RetainedCopy.key).Sublist objects := by
  unfold copiesOf
  have hsublist := List.filter_sublist (l := objects)
    (p := fun key => (childName spec.keyPrefix key).isSome && spec.isCopy key)
  refine List.Sublist.trans ?_ hsublist
  induction objects.filter fun key => (childName spec.keyPrefix key).isSome && spec.isCopy key with
  | nil => exact List.Sublist.slnil
  | cons key rest ih =>
    rw [List.flatMap_cons, List.map_append]
    cases stampOf key with
    | none => exact ih.cons key
    | some createdAt => exact ih.cons_cons key

theorem distinct_copiesOf (h : objects.Nodup) : Distinct (copiesOf spec objects) :=
  (copiesOf_keys spec objects).nodup h

theorem copiesOf_perm {listing : List Text} (h : listing.Perm objects) :
    (copiesOf spec listing).Perm (copiesOf spec objects) :=
  (h.filter _).flatMap_right _

/-! ## The prune of a Job -/

section Jobs

variable (job : DrJob) (objects : List Text)

def DrJob.names : List Text := objects.filterMap (childName job.spec.keyPrefix)

def DrJob.evicts (keep : ℕ) : List Text := BackupSchedules.evicts job.grep keep (job.names objects)

def DrJob.nameOf (c : RetainedCopy) : Text := c.key.drop job.spec.keyPrefix.length

/-- What looks like a copy was written by a Job: a host part, a stamp and a suffix. -/
def DrJob.Written : Prop :=
  ∀ key ∈ objects, ∀ name, childName job.spec.keyPrefix key = some name →
    job.grep name = true ∨ job.spec.isCopy key = true →
    ∃ host rest, name = host ++ rest ∧ (stampFirst rest).isSome

structure WithinRule (policy : RetentionPolicy) (now : ℤ) : Prop where
  /-- The Job removes no copy that the rule keeps. -/
  subset : ∀ name ∈ job.evicts objects (jobCount policy),
    ∃ c ∈ selectForRemoval (copiesOf job.spec objects) policy now, c.key = job.spec.keyPrefix ++ name
  /-- Neither removes the newest copy. -/
  newest : ∀ c ∈ copiesOf job.spec objects,
    (∀ c' ∈ copiesOf job.spec objects, newer c' c = false) →
      job.nameOf c ∉ job.evicts objects (jobCount policy) ∧
        c.key ∉ planArtefactRemoval job.spec objects policy now
  /-- The rule removes the copies that have expired, with their companions, in whatever order the
  objects are listed. -/
  exact : ∀ listing, listing.Perm objects → ∀ key,
    key ∈ planArtefactRemoval job.spec listing policy now ↔
      ∃ c ∈ copiesOf job.spec objects, Expired (copiesOf job.spec objects) policy now c ∧
        (key = c.key ∨ (key ∈ job.spec.companions c.key ∧ key ∈ objects))

def NamesSortLikeStamps : Prop :=
  ∀ a ∈ copiesOf job.spec objects, ∀ b ∈ copiesOf job.spec objects,
    (job.nameOf b).map Char.toNat < (job.nameOf a).map Char.toNat → newer a b = true

variable {job objects} {key name : Text} {c : RetainedCopy} {policy : RetentionPolicy} {now : ℤ}

theorem DrJob.Written.stamp (h : job.Written objects) (hkey : key ∈ objects)
    (hname : childName job.spec.keyPrefix key = some name)
    (hcopy : job.grep name = true ∨ job.spec.isCopy key = true) : (stampIn name).isSome := by
  obtain ⟨host, rest, rfl, hstamp⟩ := h key hkey name hname hcopy
  exact stampIn_append hstamp

theorem DrJob.stampOf_child (hname : childName job.spec.keyPrefix key = some name) :
    stampOf key = (stampIn name).map dateUtc := by
  obtain ⟨rfl, hslash⟩ := childName_eq_some.mp hname
  obtain ⟨dir, hdir⟩ := job.slash
  unfold stampOf
  rw [hdir, baseName_append hslash]

theorem DrJob.key_of_mem (hc : c ∈ copiesOf job.spec objects) :
    c.key = job.spec.keyPrefix ++ job.nameOf c ∧
      childName job.spec.keyPrefix c.key = some (job.nameOf c) := by
  obtain ⟨-, ⟨name, hname⟩, -⟩ := mem_copiesOf.mp hc
  have hkey := (childName_eq_some.mp hname).1
  have hnameOf : job.nameOf c = name := by
    unfold DrJob.nameOf
    rw [hkey, List.drop_left]
  rw [hnameOf]
  exact ⟨hkey, hname⟩

theorem eq_of_key_eq {spec : DrArtefactSpec} {c' : RetainedCopy} (hc : c ∈ copiesOf spec objects)
    (hc' : c' ∈ copiesOf spec objects) (hkey : c.key = c'.key) : c = c' := by
  obtain ⟨-, -, -, hstamp⟩ := mem_copiesOf.mp hc
  obtain ⟨-, -, -, hstamp'⟩ := mem_copiesOf.mp hc'
  rw [hkey, hstamp'] at hstamp
  obtain ⟨createdAt, key⟩ := c
  obtain ⟨createdAt', key'⟩ := c'
  cases hkey
  cases hstamp
  rfl

theorem mem_names_iff (hwritten : job.Written objects) :
    name ∈ (job.names objects).filter job.grep ↔
      name ∈ (copiesOf job.spec objects).map job.nameOf := by
  rw [List.mem_filter, List.mem_map]
  constructor
  · rintro ⟨hname, hgrep⟩
    obtain ⟨key, hkey, hchild⟩ := List.mem_filterMap.mp hname
    have hstamp := hwritten.stamp hkey hchild (.inl hgrep)
    obtain ⟨hadd, hslash⟩ := childName_eq_some.mp hchild
    have hcopy := (job.grep_iff name hslash hstamp).mp hgrep
    rw [← hadd] at hcopy
    obtain ⟨stamp, hstamp⟩ := Option.isSome_iff_exists.mp hstamp
    have hc : ⟨dateUtc stamp, key⟩ ∈ copiesOf job.spec objects := by
      refine mem_copiesOf.mpr ⟨hkey, ⟨name, hchild⟩, hcopy, ?_⟩
      rw [job.stampOf_child hchild, hstamp]
      rfl
    refine ⟨_, hc, ?_⟩
    exact Option.some.inj ((DrJob.key_of_mem hc).2.symm.trans hchild)
  · rintro ⟨c, hc, rfl⟩
    obtain ⟨hobject, -, hcopy, -⟩ := mem_copiesOf.mp hc
    obtain ⟨hadd, hchild⟩ := DrJob.key_of_mem hc
    have hstamp := hwritten.stamp hobject hchild (.inr hcopy)
    rw [hadd] at hcopy
    exact ⟨List.mem_filterMap.mpr ⟨c.key, hobject, hchild⟩,
      (job.grep_iff _ (childName_eq_some.mp hchild).2 hstamp).mpr hcopy⟩

theorem nodup_names (h : objects.Nodup) : (job.names objects).Nodup := by
  apply h.filterMap
  intro key key' name hname hname'
  rw [(childName_eq_some.mp hname).1, (childName_eq_some.mp hname').1]

theorem nodup_nameOf (h : objects.Nodup) : ((copiesOf job.spec objects).map job.nameOf).Nodup := by
  apply (List.Nodup.of_map RetainedCopy.key (distinct_copiesOf h)).map_on
  intro c hc c' hc' hname
  apply eq_of_key_eq hc hc'
  rw [(DrJob.key_of_mem hc).1, (DrJob.key_of_mem hc').1, hname]

theorem names_perm (h : objects.Nodup) (hwritten : job.Written objects) :
    ((job.names objects).filter job.grep).Perm ((copiesOf job.spec objects).map job.nameOf) :=
  (List.perm_ext_iff_of_nodup ((nodup_names h).filter _) (nodup_nameOf h)).mpr
    fun _ => mem_names_iff hwritten

/-! ### The plan of the rule -/

theorem mem_planArtefactRemoval (hnodup : objects.Nodup) :
    key ∈ planArtefactRemoval job.spec objects policy now ↔
      ∃ c ∈ copiesOf job.spec objects, Expired (copiesOf job.spec objects) policy now c ∧
        (key = c.key ∨ (key ∈ job.spec.companions c.key ∧ key ∈ objects)) := by
  unfold planArtefactRemoval
  simp only [List.mem_flatMap, mem_selectForRemoval (distinct_copiesOf hnodup), List.mem_cons,
    List.mem_filter, List.any_eq_true, decide_eq_true_eq, exists_eq_right, and_assoc]

theorem expired_perm {copies copies' : List RetainedCopy} (h : copies.Perm copies') :
    Expired copies policy now c ↔ Expired copies' policy now c := by
  have hrank : rank copies c = rank copies' c := h.countP_eq _
  unfold Expired
  rw [hrank]

theorem mem_planArtefactRemoval_perm (hnodup : objects.Nodup) {listing : List Text}
    (hperm : listing.Perm objects) :
    key ∈ planArtefactRemoval job.spec listing policy now ↔
      ∃ c ∈ copiesOf job.spec objects, Expired (copiesOf job.spec objects) policy now c ∧
        (key = c.key ∨ (key ∈ job.spec.companions c.key ∧ key ∈ objects)) := by
  rw [mem_planArtefactRemoval (hperm.nodup_iff.mpr hnodup)]
  have hcopies : (copiesOf job.spec listing).Perm (copiesOf job.spec objects) := copiesOf_perm hperm
  simp only [hcopies.mem_iff, expired_perm hcopies, hperm.mem_iff]

theorem not_expired_newest {copies : List RetainedCopy}
    (hnewest : ∀ c' ∈ copies, newer c' c = false) : ¬ Expired copies policy now c := by
  rintro ⟨hrank, -⟩
  obtain ⟨c', hc', hnewer⟩ := List.countP_pos_iff.mp hrank
  rw [hnewest c' hc'] at hnewer
  cases hnewer

theorem newest_not_planned (hnodup : objects.Nodup) (hc : c ∈ copiesOf job.spec objects)
    (hnewest : ∀ c' ∈ copiesOf job.spec objects, newer c' c = false) :
    c.key ∉ planArtefactRemoval job.spec objects policy now := by
  rw [mem_planArtefactRemoval hnodup]
  rintro ⟨c', hc', hexpired, hkey | ⟨hcompanion, -⟩⟩
  · rw [← eq_of_key_eq hc hc' hkey] at hexpired
    exact not_expired_newest hnewest hexpired
  · have hcopy := (mem_copiesOf.mp hc).2.2.1
    rw [job.companions_not_copy _ _ hcompanion] at hcopy
    cases hcopy

/-! ### The two rankings -/

section Rankings

variable (job objects)

def byName : List Text :=
  ((job.names objects).filter job.grep).mergeSort fun a b =>
    ! decide (a.map Char.toNat < b.map Char.toNat)

def byStamp : List Text := (ordered (copiesOf job.spec objects)).map job.nameOf

end Rankings

theorem mem_evicts {keep : ℕ} :
    name ∈ job.evicts objects keep ↔ 1 ≤ keep ∧ name ∈ (byName job objects).drop keep := by
  unfold DrJob.evicts evicts
  split_ifs with hkeep
  · exact (and_iff_right hkeep).symm
  · simp [hkeep]

theorem byName_pairwise : (byName job objects).Pairwise
    fun a b => ¬ a.map Char.toNat < b.map Char.toNat := by
  have hsorted := @List.pairwise_mergeSort _
    (fun a b : Text => ! decide (a.map Char.toNat < b.map Char.toNat)) ?_ ?_
    ((job.names objects).filter job.grep)
  · apply hsorted.imp
    intro a b hab
    simpa using hab
  · intro a b c hab hbc
    simp only [Bool.not_eq_true', decide_eq_false_iff_not] at hab hbc ⊢
    exact List.not_lt.mpr (List.le_trans (List.not_lt.mp hbc) (List.not_lt.mp hab))
  · intro a b
    simp only [Bool.or_eq_true, Bool.not_eq_true', decide_eq_false_iff_not]
    by_cases hab : a.map Char.toNat < b.map Char.toNat
    · exact .inr (List.lt_asymm hab)
    · exact .inl hab

theorem byName_perm (hnodup : objects.Nodup) (hwritten : job.Written objects) :
    (byName job objects).Perm (byStamp job objects) :=
  (List.mergeSort_perm _ _).trans ((names_perm hnodup hwritten).trans
    ((ordered_perm _).map job.nameOf).symm)

theorem pairwise_or {α : Type} {r : α → α → Prop} {l : List α} (h : l.Pairwise r) {a b : α}
    (ha : a ∈ l) (hb : b ∈ l) (hne : a ≠ b) : r a b ∨ r b a := by
  induction h with
  | nil => cases ha
  | cons hfirst hrest ih =>
    rcases List.mem_cons.mp ha with rfl | harest
    · rcases List.mem_cons.mp hb with rfl | hbrest
      · exact absurd rfl hne
      · exact .inl (hfirst _ hbrest)
    · rcases List.mem_cons.mp hb with rfl | hbrest
      · exact .inr (hfirst _ harest)
      · exact ih harest hbrest

theorem byName_eq_byStamp_iff (hnodup : objects.Nodup) (hwritten : job.Written objects) :
    byName job objects = byStamp job objects ↔ NamesSortLikeStamps job objects := by
  have hdistinct : Distinct (copiesOf job.spec objects) := distinct_copiesOf hnodup
  have hordered := ordered_pairwise hdistinct
  constructor
  · intro heq a ha b hb hlt
    have hsorted : (byName job objects).Pairwise
        fun a b => ¬ a.map Char.toNat < b.map Char.toNat := byName_pairwise
    rw [heq] at hsorted
    have hboth := (List.pairwise_map.mp hsorted).and hordered
    have hne : a ≠ b := by
      rintro rfl
      exact List.lt_irrefl _ hlt
    have ha' := (ordered_perm _).mem_iff.mpr ha
    have hb' := (ordered_perm _).mem_iff.mpr hb
    rcases pairwise_or hboth ha' hb' hne with hab | hba
    · exact hab.2
    · exact absurd hlt hba.1
  · intro hlike
    refine (byName_perm hnodup hwritten).eq_of_pairwise ?_ byName_pairwise ?_
    · intro a b _ _ hab hba
      have hcodes := List.le_antisymm (List.not_lt.mp hba) (List.not_lt.mp hab)
      exact List.map_injective_iff.mpr (fun _ _ => Char.toNat_inj.mp) hcodes
    · refine List.pairwise_map.mpr (hordered.imp_of_mem ?_)
      intro a b ha hb hnewer hlt
      have := hlike b ((ordered_perm _).mem_iff.mp hb) a ((ordered_perm _).mem_iff.mp ha) hlt
      rw [newer_asymm a b hnewer] at this
      cases this

theorem byStamp_length : (byStamp job objects).length = (copiesOf job.spec objects).length := by
  unfold byStamp
  rw [List.length_map]
  exact (ordered_perm _).length_eq

/-- A name that the rule ranks behind the first `n`, as a copy. -/
theorem mem_byStamp_drop (hnodup : objects.Nodup) {n : ℕ} :
    name ∈ (byStamp job objects).drop n ↔ ∃ c ∈ copiesOf job.spec objects,
      n ≤ rank (copiesOf job.spec objects) c ∧ c.key = job.spec.keyPrefix ++ name := by
  unfold byStamp
  rw [← List.map_drop, List.mem_map]
  constructor
  · rintro ⟨c, hc, rfl⟩
    obtain ⟨hcopy, hrank⟩ := (mem_ordered_drop (distinct_copiesOf hnodup)).mp hc
    exact ⟨c, hcopy, hrank, (DrJob.key_of_mem hcopy).1⟩
  · rintro ⟨c, hc, hrank, hkey⟩
    refine ⟨c, (mem_ordered_drop (distinct_copiesOf hnodup)).mpr ⟨hc, hrank⟩, ?_⟩
    exact List.append_cancel_left ((DrJob.key_of_mem hc).1.symm.trans hkey)

theorem evicted_expired (hnodup : objects.Nodup) (hwritten : job.Written objects)
    (hlike : NamesSortLikeStamps job objects)
    (hfew : (copiesOf job.spec objects).length ≤ jobUnlimitedCount)
    (hname : name ∈ job.evicts objects (jobCount policy)) (now : ℤ) :
    ∃ c ∈ selectForRemoval (copiesOf job.spec objects) policy now,
      c.key = job.spec.keyPrefix ++ name := by
  obtain ⟨hpos, hdrop⟩ := mem_evicts.mp hname
  rw [(byName_eq_byStamp_iff hnodup hwritten).mpr hlike] at hdrop
  cases hcount : policy.count with
  | none =>
    have hall : jobCount policy = jobUnlimitedCount := by
      unfold jobCount
      rw [hcount]
      rfl
    rw [hall, List.drop_eq_nil_of_le (byStamp_length.trans_le hfew)] at hdrop
    cases hdrop
  | some count =>
    have hjob : jobCount policy = count := by
      unfold jobCount
      rw [hcount]
      rfl
    rw [hjob] at hpos hdrop
    obtain ⟨c, hc, hrank, hkey⟩ := (mem_byStamp_drop hnodup).mp hdrop
    refine ⟨c, (mem_selectForRemoval (distinct_copiesOf hnodup)).mpr ⟨hc, ?_, .inr ?_⟩, hkey⟩
    · omega
    · exact ⟨count, hcount, hrank⟩

/-- When the prune of a Job stays within the rule, for every policy at every time. -/
theorem prune_within_rule_iff (job : DrJob) (objects : List Text) (hnodup : objects.Nodup)
    (hwritten : job.Written objects) : (∀ policy now, WithinRule job objects policy now) ↔
      NamesSortLikeStamps job objects ∧ (copiesOf job.spec objects).length ≤ jobUnlimitedCount := by
  constructor
  · intro hall
    constructor
    · rw [← byName_eq_byStamp_iff hnodup hwritten]
      have hperm := byName_perm hnodup hwritten
      have hnames : (byName job objects).Nodup :=
        (List.mergeSort_perm _ _).nodup_iff.mpr ((nodup_names hnodup).filter _)
      apply eq_of_drop_subset hnames hperm.length_eq.symm
      intro n name hname
      cases n with
      | zero => exact hperm.subset hname
      | succ n =>
        have hevicted : name ∈ job.evicts objects (jobCount ⟨none, some (n + 1)⟩) :=
          mem_evicts.mpr ⟨Nat.succ_le_succ (Nat.zero_le n), hname⟩
        obtain ⟨c, hc, hkey⟩ := (hall ⟨none, some (n + 1)⟩ 0).subset name hevicted
        obtain ⟨hcopy, -, hold | ⟨count, hcount, hrank⟩⟩ :=
          (mem_selectForRemoval (distinct_copiesOf hnodup)).mp hc
        · obtain ⟨days, hdays, -⟩ := hold
          cases hdays
        · cases hcount
          exact (mem_byStamp_drop hnodup).mpr ⟨c, hcopy, hrank, hkey⟩
    · by_contra hmany
      have hlength : (byName job objects).length = (copiesOf job.spec objects).length :=
        (byName_perm hnodup hwritten).length_eq.trans byStamp_length
      obtain ⟨name, hname⟩ : ∃ name, name ∈ (byName job objects).drop jobUnlimitedCount := by
        apply List.exists_mem_of_length_pos
        rw [List.length_drop, hlength]
        omega
      have hevicted : name ∈ job.evicts objects (jobCount keepEverything) :=
        mem_evicts.mpr ⟨by decide, hname⟩
      obtain ⟨c, hc, -⟩ := (hall keepEverything 0).subset name hevicted
      obtain ⟨-, -, ⟨days, hdays, -⟩ | ⟨count, hcount, -⟩⟩ :=
        (mem_selectForRemoval (distinct_copiesOf hnodup)).mp hc
      · cases hdays
      · cases hcount
  · rintro ⟨hlike, hfew⟩ policy now
    refine ⟨fun name hname => evicted_expired hnodup hwritten hlike hfew hname now, ?_, ?_⟩
    · intro c hc hnewest
      refine ⟨?_, newest_not_planned hnodup hc hnewest⟩
      intro hevicted
      have hexpires := evicted_expired hnodup hwritten hlike hfew hevicted
      obtain ⟨c', hc', hkey⟩ := hexpires now
      obtain ⟨hcopy, hexpired⟩ := (mem_selectForRemoval (distinct_copiesOf hnodup)).mp hc'
      rw [← (DrJob.key_of_mem hc).1] at hkey
      rw [eq_of_key_eq hcopy hc hkey] at hexpired
      exact not_expired_newest hnewest hexpired
    · exact fun listing hperm key => mem_planArtefactRemoval_perm hnodup hperm

end Jobs

/-! ### Two snapshots -/

def scheduled : Text :=
  "etcd-snap-via-shim-29868540-g8cxv-20261016T010001Z-etcd-snapshot-lab-1-1792108804.db".toList

def earlier : Text :=
  "etcd-snap-via-shim-29868420-k9w4n-20261015T230001Z-etcd-snapshot-lab-1-1792105204.db".toList

def byHand : Text := "etcd-rotate-post-x7k2p-20261016T020003Z-etcd-snapshot-lab-1-1792108804.db".toList

def snapshotsOf (names : List Text) : List Text := names.map ("etcd/c1/".toList ++ ·)

theorem snapshots_written {names : List Text}
    (h : ∀ name ∈ names, ∃ host rest, name = host ++ rest ∧ (stampFirst rest).isSome) :
    (etcdJob "c1".toList).Written (snapshotsOf names) := by
  intro key hkey name hname _
  obtain ⟨name', hname', rfl⟩ := List.mem_map.mp hkey
  have heq : name' = name := List.append_cancel_left (childName_eq_some.mp hname).1
  exact heq ▸ h name' hname'

theorem scheduled_written : ∃ host rest, scheduled = host ++ rest ∧ (stampFirst rest).isSome :=
  ⟨scheduled.take 34, scheduled.drop 34, by rfl, by rfl⟩

theorem byHand_written : ∃ host rest, byHand = host ++ rest ∧ (stampFirst rest).isSome :=
  ⟨byHand.take 23, byHand.drop 23, by rfl, by rfl⟩

theorem earlier_written : ∃ host rest, earlier = host ++ rest ∧ (stampFirst rest).isSome :=
  ⟨earlier.take 34, earlier.drop 34, by rfl, by rfl⟩

/-- Of two snapshots the Job keeps the later. -/
theorem later_snapshot_kept :
    (etcdJob "c1".toList).evicts (snapshotsOf [scheduled, earlier]) (jobCount ⟨some 7, some 1⟩) =
        [earlier] ∧
      WithinRule (etcdJob "c1".toList) (snapshotsOf [scheduled, earlier]) ⟨some 7, some 1⟩
        1792116003000 := by
  have hnames : ((etcdJob "c1".toList).names (snapshotsOf [scheduled, earlier])).filter
      (etcdJob "c1".toList).grep = [scheduled, earlier] := by rfl
  have hevicts : (etcdJob "c1".toList).evicts (snapshotsOf [scheduled, earlier])
      (jobCount ⟨some 7, some 1⟩) = [earlier] := by
    unfold DrJob.evicts evicts
    rw [hnames, List.mergeSort_of_pairwise (by decide)]
    rfl
  refine ⟨hevicts, (prune_within_rule_iff (etcdJob "c1".toList)
    (snapshotsOf [scheduled, earlier]) (by decide) (snapshots_written ?_)).mpr ⟨?_, by decide⟩ _ _⟩
  · intro name hname
    rcases List.mem_cons.mp hname with rfl | hname
    · exact scheduled_written
    · rw [List.mem_singleton.mp hname]
      exact earlier_written
  · have hcopies : copiesOf (etcdJob "c1".toList).spec (snapshotsOf [scheduled, earlier]) =
        [⟨1792112401000, "etcd/c1/".toList ++ scheduled⟩,
          ⟨1792105201000, "etcd/c1/".toList ++ earlier⟩] := by rfl
    intro a ha b hb
    rw [hcopies] at ha hb
    simp only [List.mem_cons, List.not_mem_nil, or_false] at ha hb
    rcases ha with rfl | rfl <;> rcases hb with rfl | rfl <;> decide

/-- The snapshot that was made by hand is the newest, and the Job evicts it. -/
theorem newest_evicted : ¬ ∀ (job : DrJob) (objects : List Text), objects.Nodup → job.Written objects →
    ∀ policy now, WithinRule job objects policy now := by
  intro hall
  have hwritten : (etcdJob "c1".toList).Written (snapshotsOf [scheduled, byHand]) := by
    apply snapshots_written
    intro name hname
    rcases List.mem_cons.mp hname with rfl | hname
    · exact scheduled_written
    · rw [List.mem_singleton.mp hname]
      exact byHand_written
  have hnodup : (snapshotsOf [scheduled, byHand]).Nodup := by decide
  obtain ⟨hlike, -⟩ := (prune_within_rule_iff _ _ hnodup hwritten).mp (hall _ _ hnodup hwritten)
  have hcopies : copiesOf (etcdJob "c1".toList).spec (snapshotsOf [scheduled, byHand]) =
      [⟨1792112401000, "etcd/c1/".toList ++ scheduled⟩,
        ⟨1792116003000, "etcd/c1/".toList ++ byHand⟩] := by rfl
  have hnewer := hlike _ (hcopies ▸ List.mem_cons_self) _
    (hcopies ▸ List.mem_cons_of_mem _ (List.mem_singleton_self _)) (by decide)
  exact absurd hnewer (by decide)

end Insula.BackupSchedules
