import Insula.HostMigrationRuns
import Insula.PaddedOrder
import Insula.Paths
import Insula.UpgradeChain

/-!
# The order of catalog versions

`compareVersions` compares the segments of two versions as numbers where both are, and by the order
of the locale elsewhere. It is an order on the versions whose other segments come before all
numbers.
-/

namespace Insula.Deployments

open Std PaddedOrder
open Insula.Versions (Text transCmp_comap)
open Javascript (digits number toDouble)
open HostMigrations (Collation)

def numberOf (segment : Text) : Option ℕ :=
  if digits segment then toDouble (number segment) else none

def strip : Text → Text
  | 'v' :: rest => rest
  | 'V' :: rest => rest
  | v => v

def segments (v : Text) : List Text := (strip v).splitOn '.'

variable (c : Collation) {a t b v : Text}

/-- A missing segment counts as `0`, and comes after one that is no number. -/
def compareSegment (a b : Option Text) : Ordering :=
  match numberOf (a.getD ['0']), numberOf (b.getD ['0']) with
  | some m, some n => compare m n
  | _, _ =>
    match a, b with
    | none, _ => .gt
    | some _, none => .lt
    | some a, some b => c.localeCompare a b

def compareVersions (a b : Text) : Ordering :=
  comparePadded (compareSegment c) none ((segments a).map some) ((segments b).map some)

def newest (versions : List CatalogVersion) : Option CatalogVersion :=
  (versions.insertionSort fun a b =>
    (compareVersions c b.version.toList a.version.toList).isLE = true).head?

def isCandidate (lockMode : LockMode) (installed : Option String) (v : CatalogVersion) : Bool :=
  some v.version ≠ installed &&
    match installed with
    | none => true
    | some installed =>
      installed = "" ||
        ((compareVersions c v.version.toList installed.toList).isGT &&
          (lockMode = .open || (v.upgradeFrom.getD []).contains installed))

def directCandidates (lockMode : LockMode) (installed : Option String)
    (versions : List CatalogVersion) : List CatalogVersion :=
  versions.filter (isCandidate c lockMode installed)

def autoUpgradeTarget (lockMode : LockMode) (installed : Option String)
    (versions : List CatalogVersion) : Option CatalogVersion :=
  if lockMode = .strict then none else newest c (directCandidates c lockMode installed versions)

/-! ## What an order of versions has to be -/

/-- The one picked of the candidates: no candidate exceeds it, every order of the list gives an
equal version, and the same text unless there is another text for it. -/
def PicksNewest (pick : List CatalogVersion → Option CatalogVersion)
    (candidates : List CatalogVersion → List CatalogVersion) (versions : List CatalogVersion) : Prop :=
  ∀ v ∈ pick versions, v ∈ candidates versions ∧
    (∀ w ∈ candidates versions, compareVersions c w.version.toList v.version.toList ≠ .gt) ∧
    (∀ versions', versions'.Perm versions → ∃ v' ∈ pick versions',
      compareVersions c v'.version.toList v.version.toList = .eq) ∧
    ((∀ versions', versions'.Perm versions → ∀ v' ∈ pick versions', v'.version = v.version) ↔
      ∀ w ∈ candidates versions,
        compareVersions c w.version.toList v.version.toList = .eq → w.version = v.version)

def Release (v : Text) : Prop := ∀ segment ∈ segments v, (numberOf segment).isSome

structure OrderLaws (S : Set Text) : Prop where
  swap : ∀ a ∈ S, ∀ b ∈ S, compareVersions c b a = (compareVersions c a b).swap
  trans : ∀ a ∈ S, ∀ b ∈ S, ∀ d ∈ S, (compareVersions c a b).isLE → (compareVersions c b d).isLE →
    (compareVersions c a d).isLE
  leadingV : ∀ a ∈ S, ∀ b ∈ S, ∀ v ∈ ['v', 'V'], a.head? ∉ [some 'v', some 'V'] →
    compareVersions c (v :: a) b = compareVersions c a b
  prerelease : ∀ v ∈ S, Release v → ∀ text, v ++ '-' :: text ∈ S →
    compareVersions c (v ++ '-' :: text) v = .lt
  listing : ∀ versions : List CatalogVersion, (∀ v ∈ versions, v.version.toList ∈ S) →
    PicksNewest c (newest c) id versions
  autoUpgrade : ∀ versions : List CatalogVersion, (∀ v ∈ versions, v.version.toList ∈ S) →
    ∀ lockMode installed, PicksNewest c (autoUpgradeTarget c lockMode installed)
      (directCandidates c lockMode installed) versions

def PlainSegment (t : Text) : Prop :=
  (numberOf t).isSome ∨ ∀ n, (numberOf n).isSome → c.localeCompare t n = .lt

def versionsOver (A : Set Text) : Set Text := {v | ∀ segment ∈ segments v, segment ∈ A}

/-- Digits and the hyphen are not ignored by the locale's order: a number with a zero before it is
another text, and a text comes before its continuation with a hyphen. -/
structure Usual : Prop where
  zero : ∀ n, digits n → c.localeCompare n ('0' :: n) ≠ .eq
  hyphen : ∀ s t, c.localeCompare s (s ++ '-' :: t) = .lt

/-! ## The order -/

theorem numberOf_zero : numberOf ['0'] = some 0 := by decide +kernel

section Segments

variable {a b : Option Text} {s t : Text} {m n : ℕ}

theorem compareSegment_numbers (ha : numberOf (a.getD ['0']) = some m)
    (hb : numberOf (b.getD ['0']) = some n) : compareSegment c a b = compare m n := by
  unfold compareSegment
  rw [ha, hb]

theorem compareSegment_texts (h : numberOf s = none ∨ numberOf t = none) :
    compareSegment c (some s) (some t) = c.localeCompare s t := by
  unfold compareSegment
  rw [Option.getD_some, Option.getD_some]
  rcases h with hs | ht
  · rw [hs]
  · rw [ht]
    cases numberOf s with
    | none => rfl
    | some m => rfl

theorem compareSegment_missing_text (ht : numberOf t = none) :
    compareSegment c none (some t) = .gt := by
  unfold compareSegment
  rw [Option.getD_some, Option.getD_none, numberOf_zero, ht]

theorem compareSegment_text_missing (hs : numberOf s = none) :
    compareSegment c (some s) none = .lt := by
  unfold compareSegment
  rw [Option.getD_some, hs]

end Segments

theorem compareSegment_swap (a b : Option Text) :
    compareSegment c a b = (compareSegment c b a).swap := by
  have hlocale := c.trans
  cases ha : numberOf (a.getD ['0']) with
  | some m =>
    cases hb : numberOf (b.getD ['0']) with
    | some n =>
      rw [compareSegment_numbers c ha hb, compareSegment_numbers c hb ha]
      exact OrientedCmp.eq_swap
    | none =>
      cases b with
      | none => rw [Option.getD_none, numberOf_zero] at hb; cases hb
      | some t =>
        rw [Option.getD_some] at hb
        cases a with
        | none =>
          rw [compareSegment_missing_text c hb, compareSegment_text_missing c hb]
          rfl
        | some s =>
          rw [compareSegment_texts c (.inr hb), compareSegment_texts c (.inl hb)]
          exact OrientedCmp.eq_swap
  | none =>
    cases a with
    | none => rw [Option.getD_none, numberOf_zero] at ha; cases ha
    | some s =>
      rw [Option.getD_some] at ha
      cases b with
      | none =>
        rw [compareSegment_missing_text c ha, compareSegment_text_missing c ha]
        rfl
      | some t =>
        rw [compareSegment_texts c (.inl ha), compareSegment_texts c (.inr ha)]
        exact OrientedCmp.eq_swap

instance : OrientedCmp (compareSegment c) where
  eq_swap {a b} := compareSegment_swap c a b

theorem compareVersions_swap (a b : Text) :
    compareVersions c b a = (compareVersions c a b).swap := by
  unfold compareVersions
  exact OrientedCmp.eq_swap

theorem strip_eq_self (ha : a.head? ∉ [some 'v', some 'V']) : strip a = a := by
  unfold strip
  split
  · exact absurd (List.mem_cons_self) ha
  · exact absurd (List.mem_cons_of_mem _ List.mem_cons_self) ha
  · rfl

theorem segments_cons_v {v : Char} (hv : v ∈ ['v', 'V']) (ha : a.head? ∉ [some 'v', some 'V']) :
    segments (v :: a) = segments a := by
  have hstrip : strip (v :: a) = a := by
    rcases List.mem_cons.mp hv with rfl | hv
    · rfl
    · cases List.mem_singleton.mp hv
      rfl
  rw [segments, segments, hstrip, strip_eq_self ha]

def segmentKey : Option Text → ℕ × Text
  | none => (1, [])
  | some t =>
    match numberOf t with
    | some n => (n + 1, [])
    | none => (0, t)

def compareKeys (x y : ℕ × Text) : Ordering :=
  (compare x.1 y.1).then (c.localeCompare x.2 y.2)

instance : TransCmp (compareKeys c) := by
  have := c.trans
  have := transCmp_comap (Prod.snd : ℕ × Text → Text) c.localeCompare
  exact inferInstanceAs (TransCmp (compareLex (compareOn Prod.fst)
    fun x y : ℕ × Text => c.localeCompare x.2 y.2))

variable {c}

theorem compareKeys_numbers (m n : ℕ) : compareKeys c (m + 1, []) (n + 1, []) = compare m n := by
  have hlocale := c.trans
  have hself : c.localeCompare [] [] = .eq := ReflCmp.compare_self
  have hsucc : compare (m + 1) (n + 1) = compare m n := by
    simp only [Nat.compare_eq_ite_lt]
    simp
  rw [compareKeys, hself, hsucc]
  cases compare m n <;> rfl

theorem segmentKey_number {x : Option Text} {n : ℕ} (h : numberOf (x.getD ['0']) = some n) :
    segmentKey x = (n + 1, []) := by
  cases x with
  | none =>
    rw [Option.getD_none, numberOf_zero] at h
    cases h
    rfl
  | some t =>
    rw [Option.getD_some] at h
    rw [segmentKey, h]

theorem PlainSegment.low {s : Text} {n : ℕ} (h : PlainSegment c t) (ht : numberOf t = none)
    (hs : numberOf s = some n) : c.localeCompare t s = .lt := by
  rcases h with hnumber | hlow
  · rw [ht] at hnumber
    cases hnumber
  · exact hlow s (by rw [hs]; rfl)

theorem compareSegment_text (x : Text) (hx : numberOf x = none) (hplain : PlainSegment c x)
    {y : Option Text} (hy : ∀ t ∈ y, PlainSegment c t) :
    compareSegment c (some x) y = compareKeys c (segmentKey (some x)) (segmentKey y) := by
  have hkey : segmentKey (some x) = (0, x) := by rw [segmentKey, hx]
  cases hn : numberOf (y.getD ['0']) with
  | none =>
    cases y with
    | none => rw [Option.getD_none, numberOf_zero] at hn; cases hn
    | some t =>
      rw [Option.getD_some] at hn
      rw [compareSegment_texts c (.inl hx), hkey, segmentKey, hn]
      rfl
  | some n =>
    rw [hkey, segmentKey_number hn]
    cases y with
    | none =>
      rw [compareSegment_text_missing c hx, compareKeys, Nat.compare_eq_lt.mpr n.succ_pos]
      rfl
    | some t =>
      rw [Option.getD_some] at hn
      rw [compareSegment_texts c (.inl hx), compareKeys, Nat.compare_eq_lt.mpr n.succ_pos,
        hplain.low hx hn]
      rfl

theorem compareSegment_eq {x y : Option Text} (hx : ∀ t ∈ x, PlainSegment c t)
    (hy : ∀ t ∈ y, PlainSegment c t) :
    compareSegment c x y = compareKeys c (segmentKey x) (segmentKey y) := by
  cases hm : numberOf (x.getD ['0']) with
  | none =>
    cases x with
    | none => rw [Option.getD_none, numberOf_zero] at hm; cases hm
    | some s => exact compareSegment_text s hm (hx s rfl) hy
  | some m =>
    cases hn : numberOf (y.getD ['0']) with
    | none =>
      cases y with
      | none => rw [Option.getD_none, numberOf_zero] at hn; cases hn
      | some t =>
        rw [compareSegment_swap, compareSegment_text t hn (hy t rfl) hx]
        exact OrientedCmp.eq_swap.symm
    | some n =>
      rw [compareSegment_numbers c hm hn, segmentKey_number hm, segmentKey_number hn,
        compareKeys_numbers]

theorem compareVersions_eq (ha : ∀ t ∈ segments a, PlainSegment c t)
    (hb : ∀ t ∈ segments b, PlainSegment c t) :
    compareVersions c a b = comparePadded (compareKeys c) (1, [])
      ((segments a).map fun t => segmentKey (some t))
      ((segments b).map fun t => segmentKey (some t)) := by
  have hmem : ∀ l : List Text, (∀ t ∈ l, PlainSegment c t) →
      ∀ x ∈ l.map some, ∀ t ∈ x, PlainSegment c t := by
    intro l hl x hx t ht
    obtain ⟨s, hs, rfl⟩ := List.mem_map.mp hx
    cases ht
    exact hl _ hs
  have hmap := comparePadded_map (z := none) segmentKey (p := fun x => ∀ t ∈ x, PlainSegment c t)
    (by simp)
    (fun _ _ => compareSegment_eq) (hmem _ ha) (hmem _ hb)
  rw [List.map_map, List.map_map] at hmap
  exact hmap

theorem isLE_trans_of_plain {d : Text} (ha : ∀ t ∈ segments a, PlainSegment c t)
    (hb : ∀ t ∈ segments b, PlainSegment c t) (hd : ∀ t ∈ segments d, PlainSegment c t)
    (hab : (compareVersions c a b).isLE) (hbd : (compareVersions c b d).isLE) :
    (compareVersions c a d).isLE := by
  rw [compareVersions_eq ha hb] at hab
  rw [compareVersions_eq hb hd] at hbd
  rw [compareVersions_eq ha hd]
  exact TransCmp.isLE_trans hab hbd

/-! ## Prereleases -/

theorem splitOn_append (x : Char) (a : Text) : ∃ front last, a.splitOn x = front ++ [last] ∧
    ∀ b part rest, b.splitOn x = part :: rest →
      (a ++ b).splitOn x = front ++ (last ++ part) :: rest := by
  induction a with
  | nil =>
    refine ⟨[], [], List.splitOn_nil x, ?_⟩
    intro b part rest hb
    rw [List.nil_append, hb]
    rfl
  | cons d a ih =>
    obtain ⟨front, last, ha, hgo⟩ := ih
    by_cases hd : (d == x) = true
    · refine ⟨[] :: front, last, ?_, ?_⟩
      · rw [List.splitOn_cons_eq_if_modifyHead, if_pos hd, ha]
        rfl
      · intro b part rest hb
        rw [List.cons_append, List.splitOn_cons_eq_if_modifyHead, if_pos hd, hgo b part rest hb]
        rfl
    · cases front with
      | nil =>
        refine ⟨[], d :: last, ?_, ?_⟩
        · rw [List.splitOn_cons_eq_if_modifyHead, if_neg hd, ha]
          rfl
        · intro b part rest hb
          rw [List.cons_append, List.splitOn_cons_eq_if_modifyHead, if_neg hd,
            hgo b part rest hb]
          rfl
      | cons first front =>
        refine ⟨(d :: first) :: front, last, ?_, ?_⟩
        · rw [List.splitOn_cons_eq_if_modifyHead, if_neg hd, ha]
          rfl
        · intro b part rest hb
          rw [List.cons_append, List.splitOn_cons_eq_if_modifyHead, if_neg hd,
            hgo b part rest hb]
          rfl

theorem digits_of_numberOf (h : (numberOf t).isSome = true) : digits t = true := by
  unfold numberOf at h
  by_cases hdigits : digits t = true
  · exact hdigits
  · rw [if_neg hdigits] at h
    cases h

theorem numberOf_hyphen (s t : Text) : numberOf (s ++ '-' :: t) = none := by
  have hdigits : digits (s ++ '-' :: t) = false := by simp [digits]
  unfold numberOf
  rw [hdigits]
  rfl

theorem strip_append (ha : a ≠ []) (b : Text) : strip (a ++ b) = strip a ++ b := by
  cases a with
  | nil => exact absurd rfl ha
  | cons v a =>
    by_cases hv : v = 'v' ∨ v = 'V'
    · rcases hv with rfl | rfl <;> rfl
    · have hhead : ∀ l : Text, (v :: l).head? ∉ [some 'v', some 'V'] := by
        intro l
        rw [not_or] at hv
        simp [hv.1, hv.2]
      rw [List.cons_append, strip_eq_self (hhead _), strip_eq_self (hhead _), List.cons_append]

theorem Release.ne_nil (h : Release v) : v ≠ [] := by
  rintro rfl
  exact absurd (h [] (by decide)) (by decide)

theorem Release.segments_append (h : Release v) (text : Text) :
    ∃ front last part rest, segments v = front ++ [last] ∧
      segments (v ++ '-' :: text) = front ++ (last ++ '-' :: part) :: rest := by
  obtain ⟨front, last, hv, hgo⟩ := splitOn_append '.' (strip v)
  obtain ⟨part, rest, htext⟩ := List.exists_cons_of_ne_nil (List.splitOn_ne_nil '.' text)
  refine ⟨front, last, part, rest, hv, ?_⟩
  rw [segments, strip_append h.ne_nil]
  apply hgo _ ('-' :: part) rest
  rw [List.splitOn_cons_eq_if_modifyHead, if_neg (by decide), htext]
  rfl

theorem compareVersions_prerelease (hc : Usual c) (h : Release v) (text : Text) :
    compareVersions c (v ++ '-' :: text) v = .gt := by
  have hlocale := c.trans
  obtain ⟨front, last, part, rest, hv, hpre⟩ := h.segments_append text
  unfold compareVersions
  rw [hv, hpre, List.map_append, List.map_append, comparePadded_append, List.map_cons,
    comparePadded, List.map_singleton, List.headD_cons,
    compareSegment_texts c (.inl (numberOf_hyphen last part)),
    OrientedCmp.gt_of_lt (hc.hyphen last part)]
  rfl

theorem not_plain_of_prerelease (hc : Usual c) {text : Text} (h : Release v)
    (hplain : ∀ t ∈ segments (v ++ '-' :: text), PlainSegment c t) : False := by
  have hlocale := c.trans
  obtain ⟨front, last, part, rest, hv, hpre⟩ := h.segments_append text
  have hlast : (numberOf last).isSome = true := h last (by simp [hv])
  obtain ⟨n, hn⟩ := Option.isSome_iff_exists.mp hlast
  have hlow := (hplain (last ++ '-' :: part) (by simp [hpre])).low (numberOf_hyphen last part) hn
  rw [OrientedCmp.gt_of_lt (hc.hyphen last part)] at hlow
  cases hlow

/-! ## The newest version -/

theorem eq_of_isLE_of_isLE (hab : (compareVersions c a b).isLE)
    (hba : (compareVersions c b a).isLE) : compareVersions c a b = .eq := by
  rw [compareVersions_swap] at hba
  cases h : compareVersions c a b with
  | eq => rfl
  | lt => rw [h] at hba; cases hba
  | gt => rw [h] at hab; cases hab

section Newest

variable {versions : List CatalogVersion}
  (hplain : ∀ v ∈ versions, ∀ t ∈ segments v.version.toList, PlainSegment c t)
include hplain

theorem orderOn_of_plain : OrderOn (fun a b : CatalogVersion =>
      (compareVersions c b.version.toList a.version.toList).isLE = true) versions where
  total a _ b _ := by
    rw [compareVersions_swap c b.version.toList]
    cases compareVersions c b.version.toList a.version.toList <;> simp
  trans a ha b hb d hd hab hbd :=
    isLE_trans_of_plain (hplain d hd) (hplain b hb) (hplain a ha) hbd hab

theorem picksNewest_filter (keep : CatalogVersion → Bool) :
    PicksNewest c (fun l => newest c (l.filter keep)) (List.filter keep) versions := by
  have hfilter : ∀ v ∈ versions.filter keep, ∀ t ∈ segments v.version.toList, PlainSegment c t :=
    fun v hv => hplain v (List.mem_of_mem_filter hv)
  have horder := orderOn_of_plain hfilter
  intro v hv
  obtain ⟨hmem, hleast⟩ := head_insertionSort horder hv
  have hequal : ∀ versions' : List CatalogVersion, versions'.Perm versions →
      ∀ v' ∈ newest c (versions'.filter keep), v' ∈ versions.filter keep ∧
        compareVersions c v'.version.toList v.version.toList = .eq := by
    intro versions' hperm v' hv'
    have hperm' := hperm.filter keep
    obtain ⟨hmem', hleast'⟩ := head_insertionSort (horder.of_perm hperm') hv'
    exact ⟨hperm'.subset hmem', eq_of_isLE_of_isLE (hleast v' (hperm'.subset hmem'))
      (hleast' v (hperm'.symm.subset hmem))⟩
  refine ⟨hmem, ?_, ?_, ?_, ?_⟩
  · intro w hw hgt
    have hle := hleast w hw
    rw [hgt] at hle
    cases hle
  · intro versions' hperm
    have hne : versions'.filter keep ≠ [] :=
      List.ne_nil_of_mem ((hperm.filter keep).symm.subset hmem)
    obtain ⟨v', hv'⟩ := isSome_head_insertionSort (r := fun a b : CatalogVersion =>
      (compareVersions c b.version.toList a.version.toList).isLE = true) hne
    exact ⟨v', hv', (hequal versions' hperm v' hv').2⟩
  · -- The list with an equal version put first: it is the one that is picked.
    intro hsame w hw heq
    obtain ⟨hw', hkeep⟩ := List.mem_filter.mp hw
    apply hsame (w :: versions.erase w) (List.perm_cons_erase hw').symm w
    have hfirst : (w :: versions.erase w).filter keep = w :: (versions.erase w).filter keep := by
      rw [List.filter_cons, if_pos hkeep]
    show w ∈ newest c ((w :: versions.erase w).filter keep)
    rw [hfirst]
    apply head_insertionSort_cons
    intro b hb
    have hb' : b ∈ versions.filter keep := List.mem_filter.mpr
      ⟨List.mem_of_mem_erase (List.mem_of_mem_filter hb), (List.mem_filter.mp hb).2⟩
    apply isLE_trans_of_plain (hfilter b hb') (hfilter v hmem) (hfilter w hw) (hleast b hb')
    rw [compareVersions_swap, heq]
    rfl
  · intro hsame versions' hperm v' hv'
    obtain ⟨hmem', heq⟩ := hequal versions' hperm v' hv'
    exact hsame v' hmem' heq

end Newest

/-! ## The versions that are ordered -/

theorem orderLaws_of_plain (hc : Usual c) {S : Set Text}
    (h : ∀ v ∈ S, ∀ t ∈ segments v, PlainSegment c t) : OrderLaws c S where
  swap a _ b _ := compareVersions_swap c a b
  trans a ha b hb d hd := isLE_trans_of_plain (h a ha) (h b hb) (h d hd)
  leadingV a _ b _ v hv ha := by
    unfold compareVersions
    rw [segments_cons_v hv ha]
  prerelease v _ hrelease text htext := (not_plain_of_prerelease hc hrelease (h _ htext)).elim
  listing versions hversions := by
    have hpick := picksNewest_filter (c := c) (fun v hv => h _ (hversions v hv)) fun _ => true
    have hnewest : (fun l : List CatalogVersion => newest c (l.filter fun _ => true)) = newest c := by
      funext l
      rw [List.filter_true]
    have hid : List.filter (fun _ : CatalogVersion => true) = id := by
      funext l
      exact List.filter_true l
    rwa [hnewest, hid] at hpick
  autoUpgrade versions hversions lockMode installed := by
    have hpick := picksNewest_filter (c := c) (fun v hv => h _ (hversions v hv))
      (isCandidate c lockMode installed)
    by_cases hstrict : lockMode = .strict
    · intro v hv
      unfold autoUpgradeTarget at hv
      rw [if_pos hstrict] at hv
      cases hv
    · have htarget : autoUpgradeTarget c lockMode installed =
          fun l => newest c (l.filter (isCandidate c lockMode installed)) := by
        funext l
        rw [autoUpgradeTarget, if_neg hstrict, directCandidates]
      rw [htarget]
      exact hpick

theorem segments_zero_dot (h : '.' ∉ t) : segments ('0' :: '.' :: t) = [['0'], t] := by
  have hsplit := List.splitOn_append_cons_self (a := '.') ['0'] t
  rw [List.splitOn_eq_singleton h] at hsplit
  exact hsplit

theorem compareVersions_zero_dot {s : Text} (hs : '.' ∉ s) (ht : '.' ∉ t) :
    compareVersions c ('0' :: '.' :: s) ('0' :: '.' :: t) = compareSegment c (some s) (some t) := by
  unfold compareVersions
  rw [segments_zero_dot hs, segments_zero_dot ht]
  exact (comparePadded_append [some ['0']] [some s] [some t]).trans Ordering.then_eq

theorem compareVersions_zero (ht : '.' ∉ t) :
    compareVersions c ['0'] ('0' :: '.' :: t) = compareSegment c none (some t) := by
  have hzero : segments ['0'] = [['0']] := List.splitOn_eq_singleton (by decide)
  unfold compareVersions
  rw [segments_zero_dot ht, hzero]
  calc comparePadded (compareSegment c) none ([['0']].map some) ([['0'], t].map some)
      = comparePadded (compareSegment c) none [] [some t] :=
        comparePadded_append [some ['0']] [] [some t]
    _ = (compareSegment c none (some t)).then .eq := by
        rw [comparePadded, compareEnded, compareEnded]
    _ = compareSegment c none (some t) := Ordering.then_eq

theorem numberOf_zero_cons {n : Text} (h : digits n = true) : numberOf ('0' :: n) = numberOf n := by
  have hdigits : digits ('0' :: n) = true := by
    simp only [digits, Bool.and_eq_true, List.all_cons] at h ⊢
    exact ⟨by simp, by decide, h.2⟩
  have hnumber : number ('0' :: n) = number n := rfl
  unfold numberOf
  rw [hdigits, h, hnumber]

theorem notMem_of_digits {n : Text} (h : digits n = true) : '.' ∉ n := by
  intro hdot
  simp only [digits, Bool.and_eq_true, List.all_eq_true] at h
  exact absurd (h.2 '.' hdot) (by decide)

section Vocabulary

variable {A : Set Text} {n t : Text} {m : ℕ}

theorem mem_versionsOver_zero_dot (hzero : ['0'] ∈ A) (hdot : '.' ∉ t) (ht : t ∈ A) :
    '0' :: '.' :: t ∈ versionsOver A := by
  intro segment hsegment
  rw [segments_zero_dot hdot] at hsegment
  rcases List.mem_cons.mp hsegment with rfl | hsegment
  · exact hzero
  · cases List.mem_singleton.mp hsegment
    exact ht

/-- A text after a number: `0` counts as `0.0` and is at most `0.n`, which comes before `0.t`, which
comes before `0`. -/
theorem not_trans_of_lt (hn : numberOf n = some m) (ht : numberOf t = none) (hdot : '.' ∉ t)
    (hlt : c.localeCompare n t = .lt) (htrans : (compareVersions c ['0'] ('0' :: '.' :: n)).isLE →
      (compareVersions c ('0' :: '.' :: n) ('0' :: '.' :: t)).isLE →
      (compareVersions c ['0'] ('0' :: '.' :: t)).isLE) : False := by
  have hndot := notMem_of_digits (digits_of_numberOf (by rw [hn]; rfl))
  rw [compareVersions_zero hndot, compareVersions_zero_dot hndot hdot, compareVersions_zero hdot,
    compareSegment_numbers c (a := none) (b := some n) numberOf_zero hn,
    compareSegment_texts c (.inr ht), compareSegment_missing_text c ht, hlt] at htrans
  have hle : (compare 0 m).isLE = true := Nat.isLE_compare.mpr m.zero_le
  exact absurd (htrans hle rfl) (by decide)

theorem plain_of_orderLaws (hc : Usual c) (hA : ∀ n, (numberOf n).isSome → n ∈ A)
    (h : OrderLaws c (versionsOver A)) (ht : t ∈ A) (hdot : '.' ∉ t) : PlainSegment c t := by
  have hlocale := c.trans
  have hzero : ['0'] ∈ A := hA _ (by rw [numberOf_zero]; rfl)
  have hversion : ['0'] ∈ versionsOver A := by
    intro segment hsegment
    rw [show segments ['0'] = [['0']] from List.splitOn_eq_singleton (by decide)] at hsegment
    cases List.mem_singleton.mp hsegment
    exact hzero
  have hover : ∀ n, (numberOf n).isSome = true → '0' :: '.' :: n ∈ versionsOver A := fun n hn =>
    mem_versionsOver_zero_dot hzero (notMem_of_digits (digits_of_numberOf hn)) (hA n hn)
  have htover := mem_versionsOver_zero_dot hzero hdot ht
  by_cases hnumber : (numberOf t).isSome = true
  · exact .inl hnumber
  · have hnone : numberOf t = none := Option.not_isSome_iff_eq_none.mp hnumber
    refine .inr fun n hn => ?_
    obtain ⟨m, hm⟩ := Option.isSome_iff_exists.mp hn
    have hlt : ∀ k, numberOf k = some m → c.localeCompare k t = .lt → False := by
      intro k hk hkt
      have hkover := hover k (by rw [hk]; rfl)
      exact not_trans_of_lt hk hnone hdot hkt (h.trans _ hversion _ hkover _ htover)
    cases hcompare : c.localeCompare t n with
    | lt => rfl
    | gt => exact (hlt n hm (OrientedCmp.lt_of_gt hcompare)).elim
    | eq =>
      -- The locale has the text for the number `n`, and then not for the same number `0n`.
      have hdigits := digits_of_numberOf hn
      have hm' : numberOf ('0' :: n) = some m := by rw [numberOf_zero_cons hdigits, hm]
      have hndot := notMem_of_digits hdigits
      have hndot' : '.' ∉ '0' :: n := by simp [hndot]
      have hsame : c.localeCompare ('0' :: n) t = c.localeCompare ('0' :: n) n :=
        TransCmp.congr_right hcompare
      cases hother : c.localeCompare ('0' :: n) n with
      | eq => exact absurd (OrientedCmp.eq_symm hother) (hc.zero n hdigits)
      | lt => exact (hlt ('0' :: n) hm' (hsame.trans hother)).elim
      | gt =>
        have htrans := h.trans _ (hover ('0' :: n) (by rw [hm']; rfl)) _ (hover n hn) _ htover
        rw [compareVersions_zero_dot hndot' hndot, compareVersions_zero_dot hndot hdot,
          compareVersions_zero_dot hndot' hdot,
          compareSegment_numbers c (a := some ('0' :: n)) (b := some n) hm' hm,
          compareSegment_texts c (.inr hnone), compareSegment_texts c (.inr hnone), hsame,
          hother, OrientedCmp.eq_symm hcompare] at htrans
        have hle : (compare m m).isLE = true := Nat.isLE_compare.mpr le_rfl
        exact absurd (htrans hle rfl) (by decide)

end Vocabulary

/-- The versions over a vocabulary are ordered when its words are numbers or come before all
numbers, and over one that has the numbers only then. A prerelease never comes before its
release. -/
theorem version_order_iff (hc : Usual c) (A : Set Text) :
    ((∀ t ∈ A, '.' ∉ t → PlainSegment c t) → OrderLaws c (versionsOver A)) ∧
    ((∀ n, (numberOf n).isSome → n ∈ A) →
      (OrderLaws c (versionsOver A) ↔ ∀ t ∈ A, '.' ∉ t → PlainSegment c t)) ∧
    ∀ v text, Release v → compareVersions c (v ++ '-' :: text) v = .gt := by
  have hlaws : (∀ t ∈ A, '.' ∉ t → PlainSegment c t) → OrderLaws c (versionsOver A) := by
    intro h
    refine orderLaws_of_plain hc fun v hv t ht => h t (hv t ht) ?_
    exact Paths.notMem_of_mem_splitOn _ t ht
  refine ⟨hlaws, fun hA => ⟨?_, hlaws⟩, fun v text hv => compareVersions_prerelease hc hv text⟩
  intro h t ht hdot
  exact plain_of_orderLaws hc hA h ht hdot

open HostMigrations (asciiCollation)

theorem usual_asciiCollation : Usual asciiCollation where
  zero n _ h := by
    have heq : n.map Char.toNat = ('0' :: n).map Char.toNat := LawfulEqCmp.eq_of_compare h
    exact absurd (congrArg List.length heq) (by simp)
  hyphen s t := by
    show compare (s.map Char.toNat) ((s ++ '-' :: t).map Char.toNat) = .lt
    induction s with
    | nil => rfl
    | cons d s ih =>
      rw [List.cons_append, List.map_cons, List.map_cons, List.compare_cons_cons, ih]
      simp

theorem releases_ordered : OrderLaws asciiCollation (versionsOver {t | (numberOf t).isSome}) :=
  ((version_order_iff usual_asciiCollation _).2.1 fun _ hn => hn).mpr fun _ ht _ => .inl ht

/-- A release candidate comes after its release, and three versions exceed each other in a
circle. -/
theorem candidate_after_release :
    compareVersions asciiCollation "1.0.0-rc1".toList "1.0.0".toList = .gt ∧
    compareVersions asciiCollation "2".toList "10".toList = .lt ∧
    compareVersions asciiCollation "10".toList "1a".toList = .lt ∧
    compareVersions asciiCollation "1a".toList "2".toList = .lt := by
  decide +kernel

end Insula.Deployments
