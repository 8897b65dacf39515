import Insula.Versions

/-!
# The newest release

The poller reads the numbers of a version as doubles, compares versions by them, and picks the
newest of the releases that are eligible. What it takes the precedence of versions to be is that of
their exact numbers wherever no number is rounded onto another one.
-/

namespace Insula.ReleaseSelection

open Std (TransCmp ReflCmp OrientedCmp)
open Javascript (digits number toDouble toDouble_eq_some compareDoubles_some compareDifference_some
  compareNumbers compareNumberDifference)
open Versions (Text ParsedVersion stripV parseVersion isValidVersion compareVersions)

def precedence : Text → Text → Ordering := Versions.compareTexts compare compare

instance : TransCmp precedence := inferInstanceAs (TransCmp (Versions.compareTexts compare compare))

/-! ## Selection -/

structure GithubRelease where
  tagName : Text
  draft : Bool
  prerelease : Bool
deriving DecidableEq

structure SelectOptions where
  includePrereleases : Bool

/-- The tag without its `v`. -/
def GithubRelease.tag (r : GithubRelease) : Text := stripV r.tagName

def isPrerelease (raw : Text) : Bool := (parseVersion raw).any fun p => p.prerelease ≠ []

def eligible (opts : SelectOptions) (r : GithubRelease) : Bool :=
  !r.draft && isValidVersion r.tag && (opts.includePrereleases || !(r.prerelease || isPrerelease r.tag))

def newer (best cur : GithubRelease) : GithubRelease :=
  if compareVersions cur.tag best.tag = .gt then cur else best

def selectRelease (releases : List GithubRelease) (opts : SelectOptions) : Option GithubRelease :=
  match releases.filter (eligible opts) with
  | [] => none
  | r :: rest => some (rest.foldl newer r)

/-! ## The fold to a greatest element -/

section Greatest

variable {α : Type} (cmp : α → α → Ordering)

def greater (best cur : α) : α := if cmp cur best = .gt then cur else best

theorem foldl_greater_mem (a : α) (l : List α) : l.foldl (greater cmp) a ∈ a :: l := by
  induction l generalizing a with
  | nil => exact List.mem_singleton_self a
  | cons b l ih =>
    have h := ih (greater cmp a b)
    have hhead : greater cmp a b = b ∨ greater cmp a b = a := by
      unfold greater
      exact ite_eq_or_eq _ _ _
    rw [List.foldl_cons]
    rcases List.mem_cons.mp h with heq | hmem
    · rw [heq]
      rcases hhead with hb | ha
      · simp [hb]
      · simp [ha]
    · simp [hmem]

variable [TransCmp cmp]

theorem isLE_greater (a b : α) : (cmp a (greater cmp a b)).isLE ∧ (cmp b (greater cmp a b)).isLE := by
  unfold greater
  split_ifs with h
  · rw [OrientedCmp.gt_iff_lt] at h
    simp [h, ReflCmp.compare_self]
  · refine ⟨by simp [ReflCmp.compare_self], ?_⟩
    cases hb : cmp b a <;> simp_all

theorem isLE_foldl_greater (a : α) (l : List α) :
    ∀ x ∈ a :: l, (cmp x (l.foldl (greater cmp) a)).isLE := by
  induction l generalizing a with
  | nil => simp [ReflCmp.compare_self]
  | cons b l ih =>
    intro x hx
    have hfold := ih (greater cmp a b)
    have hgreater := hfold _ List.mem_cons_self
    rw [List.foldl_cons]
    rcases List.mem_cons.mp hx with rfl | hx
    · exact TransCmp.isLE_trans (isLE_greater cmp x b).1 hgreater
    rcases List.mem_cons.mp hx with rfl | hx
    · exact TransCmp.isLE_trans (isLE_greater cmp a x).2 hgreater
    · exact hfold x (List.mem_cons_of_mem _ hx)

end Greatest

/-! ## Numbers that are told apart -/

/-- No number is rounded to infinity or onto another one. -/
def ToldApart (N : Set ℕ) : Prop := (∀ n ∈ N, (toDouble n).isSome = true) ∧ Set.InjOn toDouble N

variable {N : Set ℕ} {n : ℕ} {opts : SelectOptions} {releases : List GithubRelease}

theorem toldApart_of_lt (h : ∀ n ∈ N, n < 2 ^ 53) : ToldApart N := by
  have hdouble : ∀ n ∈ N, toDouble n = some n := fun n hn => Javascript.toDouble_of_lt (h n hn)
  refine ⟨fun n hn => by simp [hdouble n hn], fun m hm n hn heq => ?_⟩
  rwa [hdouble m hm, hdouble n hn, Option.some.injEq] at heq

theorem ToldApart.toDouble (h : ToldApart N) {m : ℕ} (hm : m ∈ N) (hn : n ∈ N) :
    ∃ x y, Javascript.toDouble m = some x ∧ Javascript.toDouble n = some y ∧
    compare x y = compare m n := by
  obtain ⟨x, hx⟩ := Option.isSome_iff_exists.mp (h.1 m hm)
  obtain ⟨y, hy⟩ := Option.isSome_iff_exists.mp (h.1 n hn)
  refine ⟨x, y, hx, hy, ?_⟩
  have hapart : m ≠ n → x ≠ y := by
    rintro hne rfl
    exact hne (h.2 hm hn (hx.trans hy.symm))
  have hmono := HalfEven.round_mono 52
  have hroundx := (toDouble_eq_some hx).1
  have hroundy := (toDouble_eq_some hy).1
  rcases Nat.lt_trichotomy m n with hlt | rfl | hgt
  · have hle : x ≤ y := hroundx ▸ hroundy ▸ hmono hlt.le
    rw [compare_lt_iff_lt.mpr hlt, compare_lt_iff_lt.mpr (lt_of_le_of_ne hle (hapart hlt.ne))]
  · obtain rfl : x = y := Option.some.inj (hx.symm.trans hy)
    simp
  · have hle : y ≤ x := hroundx ▸ hroundy ▸ hmono hgt.le
    rw [compare_gt_iff_gt.mpr hgt, compare_gt_iff_gt.mpr (lt_of_le_of_ne hle (hapart hgt.ne').symm)]

/-! ## Versions over a set of numbers -/

def Over (N : Set ℕ) (p : ParsedVersion) : Prop :=
  p.major ∈ N ∧ p.minor ∈ N ∧ p.patch ∈ N ∧ ∀ x ∈ p.prerelease, digits x = true → number x ∈ N

/-- A text that is read as a version with these numbers. -/
def VersionOver (N : Set ℕ) (text : Text) : Prop := ∃ p, parseVersion text = some p ∧ Over N p

section Agreement

variable {N : Set ℕ}

theorem compareNumbers_eq (h : ToldApart N) {m n : ℕ} (hm : m ∈ N) (hn : n ∈ N) :
    compareNumbers m n = compare m n := by
  obtain ⟨x, y, hx, hy, hcompare⟩ := h.toDouble hm hn
  rw [compareNumbers, hx, hy, compareDoubles_some, hcompare]

theorem compareNumberDifference_eq (h : ToldApart N) {m n : ℕ} (hm : m ∈ N) (hn : n ∈ N) :
    compareNumberDifference m n = compare m n := by
  obtain ⟨x, y, hx, hy, hcompare⟩ := h.toDouble hm hn
  rw [compareNumberDifference, hx, hy, compareDifference_some, hcompare]

theorem compareParsed_eq (h : ToldApart N) {p q : ParsedVersion} (hp : Over N p) (hq : Over N q) :
    Versions.compareParsed compareNumbers compareNumberDifference p q =
      Versions.compareParsed compare compare p q := by
  obtain ⟨hp₁, hp₂, hp₃, hp₄⟩ := hp
  obtain ⟨hq₁, hq₂, hq₃, hq₄⟩ := hq
  unfold Versions.compareParsed
  rw [compareNumbers_eq h hp₁ hq₁, compareNumbers_eq h hp₂ hq₂, compareNumbers_eq h hp₃ hq₃,
    Versions.comparePrerelease_congr fun x hx y hy hdx hdy =>
      compareNumberDifference_eq h (hp₄ x hx hdx) (hq₄ y hy hdy)]

theorem compareVersions_eq (h : ToldApart N) {a b : Text} (ha : VersionOver N a)
    (hb : VersionOver N b) :
    compareVersions a b = precedence a b := by
  obtain ⟨p, hp, hpN⟩ := ha
  obtain ⟨q, hq, hqN⟩ := hb
  unfold compareVersions precedence Versions.compareTexts
  rw [hp, hq]
  exact compareParsed_eq h hpN hqN

theorem foldl_newer_eq (h : ToldApart N) (r : GithubRelease) (l : List GithubRelease)
    (hall : ∀ x ∈ r :: l, VersionOver N x.tag) :
    l.foldl newer r = l.foldl (greater fun x y => precedence x.tag y.tag) r := by
  induction l generalizing r with
  | nil => simp only [List.foldl_nil]
  | cons x l ih =>
    have hstep : newer r x = greater (fun x y => precedence x.tag y.tag) r x := by
      unfold newer greater
      rw [compareVersions_eq h (hall x (by simp)) (hall r (by simp))]
    rw [List.foldl_cons, List.foldl_cons, ← hstep]
    refine ih _ fun y hy => ?_
    rcases List.mem_cons.mp hy with rfl | hy
    · unfold newer
      split_ifs
      · exact hall x (by simp)
      · exact hall r (by simp)
    · exact hall y (by simp [hy])

end Agreement

/-! ## What is asked of the order and of the selection -/

structure Ordered (N : Set ℕ) : Prop where
  refl : ∀ a, VersionOver N a → compareVersions a a = .eq
  swap : ∀ a b, VersionOver N a → VersionOver N b → compareVersions b a = (compareVersions a b).swap
  trans : ∀ a b d, VersionOver N a → VersionOver N b → VersionOver N d →
    (compareVersions a b).isLE → (compareVersions b d).isLE → (compareVersions a d).isLE
  precedence : ∀ a b, VersionOver N a → VersionOver N b →
    compareVersions a b = precedence a b

structure Selects (opts : SelectOptions) (releases : List GithubRelease) : Prop where
  none_iff : selectRelease releases opts = none ↔ ∀ r ∈ releases, eligible opts r = false
  greatest : ∀ best, selectRelease releases opts = some best →
    best ∈ releases ∧ eligible opts best = true ∧
      ∀ r ∈ releases, eligible opts r = true → (precedence r.tag best.tag).isLE
  anyOrder : ∀ releases', releases'.Perm releases →
    ∀ best best', selectRelease releases opts = some best →
    selectRelease releases' opts = some best' → precedence best.tag best'.tag = .eq

/-- Versions over these numbers are compared and selected by their precedence. -/
def ByPrecedence (N : Set ℕ) : Prop :=
  Ordered N ∧ ∀ opts releases, (∀ r ∈ releases, eligible opts r = true → VersionOver N r.tag) →
    Selects opts releases

theorem ToldApart.ordered (h : ToldApart N) : Ordered N where
  refl a ha := by
    rw [compareVersions_eq h ha ha]
    exact ReflCmp.compare_self
  swap a b ha hb := by
    rw [compareVersions_eq h hb ha, compareVersions_eq h ha hb]
    exact OrientedCmp.eq_swap
  trans a b d ha hb hd hab hbd := by
    rw [compareVersions_eq h ha hb] at hab
    rw [compareVersions_eq h hb hd] at hbd
    rw [compareVersions_eq h ha hd]
    exact TransCmp.isLE_trans hab hbd
  precedence _ _ := compareVersions_eq h

theorem selectRelease_eq_none_iff :
    selectRelease releases opts = none ↔ ∀ r ∈ releases, eligible opts r = false := by
  unfold selectRelease
  cases hfilter : releases.filter (eligible opts) with
  | nil => simpa [List.filter_eq_nil_iff] using hfilter
  | cons r rest =>
    have hr : r ∈ releases.filter (eligible opts) := hfilter ▸ List.mem_cons_self
    obtain ⟨hmem, helig⟩ := List.mem_filter.mp hr
    simp only [reduceCtorEq, false_iff, not_forall]
    exact ⟨r, hmem, by simp [helig]⟩

theorem ToldApart.greatest (h : ToldApart N)
    (hall : ∀ r ∈ releases, eligible opts r = true → VersionOver N r.tag) {best : GithubRelease}
    (hbest : selectRelease releases opts = some best) :
    best ∈ releases ∧ eligible opts best = true ∧
      ∀ r ∈ releases, eligible opts r = true → (precedence r.tag best.tag).isLE := by
  unfold selectRelease at hbest
  cases hfilter : releases.filter (eligible opts) with
  | nil => simp [hfilter] at hbest
  | cons r rest =>
    rw [hfilter, Option.some.injEq] at hbest
    have hmem : ∀ x, x ∈ r :: rest ↔ x ∈ releases ∧ eligible opts x = true := by
      intro x
      rw [← hfilter, List.mem_filter]
    have htrans := Versions.transCmp_comap GithubRelease.tag precedence
    rw [foldl_newer_eq h r rest fun x hx => hall x ((hmem x).mp hx).1 ((hmem x).mp hx).2] at hbest
    subst hbest
    obtain ⟨hbest, helig⟩ := (hmem _).mp (foldl_greater_mem _ r rest)
    refine ⟨hbest, helig, fun x hx hxe => ?_⟩
    exact isLE_foldl_greater (fun x y => precedence x.tag y.tag) r rest x
      ((hmem x).mpr ⟨hx, hxe⟩)

theorem ToldApart.selects (h : ToldApart N)
    (hall : ∀ r ∈ releases, eligible opts r = true → VersionOver N r.tag) :
    Selects opts releases where
  none_iff := selectRelease_eq_none_iff
  greatest _ := h.greatest hall
  anyOrder releases' hperm best best' hbest hbest' := by
    obtain ⟨hmem, helig, hgreatest⟩ := h.greatest hall hbest
    obtain ⟨hmem', helig', hgreatest'⟩ := h.greatest (fun r hr => hall r (hperm.mem_iff.mp hr)) hbest'
    have hle := hgreatest' best (hperm.mem_iff.mpr hmem) helig
    have hge := hgreatest best' (hperm.mem_iff.mp hmem') helig'
    have hswap : precedence best'.tag best.tag =
        (precedence best.tag best'.tag).swap := OrientedCmp.eq_swap
    rw [hswap] at hge
    cases hcompare : precedence best.tag best'.tag <;> simp_all

/-! ## Only such numbers -/

/-- The prerelease `n.n.n-n`. -/
def writtenPrerelease (n : ℕ) : Text := Versions.written n n n ++ '-' :: Nat.toDigits 10 n

theorem digits_toDigits (n : ℕ) : digits (Nat.toDigits 10 n) = true := by
  simp only [digits, ne_eq, Nat.toDigits_ne_nil, not_false_eq_true, decide_true, Bool.true_and,
    List.all_eq_true]
  exact fun c hc => Versions.isDigit_of_mem hc

theorem parseVersion_writtenPrerelease (n : ℕ) :
    parseVersion (writtenPrerelease n) = some ⟨n, n, n, [Nat.toDigits 10 n]⟩ := by
  have hbase : ∀ c ∈ Versions.written n n n, c.isDigit = true ∨ c = '.' := fun c => Versions.mem_written
  have hhyphen : ∀ c ∈ Versions.written n n n, (decide (c ≠ '-')) = true := by
    intro c hc
    rcases hbase c hc with h | rfl
    · exact decide_eq_true (by rintro rfl; exact absurd h (by decide))
    · decide
  have htrim : Javascript.trim (writtenPrerelease n) = writtenPrerelease n := by
    refine DnsServers.trim_of_not_isSpace fun c hc => ?_
    rcases List.mem_append.mp hc with hc | hc
    · exact Versions.not_space_of_isDigit (hbase c hc)
    rcases List.mem_cons.mp hc with rfl | hc
    · decide
    · exact Versions.not_space_of_isDigit (Or.inl (Versions.isDigit_of_mem hc))
  have hv : stripV (writtenPrerelease n) = writtenPrerelease n := by
    unfold stripV
    split
    · rename_i rest heq
      have hmem : 'v' ∈ writtenPrerelease n := heq ▸ List.mem_cons_self
      rcases List.mem_append.mp hmem with hc | hc
      · rcases hbase _ hc with h | h <;> exact absurd h (by decide)
      rcases List.mem_cons.mp hc with h | hc
      · exact absurd h (by decide)
      · exact absurd (Versions.isDigit_of_mem hc) (by decide)
    · rfl
  have htake : (writtenPrerelease n).takeWhile (· ≠ '-') = Versions.written n n n := by
    rw [writtenPrerelease, List.takeWhile_append_of_pos hhyphen]
    simp
  have hdrop : (writtenPrerelease n).dropWhile (· ≠ '-') = '-' :: Nat.toDigits 10 n := by
    rw [writtenPrerelease, List.dropWhile_append_of_pos hhyphen]
    simp
  have hchars : (Nat.toDigits 10 n).all Versions.prereleaseChar = true := by
    rw [List.all_eq_true]
    intro c hc
    simp [Versions.prereleaseChar, Char.isAlphanum, Versions.isDigit_of_mem hc]
  have hdot : '.' ∉ Nat.toDigits 10 n := Versions.notMem_toDigits rfl
  have hpre : Versions.readPrerelease ('-' :: Nat.toDigits 10 n) = some [Nat.toDigits 10 n] := by
    rw [Versions.readPrerelease, if_pos ⟨Nat.toDigits_ne_nil, hchars⟩, List.splitOn_eq_singleton hdot]
  simp only [parseVersion, htrim, hv, htake, hdrop, Versions.splitOn_written,
    Versions.segment_toDigits, hpre]
  rfl

theorem versionOver_writtenPrerelease (hn : n ∈ N) : VersionOver N (writtenPrerelease n) := by
  refine ⟨_, parseVersion_writtenPrerelease n, hn, hn, hn, fun x hx _ => ?_⟩
  obtain rfl := List.mem_singleton.mp hx
  rwa [number, Nat.ofDigitChars_ten_toDigits]

theorem versionOver_written {major minor patch : ℕ} (hmajor : major ∈ N) (hminor : minor ∈ N)
    (hpatch : patch ∈ N) : VersionOver N (Versions.written major minor patch) :=
  ⟨_, Versions.parseVersion_written, hmajor, hminor, hpatch, by simp⟩

/-- A prerelease with a number that is too large comes after itself. -/
theorem compareVersions_writtenPrerelease (h : toDouble n = none) :
    compareVersions (writtenPrerelease n) (writtenPrerelease n) = .gt := by
  unfold compareVersions Versions.compareTexts
  rw [parseVersion_writtenPrerelease]
  simp [Versions.compareParsed, Versions.comparePrerelease, Versions.compareIdentifier,
    digits_toDigits, number, compareNumbers, compareNumberDifference, h, Javascript.compareDoubles,
    Javascript.compareDifference, List.compareLex_cons_cons]

/-- The versions over a set of numbers are compared and selected by their precedence if and only if
the numbers are told apart as doubles. -/
theorem byPrecedence_iff (N : Set ℕ) : ByPrecedence N ↔ ToldApart N := by
  constructor
  · rintro ⟨hordered, -⟩
    have hfinite : ∀ n ∈ N, (toDouble n).isSome = true := by
      intro n hn
      cases hdouble : toDouble n with
      | some x => rfl
      | none =>
        have hself := hordered.refl _ (versionOver_writtenPrerelease hn)
        rw [compareVersions_writtenPrerelease hdouble] at hself
        exact absurd hself (by decide)
    refine ⟨hfinite, fun m hm n hn heq => ?_⟩
    have hprecedence := hordered.precedence _ _ (versionOver_written hm hm hm)
      (versionOver_written hn hm hm)
    obtain ⟨x, hx⟩ := Option.isSome_iff_exists.mp (hfinite n hn)
    obtain ⟨y, hy⟩ := Option.isSome_iff_exists.mp (hfinite m hm)
    rw [hx, hy, Option.some.injEq] at heq
    subst heq
    unfold compareVersions precedence Versions.compareTexts at hprecedence
    rw [Versions.parseVersion_written, Versions.parseVersion_written] at hprecedence
    have hequal : Ordering.eq = compare m n := by
      simpa [Versions.compareParsed, Versions.comparePrerelease, List.compareLex_nil_nil,
        compareNumbers, hx, hy]
        using hprecedence
    exact compare_eq_iff_eq.mp hequal.symm
  · exact fun h => ⟨h.ordered, fun opts releases hall => h.selects hall⟩

theorem versionOver_univ {text : Text} (h : isValidVersion text = true) :
    VersionOver Set.univ text := by
  obtain ⟨p, hp⟩ := Option.isSome_iff_exists.mp h
  exact ⟨p, hp, Set.mem_univ _, Set.mem_univ _, Set.mem_univ _, fun x _ _ => Set.mem_univ _⟩

def morning : Text := "2026.6.3-nightly.20260601120000000".toList

def nextMillisecond : Text := "2026.6.3-nightly.20260601120000001".toList

/-- Two builds with the time in their versions are held equal. -/
theorem nightlies_held_equal : ¬ ByPrecedence Set.univ := by
  intro h
  have hmorning : isValidVersion morning = true := by rfl
  have hnext : isValidVersion nextMillisecond = true := by rfl
  have hprecedence := h.1.precedence _ _ (versionOver_univ hmorning) (versionOver_univ hnext)
  have hcode : compareVersions morning nextMillisecond = .eq := by decide +kernel
  have hexact : precedence morning nextMillisecond = .lt := by decide +kernel
  rw [hcode, hexact] at hprecedence
  exact absurd hprecedence (by decide)

end Insula.ReleaseSelection
