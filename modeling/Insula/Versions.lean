import Insula.DnsNames
import Insula.Doubles

/-!
# Versions of the platform

A version is read from a text: three numbers without leading zeros, and the identifiers of a
prerelease behind a hyphen. Texts are compared by what is read from them, an unreadable one before
every other, and a prerelease before its release. The numbers are compared as doubles.
-/

namespace Insula.Versions

open Std
open Javascript (compareNumbers compareNumberDifference numberText toDouble digits number trim)

abbrev Text := List Char

structure ParsedVersion where
  major : ℕ
  minor : ℕ
  patch : ℕ
  /-- No identifier for a stable release. -/
  prerelease : List Text
deriving DecidableEq

/-! ## Reading -/

def segment (s : Text) : Option ℕ :=
  if digits s ∧ (s = ['0'] ∨ s.head? ≠ some '0') then some (number s) else none

def prereleaseChar (c : Char) : Bool := c.isAlphanum || c = '.' || c = '-'

/-- What follows the numbers: nothing, or a hyphen and identifiers. -/
def readPrerelease : Text → Option (List Text)
  | [] => some []
  | _ :: pre => if pre ≠ [] ∧ pre.all prereleaseChar then some (pre.splitOn '.') else none

def stripV : Text → Text
  | 'v' :: rest => rest
  | s => s

def parseVersion (raw : Text) : Option ParsedVersion :=
  let v := stripV (trim raw)
  match (v.takeWhile (· ≠ '-')).splitOn '.' with
  | [major, minor, patch] => do
    return ⟨← segment major, ← segment minor, ← segment patch,
      ← readPrerelease (v.dropWhile (· ≠ '-'))⟩
  | _ => none

def isValidVersion (raw : Text) : Bool := (parseVersion raw).isSome

/-! ## Order -/

section Order

/- How the numbers before the hyphen are compared, and the numbers behind it. -/
variable (numbers identifiers : ℕ → ℕ → Ordering)

def compareIdentifier (x y : Text) : Ordering :=
  if digits x ∧ digits y then identifiers (number x) (number y)
  else if digits x then .lt
  else if digits y then .gt
  else compare (x.map Char.toNat) (y.map Char.toNat)

def comparePrerelease (a b : List Text) : Ordering :=
  (compare a.isEmpty b.isEmpty).then (List.compareLex (compareIdentifier identifiers) a b)

def compareParsed (a b : ParsedVersion) : Ordering :=
  (numbers a.major b.major).then <| (numbers a.minor b.minor).then <|
    (numbers a.patch b.patch).then (comparePrerelease identifiers a.prerelease b.prerelease)

def compareTexts (a b : Text) : Ordering :=
  match parseVersion a, parseVersion b with
  | none, none => .eq
  | none, some _ => .lt
  | some _, none => .gt
  | some a, some b => compareParsed numbers identifiers a b

end Order

def compareVersions : Text → Text → Ordering := compareTexts compareNumbers compareNumberDifference

/-! ### The order on texts -/

/-- Values are compared as what they are read as. -/
theorem transCmp_comap {α β : Type} (f : α → β) (cmp : β → β → Ordering) [TransCmp cmp] :
    TransCmp fun a b => cmp (f a) (f b) where
  eq_swap := OrientedCmp.eq_swap
  isLE_trans := TransCmp.isLE_trans

instance : TransCmp compareNumbers := transCmp_comap toDouble Javascript.compareDoubles

section TransCmp

variable {numbers identifiers : ℕ → ℕ → Ordering} [TransCmp numbers] [TransCmp identifiers]

omit [TransCmp numbers] in
theorem compareIdentifier_eq : compareIdentifier identifiers =
    compareLex (compareOn fun x => ! digits x) (compareLex
      (fun x y => identifiers (if digits x then number x else 0) (if digits y then number y else 0))
      (compareOn fun x => if digits x then [] else x.map Char.toNat)) := by
  funext x y
  by_cases hx : digits x = true
  · by_cases hy : digits y = true
    · simp [compareIdentifier, compareLex, compareOn, hx, hy]
    · simp [compareIdentifier, compareLex, compareOn, hx, hy, compare, compareOfLessAndEq]
  · by_cases hy : digits y = true
    · simp [compareIdentifier, compareLex, compareOn, hx, hy, compare, compareOfLessAndEq]
    · simp [compareIdentifier, compareLex, compareOn, hx, hy, ReflCmp.compare_self]

instance : TransCmp (compareIdentifier identifiers) := by
  have := transCmp_comap (fun x => if digits x then number x else 0) identifiers
  rw [compareIdentifier_eq]
  infer_instance

instance : TransCmp (comparePrerelease identifiers) :=
  inferInstanceAs (TransCmp (compareLex (compareOn List.isEmpty)
    (List.compareLex (compareIdentifier identifiers))))

instance : TransCmp (compareParsed numbers identifiers) := by
  have hmajor := transCmp_comap ParsedVersion.major numbers
  have hminor := transCmp_comap ParsedVersion.minor numbers
  have hpatch := transCmp_comap ParsedVersion.patch numbers
  have hprerelease := transCmp_comap ParsedVersion.prerelease (comparePrerelease identifiers)
  exact inferInstanceAs (TransCmp (compareLex
    (fun a b : ParsedVersion => numbers a.major b.major) (compareLex
      (fun a b : ParsedVersion => numbers a.minor b.minor) (compareLex
        (fun a b : ParsedVersion => numbers a.patch b.patch)
        fun a b => comparePrerelease identifiers a.prerelease b.prerelease))))

instance : TransCmp (compareTexts numbers identifiers) := by
  let _ : Ord ParsedVersion := ⟨compareParsed numbers identifiers⟩
  have : TransOrd ParsedVersion := inferInstanceAs (TransCmp (compareParsed numbers identifiers))
  have hread : compareTexts numbers identifiers =
      fun a b => compare (parseVersion a) (parseVersion b) := by
    funext a b
    unfold compareTexts
    cases parseVersion a <;> cases parseVersion b <;> rfl
  rw [hread]
  exact transCmp_comap parseVersion compare

end TransCmp

/-! ### Comparing alike -/

section Agreement

variable {numbers numbers' identifiers identifiers' : ℕ → ℕ → Ordering}

theorem compareLex_congr {α : Type} {cmp cmp' : α → α → Ordering} {a b : List α}
    (h : ∀ x ∈ a, ∀ y ∈ b, cmp x y = cmp' x y) :
    List.compareLex cmp a b = List.compareLex cmp' a b := by
  induction a generalizing b with
  | nil => cases b <;> rfl
  | cons x a ih =>
    cases b with
    | nil => rfl
    | cons y b =>
      have hrest := ih (b := b) fun x hx y hy =>
        h x (List.mem_cons_of_mem _ hx) y (List.mem_cons_of_mem _ hy)
      rw [List.compareLex_cons_cons, List.compareLex_cons_cons, hrest,
        h x List.mem_cons_self y List.mem_cons_self]

theorem comparePrerelease_congr {a b : List Text}
    (h : ∀ x ∈ a, ∀ y ∈ b, digits x = true → digits y = true →
      identifiers (number x) (number y) = identifiers' (number x) (number y)) :
    comparePrerelease identifiers a b = comparePrerelease identifiers' a b := by
  have hidentifiers : ∀ x ∈ a, ∀ y ∈ b,
      compareIdentifier identifiers x y = compareIdentifier identifiers' x y := by
    intro x hx y hy
    unfold compareIdentifier
    by_cases hboth : digits x = true ∧ digits y = true
    · rw [if_pos hboth, if_pos hboth, h x hx y hy hboth.1 hboth.2]
    · rw [if_neg hboth, if_neg hboth]
  rw [comparePrerelease, comparePrerelease, compareLex_congr hidentifiers]

end Agreement

/-- No number behind the hyphen is too large. -/
def Finite (text : Text) : Prop :=
  ∀ p ∈ parseVersion text, ∀ x ∈ p.prerelease, digits x = true → (toDouble (number x)).isSome = true

theorem compareVersions_eq {a b : Text} (h : Finite a) :
    compareVersions a b = compareTexts compareNumbers compareNumbers a b := by
  unfold compareVersions compareTexts
  cases ha : parseVersion a with
  | none => cases parseVersion b <;> rfl
  | some p =>
    cases parseVersion b with
    | none => rfl
    | some q =>
      have hprerelease : comparePrerelease compareNumberDifference p.prerelease q.prerelease =
          comparePrerelease compareNumbers p.prerelease q.prerelease :=
        comparePrerelease_congr fun x hx y _ hdigits _ =>
          Javascript.compareNumberDifference_eq (h p ha x hx hdigits)
      dsimp only
      rw [compareParsed, compareParsed, hprerelease]

theorem ofDigitChars_lt {s : Text} (h : s.all Char.isDigit = true) (init : ℕ) :
    Nat.ofDigitChars 10 s init < (init + 1) * 10 ^ s.length := by
  induction s generalizing init with
  | nil => simp
  | cons c s ih =>
    rw [List.all_cons, Bool.and_eq_true] at h
    have hc : c.toNat - '0'.toNat ≤ 9 := by
      have hle := h.1
      simp only [Char.isDigit, Bool.and_eq_true, decide_eq_true_eq] at hle
      have hhigh := UInt32.le_iff_toNat_le.mp hle.2
      change c.toNat ≤ 57 at hhigh
      change c.toNat - 48 ≤ 9
      omega
    have hrest := ih h.2 (10 * init + (c.toNat - '0'.toNat))
    rw [Nat.ofDigitChars_cons, List.length_cons, pow_succ]
    calc _ < (10 * init + (c.toNat - '0'.toNat) + 1) * 10 ^ s.length := hrest
      _ ≤ ((init + 1) * 10) * 10 ^ s.length := Nat.mul_le_mul_right _ (by omega)
      _ = (init + 1) * (10 ^ s.length * 10) := by ring

theorem number_lt {x : Text} (h : digits x = true) : number x < 10 ^ x.length := by
  rw [digits, Bool.and_eq_true] at h
  simpa [number] using ofDigitChars_lt h.2 0

variable {c : Char} {text : Text}

theorem length_le_of_mem_splitOn {s : Text} : ∀ x ∈ s.splitOn c, x.length ≤ s.length := by
  induction s with
  | nil => simp
  | cons d s ih =>
    intro x hx
    rw [List.splitOn_cons_eq_if_modifyHead] at hx
    rw [List.length_cons]
    split_ifs at hx with hd
    · rcases List.mem_cons.mp hx with rfl | hx
      · simp
      · exact (ih x hx).trans (Nat.le_succ _)
    · obtain ⟨head, tail, hsplit⟩ := List.exists_cons_of_ne_nil (List.splitOn_ne_nil c s)
      rw [hsplit, List.modifyHead_cons] at hx
      rw [hsplit] at ih
      rcases List.mem_cons.mp hx with rfl | hx
      · exact Nat.succ_le_succ (ih head List.mem_cons_self)
      · exact (ih x (List.mem_cons_of_mem _ hx)).trans (Nat.le_succ _)

theorem sublist_stripV (s : Text) : (stripV s).Sublist s := by
  unfold stripV
  split
  · exact List.sublist_cons_self _ _
  · exact List.Sublist.refl _

theorem sublist_trim (s : Text) : (trim s).Sublist s :=
  (List.rdropWhile_prefix _ _).sublist.trans (List.dropWhile_suffix _).sublist

theorem readPrerelease_of_parseVersion {p : ParsedVersion} (h : parseVersion text = some p) :
    readPrerelease ((stripV (trim text)).dropWhile (· ≠ '-')) = some p.prerelease := by
  unfold parseVersion at h
  dsimp only at h
  split at h
  · simp only [Option.bind_eq_bind, Option.bind_eq_some_iff, Option.pure_def, Option.some.injEq] at h
    obtain ⟨_, _, _, _, _, _, pre, hpre, rfl⟩ := h
    exact hpre
  · cases h

theorem length_le_of_mem_prerelease {p : ParsedVersion} (h : parseVersion text = some p)
    {x : Text} (hx : x ∈ p.prerelease) : x.length ≤ text.length := by
  have hread := readPrerelease_of_parseVersion h
  have hdropped : ((stripV (trim text)).dropWhile (· ≠ '-')).length ≤ text.length :=
    ((List.dropWhile_suffix _).sublist.trans ((sublist_stripV _).trans (sublist_trim _))).length_le
  cases hrest : (stripV (trim text)).dropWhile (· ≠ '-') with
  | nil =>
    rw [hrest, readPrerelease, Option.some.injEq] at hread
    rw [← hread] at hx
    cases hx
  | cons c pre =>
    rw [hrest, readPrerelease, Option.ite_none_right_eq_some, Option.some.injEq] at hread
    rw [← hread.2] at hx
    rw [hrest, List.length_cons] at hdropped
    exact (length_le_of_mem_splitOn x hx).trans (by omega)

theorem finite_of_length (h : text.length ≤ 255) : Finite text := by
  intro p hp x hx hdigits
  have hlength := length_le_of_mem_prerelease hp hx
  have hnumber : number x < 2 ^ 850 :=
    calc number x < 10 ^ x.length := number_lt hdigits
      _ ≤ 10 ^ 255 := Nat.pow_le_pow_right (by decide) (hlength.trans h)
      _ ≤ 2 ^ 850 := by decide +kernel
  exact Javascript.isSome_toDouble hnumber (by decide)

/-! ## Written versions -/

def dotted (major minor patch : Text) : Text := ['.'].intercalate [major, minor, patch]

def ParsedVersion.base (p : ParsedVersion) : Text :=
  dotted (numberText p.major) (numberText p.minor) (numberText p.patch)

def written (major minor patch : ℕ) : Text :=
  dotted (Nat.toDigits 10 major) (Nat.toDigits 10 minor) (Nat.toDigits 10 patch)

theorem mem_dotted {a b d : Text} (h : c ∈ dotted a b d) : c ∈ a ∨ c ∈ b ∨ c ∈ d ∨ c = '.' := by
  simp only [dotted, List.intercalate, List.intersperse, List.flatten_cons, List.flatten_nil,
    List.mem_append, List.mem_singleton, List.append_nil] at h
  tauto

theorem finite_base (p : ParsedVersion) : Finite p.base := by
  intro q hq x hx
  have hhyphen : '-' ∉ p.base := by
    intro h
    rcases mem_dotted h with h | h | h | h
    · exact Javascript.hyphen_notMem_numberText _ h
    · exact Javascript.hyphen_notMem_numberText _ h
    · exact Javascript.hyphen_notMem_numberText _ h
    · cases h
  have hdrop : (stripV (trim p.base)).dropWhile (· ≠ '-') = [] := by
    rw [List.dropWhile_eq_nil_iff]
    rintro c hc
    apply decide_eq_true
    rintro rfl
    exact hhyphen ((sublist_trim _).subset ((sublist_stripV _).subset hc))
  have hread := readPrerelease_of_parseVersion hq
  rw [hdrop, readPrerelease, Option.some.injEq] at hread
  rw [← hread] at hx
  cases hx

theorem isDigit_of_mem {n : ℕ} (h : c ∈ Nat.toDigits 10 n) : c.isDigit = true :=
  Nat.isDigit_of_mem_toDigits (by decide) (by decide) h

theorem head_toDigits (n : ℕ) : Nat.toDigits 10 n = ['0'] ∨ (Nat.toDigits 10 n).head? ≠ some '0' := by
  induction n using Nat.strongRecOn with
  | ind n ih =>
    by_cases hn : n < 10
    · rw [Nat.toDigits_of_lt_base hn]
      have hall : ∀ m < 10,
          [Nat.digitChar m] = ['0'] ∨ [Nat.digitChar m].head? ≠ some '0' := by
        decide
      exact hall n hn
    · rw [Nat.toDigits_of_base_le (by decide) (by omega)]
      have hdiv : n / 10 ≠ 0 := by omega
      rcases ih (n / 10) (by omega) with h | h
      · have hzero := congrArg (Nat.ofDigitChars 10 · 0) h
        simp only [Nat.ofDigitChars_ten_toDigits] at hzero
        exact absurd hzero hdiv
      · right
        rwa [List.head?_append_of_ne_nil _ Nat.toDigits_ne_nil]

theorem segment_toDigits (n : ℕ) : segment (Nat.toDigits 10 n) = some n := by
  have hdigits : digits (Nat.toDigits 10 n) = true := by
    simp only [digits, ne_eq, Nat.toDigits_ne_nil, not_false_eq_true, decide_true, Bool.true_and,
      List.all_eq_true]
    exact fun c hc => isDigit_of_mem hc
  rw [segment, if_pos ⟨hdigits, head_toDigits n⟩, number, Nat.ofDigitChars_ten_toDigits]

theorem notMem_toDigits {n : ℕ} (hc : c.isDigit = false) : c ∉ Nat.toDigits 10 n := by
  intro h
  rw [isDigit_of_mem h] at hc
  cases hc

section Written

variable {major minor patch : ℕ}

theorem mem_written {c : Char} (h : c ∈ written major minor patch) : c.isDigit = true ∨ c = '.' := by
  rcases mem_dotted h with h | h | h | h
  · exact .inl (isDigit_of_mem h)
  · exact .inl (isDigit_of_mem h)
  · exact .inl (isDigit_of_mem h)
  · exact .inr h

theorem splitOn_written : (written major minor patch).splitOn '.' =
    [Nat.toDigits 10 major, Nat.toDigits 10 minor, Nat.toDigits 10 patch] := by
  apply List.splitOn_intercalate
  · intro l hl
    simp only [List.mem_cons, List.not_mem_nil, or_false] at hl
    rcases hl with rfl | rfl | rfl
    all_goals exact notMem_toDigits rfl
  · simp

theorem not_space_of_isDigit {c : Char} (h : c.isDigit = true ∨ c = '.') :
    Javascript.isSpace c = false := by
  have hrange : 46 ≤ c.toNat ∧ c.toNat ≤ 57 := by
    rcases h with h | rfl
    · simp only [Char.isDigit, Bool.and_eq_true, decide_eq_true_eq] at h
      have hlow := UInt32.le_iff_toNat_le.mp h.1
      have hhigh := UInt32.le_iff_toNat_le.mp h.2
      change 48 ≤ c.toNat at hlow
      change c.toNat ≤ 57 at hhigh
      omega
    · decide
  obtain ⟨hlow, hhigh⟩ := hrange
  simp only [Javascript.isSpace, List.mem_cons, List.not_mem_nil, or_false, Bool.or_eq_false_iff,
    decide_eq_false_iff_not, Bool.and_eq_false_iff]
  omega

theorem parseVersion_written : parseVersion
    (written major minor patch) = some ⟨major, minor, patch, []⟩ := by
  have hchar : ∀ c ∈ written major minor patch, c.isDigit = true ∨ c = '.' := fun c => mem_written
  have htrim : trim (written major minor patch) = written major minor patch :=
    DnsServers.trim_of_not_isSpace fun c hc => not_space_of_isDigit (hchar c hc)
  have hhyphen : ∀ c ∈ written major minor patch, c ≠ '-' := by
    intro c hc heq
    subst heq
    rcases hchar _ hc with h | h <;> cases h
  have hv : stripV (written major minor patch) = written major minor patch := by
    unfold stripV
    split
    · rename_i rest heq
      rcases hchar 'v' (heq ▸ List.mem_cons_self) with h | h <;> cases h
    · rfl
  have htake : (written major minor patch).takeWhile (· ≠ '-') = written major minor patch :=
    List.takeWhile_eq_self_iff.mpr fun c hc => decide_eq_true (hhyphen c hc)
  have hdrop : (written major minor patch).dropWhile (· ≠ '-') = [] :=
    List.dropWhile_eq_nil_iff.mpr fun c hc => decide_eq_true (hhyphen c hc)
  simp only [parseVersion, htrim, hv, htake, hdrop, splitOn_written, segment_toDigits, readPrerelease]
  rfl

end Written

end Insula.Versions
