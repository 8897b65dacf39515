import Insula.Javascript
import Insula.Lookup

/-!
# Hostnames of routes

A route is for a hostname or for a wildcard one label below a name. What a hostname may be, what a
route matches, what a certificate covers and which domain a hostname belongs to are computed apart,
each on hostnames brought to one form first.
-/

namespace Insula.WildcardHostname

open Javascript
open scoped Lookup

abbrev Hostname := List Char

def maxHostnameLength : ℕ := 253

def alnum (c : Char) : Bool := ('a' ≤ c && c ≤ 'z') || ('0' ≤ c && c ≤ '9')

/-- The pattern of a label: letters and digits, hyphens inside, 63 characters at most. -/
def labelRegex (label : Hostname) : Prop :=
  label ≠ [] ∧ (∀ c ∈ label, alnum c ∨ c = '-') ∧ (∀ c ∈ label.head?, alnum c) ∧
    (∀ c ∈ label.getLast?, alnum c) ∧ label.length ≤ 63

instance (label : Hostname) : Decidable (labelRegex label) := by
  unfold labelRegex
  infer_instance

section Functions

variable (toLowerCase : Hostname → Hostname)

def normalizeHostname (hostname : Hostname) : Hostname :=
  let trimmed := toLowerCase (trim hostname)
  if trimmed.getLast? = some '.' then trimmed.dropLast else trimmed

def isWildcardHostname (hostname : Hostname) : Prop :=
  let h := normalizeHostname toLowerCase hostname
  ['*', '.'] <+: h ∧ 2 < utf16Length h

instance (hostname : Hostname) : Decidable (isWildcardHostname toLowerCase hostname) :=
  inferInstanceAs (Decidable (_ ∧ _))

def wildcardBase (hostname : Hostname) : Option Hostname :=
  if isWildcardHostname toLowerCase hostname then
    some ((normalizeHostname toLowerCase hostname).drop 2)
  else none

def isAtOrUnder (hostname parent : Hostname) : Prop :=
  let h := normalizeHostname toLowerCase hostname
  let p := normalizeHostname toLowerCase parent
  h = p ∨ ('.' :: p) <:+ h

instance (hostname parent : Hostname) : Decidable (isAtOrUnder toLowerCase hostname parent) :=
  inferInstanceAs (Decidable (_ ∨ _))

def checkLabels (h domain : Hostname) (i : ℕ) : List Hostname → Except String Unit
  | [] => .ok ()
  | label :: labels =>
    let name := String.ofList h
    let shown := String.ofList label
    let under := String.ofList domain
    if label = ['*'] then
      if i ≠ 0 then .error s!"Wildcards are only allowed as the leftmost label (got '{name}')"
      else checkLabels h domain (i + 1) labels
    else if '*' ∈ label then
      .error (s!"'{shown}' mixes a wildcard with other characters — use '*' as a whole label " ++
        s!"(e.g. '*.{under}')")
    else if ¬labelRegex label then .error s!"'{shown}' is not a valid hostname label"
    else checkLabels h domain (i + 1) labels

def validateRouteHostname (hostname domainName : Hostname) : Except String Hostname :=
  let h := normalizeHostname toLowerCase hostname
  let domain := normalizeHostname toLowerCase domainName
  let name := String.ofList h
  let under := String.ofList domain
  if h = [] then .error "Hostname is required"
  else if maxHostnameLength < utf16Length h then
    .error s!"Hostname exceeds {maxHostnameLength} characters"
  else if (h.splitOn '.').length < 2 then .error s!"'{name}' is not a fully qualified hostname"
  else
    match checkLabels h domain 0 (h.splitOn '.') with
    | .error e => .error e
    | .ok () =>
      let authorityName := (wildcardBase toLowerCase h).getD h
      if ¬isAtOrUnder toLowerCase authorityName domain then
        let suggestion :=
          if isWildcardHostname toLowerCase h then s!"*.{under}" else s!"www.{under}"
        .error s!"Hostname '{name}' must be '{under}' or below it (e.g. '{suggestion}')"
      else .ok h

def sanCoversHostname (san hostname : Hostname) : Prop :=
  let s := normalizeHostname toLowerCase san
  let h := normalizeHostname toLowerCase hostname
  s = h ∨ ¬isWildcardHostname toLowerCase h ∧ ∃ base ∈ wildcardBase toLowerCase s,
    ('.' :: base) <:+ h ∧
      let pre := h.take (h.length - base.length - 1)
      pre ≠ [] ∧ '.' ∉ pre

def certDnsNamesForHostname (hostname : Hostname) : List Hostname :=
  let h := normalizeHostname toLowerCase hostname
  h :: (wildcardBase toLowerCase h).toList

def wildcardMatchesHostname (pattern hostname : Hostname) : Prop :=
  let p := normalizeHostname toLowerCase pattern
  if isWildcardHostname toLowerCase p then sanCoversHostname toLowerCase p hostname
  else p = normalizeHostname toLowerCase hostname

section Longest

variable {T : Type} (domainName : T → Hostname)

def authorityName (hostname : Hostname) : Hostname :=
  (wildcardBase toLowerCase hostname).getD (normalizeHostname toLowerCase hostname)

def pickLonger (authority : Hostname) (best : Option T × ℤ) (domain : T) : Option T × ℤ :=
  let name := normalizeHostname toLowerCase (domainName domain)
  if ¬isAtOrUnder toLowerCase authority name then best
  else if best.2 < utf16Length name then (some domain, utf16Length name)
  else best

def longestMatchingDomain (hostname : Hostname) (domains : List T) : Option T :=
  (domains.foldl (pickLonger toLowerCase domainName (authorityName toLowerCase hostname))
    (none, -1)).1

end Longest

end Functions

/-! ## Normal forms -/

def plainChar (c : Char) : Bool := alnum c || c = '-' || c = '.' || c = '*'

/-- What `toLowerCase` does on text in ASCII. -/
def Lowers (toLowerCase : Hostname → Hostname) : Prop :=
  ∀ s : Hostname, (∀ c ∈ s, c.toNat < 128) → toLowerCase s = s.map Char.toLower

variable {c : Char} {p q s : Hostname}

theorem toNat_alnum (h : alnum c = true) :
    (97 ≤ c.toNat ∧ c.toNat ≤ 122) ∨ (48 ≤ c.toNat ∧ c.toNat ≤ 57) := by
  unfold alnum at h
  simp only [Bool.or_eq_true, Bool.and_eq_true, decide_eq_true_eq] at h
  exact h

theorem toNat_plainChar (h : plainChar c = true) :
    (97 ≤ c.toNat ∧ c.toNat ≤ 122) ∨ (48 ≤ c.toNat ∧ c.toNat ≤ 57) ∨ c.toNat = 45 ∨
      c.toNat = 46 ∨ c.toNat = 42 := by
  simp only [plainChar, Bool.or_eq_true, decide_eq_true_eq] at h
  rcases h with ((h | rfl) | rfl) | rfl
  · rcases toNat_alnum h with h | h
    · exact .inl h
    · exact .inr (.inl h)
  · exact .inr (.inr (.inl rfl))
  · exact .inr (.inr (.inr (.inl rfl)))
  · exact .inr (.inr (.inr (.inr rfl)))

theorem isSpace_of_ascii (h : 33 ≤ c.toNat) (h' : c.toNat < 128) : isSpace c = false := by
  unfold isSpace
  simp only [List.mem_cons, List.not_mem_nil, or_false, Bool.or_eq_false_iff,
    decide_eq_false_iff_not, Bool.and_eq_false_iff]
  omega

theorem toLower_of_not_upper (h : c.toNat < 65 ∨ 90 < c.toNat) : c.toLower = c := by
  unfold Char.toLower
  rw [dif_neg]
  rintro ⟨hA, hZ⟩
  have hA' : 65 ≤ c.toNat := hA
  have hZ' : c.toNat ≤ 90 := hZ
  omega

/-- Lower case has no upper case left. -/
theorem toNat_toLower (c : Char) :
    c.toLower.toNat = if 65 ≤ c.toNat ∧ c.toNat ≤ 90 then c.toNat + 32 else c.toNat := by
  by_cases h : 65 ≤ c.toNat ∧ c.toNat ≤ 90
  · rw [if_pos h]
    have hval : c.val ≥ 'A'.val ∧ c.val ≤ 'Z'.val := h
    unfold Char.toLower
    rw [dif_pos hval]
    have hsum : (c.val + ('a'.val - 'A'.val)).toNat = c.toNat + 32 := by
      rw [UInt32.toNat_add]
      have hsub : ('a'.val - 'A'.val).toNat = 32 := rfl
      have hc : c.val.toNat = c.toNat := rfl
      rw [hsub, hc]
      omega
    exact hsum
  · rw [if_neg h, toLower_of_not_upper (by omega)]

section Normal

variable {toLowerCase : Hostname → Hostname} (hlower : Lowers toLowerCase)

include hlower

/-- Text without spaces that does not end in a dot is only brought to lower case. -/
theorem normalizeHostname_ascii {s : Hostname} (hascii : ∀ c ∈ s, 33 ≤ c.toNat ∧ c.toNat < 128)
    (hlast : s.getLast? ≠ some '.') : normalizeHostname toLowerCase s = s.map Char.toLower := by
  have htrim : trim s = s := by
    have hspace : ∀ c ∈ s, isSpace c = false :=
      fun c hc => isSpace_of_ascii (hascii c hc).1 (hascii c hc).2
    have hfirst : s.dropWhile isSpace = s := by
      cases s with
      | nil => rfl
      | cons c s => simp [hspace c List.mem_cons_self]
    rw [trim, hfirst, List.rdropWhile_eq_self_iff]
    intro hne
    simp [hspace _ (List.getLast_mem hne)]
  have hdot : (s.map Char.toLower).getLast? ≠ some '.' := by
    rw [List.getLast?_map]
    intro h
    obtain ⟨c, hc, hlow⟩ := Option.map_eq_some_iff.mp h
    have hnat := toNat_toLower c
    rw [hlow] at hnat
    have hdot : ('.' : Char).toNat = 46 := rfl
    have hc' : c = '.' := by
      rw [← hlow]
      apply (toLower_of_not_upper _).symm
      split at hnat <;> omega
    exact hlast (hc' ▸ hc)
  rw [normalizeHostname, htrim, hlower s (fun c hc => (hascii c hc).2), if_neg hdot]

theorem normalizeHostname_plain {s : Hostname} (hplain : ∀ c ∈ s, plainChar c = true)
    (hlast : s.getLast? ≠ some '.') : normalizeHostname toLowerCase s = s := by
  rw [normalizeHostname_ascii hlower _ hlast]
  · have hsame : s.map Char.toLower = s.map id := by
      apply List.map_congr_left
      intro c hc
      apply toLower_of_not_upper
      have hnat := toNat_plainChar (hplain c hc)
      omega
    rw [hsame, List.map_id]
  · intro c hc
    have hnat := toNat_plainChar (hplain c hc)
    omega

end Normal

theorem utf16Length_cons (c : Char) (s : Hostname) : utf16Length s < utf16Length (c :: s) := by
  simp only [utf16Length, List.map_cons, List.sum_cons]
  split <;> omega

/-! ## Accepted hostnames -/

def PlainLabel (label : Hostname) : Prop :=
  (∀ c ∈ label, plainChar c = true) ∧ ∃ c, label.getLast? = some c ∧ alnum c = true

theorem plainLabel_of_regex {label : Hostname} (h : labelRegex label) : PlainLabel label := by
  obtain ⟨hnonempty, hchars, -, hlast, -⟩ := h
  refine ⟨?_, label.getLast hnonempty, List.getLast?_eq_some_getLast hnonempty,
    hlast _ (List.getLast?_eq_some_getLast hnonempty)⟩
  intro c hc
  rcases hchars c hc with hc | rfl
  · simp [plainChar, hc]
  · rfl

theorem plainLabel_intercalate {labels : List Hostname} (hne : labels ≠ [])
    (hlabel : ∀ label ∈ labels, PlainLabel label) : PlainLabel (['.'].intercalate labels) := by
  induction labels with
  | nil => exact absurd rfl hne
  | cons label labels ih =>
    obtain ⟨hchars, hlast⟩ := hlabel label List.mem_cons_self
    cases labels with
    | nil =>
      rw [List.intercalate_singleton]
      exact ⟨hchars, hlast⟩
    | cons next labels =>
      obtain ⟨hchars', last, hlast', halnum⟩ :=
        ih (by simp) (fun l hl => hlabel l (List.mem_cons_of_mem _ hl))
      rw [List.intercalate_cons_cons]
      refine ⟨?_, last, ?_, halnum⟩
      · intro c hc
        rcases List.mem_append.mp hc with hc | hc
        · rcases List.mem_append.mp hc with hc | hc
          · exact hchars c hc
          · cases List.mem_singleton.mp hc
            rfl
        · exact hchars' c hc
      · rw [List.getLast?_append, hlast']
        rfl

theorem checkLabels_ok {h domain : Hostname} {i : ℕ} {labels : List Hostname}
    (hok : checkLabels h domain i labels = .ok ()) :
    ∀ j label, labels[j]? = some label → labelRegex label ∨ i + j = 0 ∧ label = ['*'] := by
  induction labels generalizing i with
  | nil => simp
  | cons first labels ih =>
    unfold checkLabels at hok
    dsimp only at hok
    intro j label hj
    have hrest : ∀ hok' : checkLabels h domain (i + 1) labels = .ok (), 0 < j →
        labelRegex label ∨ i + j = 0 ∧ label = ['*'] := by
      intro hok' hpos
      obtain ⟨k, rfl⟩ : ∃ k, j = k + 1 := ⟨j - 1, by omega⟩
      rcases ih hok' k label (by simpa using hj) with hregex | ⟨hzero, -⟩
      · exact .inl hregex
      · omega
    split at hok
    · next hstar =>
      split at hok
      · cases hok
      · next hi =>
        cases j with
        | zero =>
          cases hj
          exact .inr ⟨by omega, hstar⟩
        | succ j => exact hrest hok (by omega)
    · split at hok
      · cases hok
      · split at hok
        · cases hok
        · next hregex =>
          cases j with
          | zero =>
            cases hj
            exact .inl (not_not.mp hregex)
          | succ j => exact hrest hok (by omega)

section Accepted

variable {toLowerCase : Hostname → Hostname} {hostname domainName h : Hostname}

theorem validateRouteHostname_ok (hok : validateRouteHostname toLowerCase hostname domainName = .ok h) :
    h = normalizeHostname toLowerCase hostname ∧
      checkLabels h (normalizeHostname toLowerCase domainName) 0 (h.splitOn '.') = .ok () ∧
      2 ≤ (h.splitOn '.').length ∧ isAtOrUnder toLowerCase ((wildcardBase toLowerCase h).getD h)
        (normalizeHostname toLowerCase domainName) := by
  unfold validateRouteHostname at hok
  dsimp only at hok
  split at hok
  · cases hok
  · split at hok
    · cases hok
    · split at hok
      · cases hok
      · next hlength =>
        split at hok
        · cases hok
        · next hlabels =>
          split at hok
          · cases hok
          · next hunder =>
            cases hok
            exact ⟨rfl, hlabels, by omega, not_not.mp hunder⟩

theorem labels_of_ok (hok : validateRouteHostname toLowerCase hostname domainName = .ok h) :
    ∃ first rest, h = first ++ '.' :: ['.'].intercalate rest ∧ rest ≠ [] ∧
      (∀ label ∈ rest, labelRegex label) ∧ (labelRegex first ∨ first = ['*']) := by
  obtain ⟨-, hlabels, hlength, -⟩ := validateRouteHostname_ok hok
  have hjoin : ['.'].intercalate (h.splitOn '.') = h := List.intercalate_splitOn '.'
  match hsplit : h.splitOn '.' with
  | [] | [_] => simp [hsplit] at hlength
  | first :: next :: rest =>
    rw [hsplit] at hlabels hjoin
    refine ⟨first, next :: rest, ?_, by simp, ?_, ?_⟩
    · rw [← hjoin, List.intercalate_cons_cons]
      simp
    · intro label hmem
      obtain ⟨j, hj⟩ := List.mem_iff_getElem?.mp hmem
      rcases checkLabels_ok hlabels (j + 1) label (by simpa using hj) with hregex | ⟨hzero, -⟩
      · exact hregex
      · omega
    · rcases checkLabels_ok hlabels 0 first rfl with hregex | ⟨-, hstar⟩
      · exact .inl hregex
      · exact .inr hstar

theorem normal_of_ok (hlower : Lowers toLowerCase)
    (hok : validateRouteHostname toLowerCase hostname domainName = .ok h) :
    normalizeHostname toLowerCase h = h ∧
      ((∃ base, h = '*' :: '.' :: base ∧ wildcardBase toLowerCase h = some base ∧
          normalizeHostname toLowerCase base = base ∧ isWildcardHostname toLowerCase h) ∨
        wildcardBase toLowerCase h = none ∧ ¬isWildcardHostname toLowerCase h) := by
  obtain ⟨first, rest, rfl, hne, hrest, hfirst⟩ := labels_of_ok hok
  obtain ⟨hchars, last, hlast, halnum⟩ :=
    plainLabel_intercalate hne (fun label hmem => plainLabel_of_regex (hrest label hmem))
  have hdot : last ≠ '.' := by
    rintro rfl
    exact absurd halnum (by decide)
  have hfirstChars : ∀ c ∈ first, plainChar c = true := by
    intro c hc
    rcases hfirst with hregex | rfl
    · rcases hregex.2.1 c hc with hc | rfl
      · simp [plainChar, hc]
      · rfl
    · cases List.mem_singleton.mp hc
      rfl
  have hbase : normalizeHostname toLowerCase (['.'].intercalate rest) = ['.'].intercalate rest :=
    normalizeHostname_plain hlower hchars (by rw [hlast]; simpa using hdot)
  have hself : normalizeHostname toLowerCase (first ++ '.' :: ['.'].intercalate rest) =
      first ++ '.' :: ['.'].intercalate rest := by
    apply normalizeHostname_plain hlower
    · intro c hc
      rcases List.mem_append.mp hc with hc | hc
      · exact hfirstChars c hc
      · rcases List.mem_cons.mp hc with rfl | hc
        · rfl
        · exact hchars c hc
    · rw [List.getLast?_append, List.getLast?_cons, hlast]
      simpa using hdot
  refine ⟨hself, ?_⟩
  rcases hfirst with hregex | rfl
  · right
    have hno : ¬isWildcardHostname toLowerCase (first ++ '.' :: ['.'].intercalate rest) := by
      rintro ⟨hpre, -⟩
      rw [hself] at hpre
      obtain ⟨c, cs, rfl⟩ := List.exists_cons_of_ne_nil hregex.1
      have hc := hregex.2.2.1 c rfl
      rw [List.cons_append, List.cons_prefix_cons] at hpre
      rw [← hpre.1] at hc
      exact absurd hc (by decide)
    refine ⟨?_, hno⟩
    rw [wildcardBase, if_neg hno]
  · left
    have hyes : isWildcardHostname toLowerCase (['*'] ++ '.' :: ['.'].intercalate rest) := by
      unfold isWildcardHostname
      rw [hself]
      refine ⟨⟨_, rfl⟩, ?_⟩
      have hnonempty : ['.'].intercalate rest ≠ [] := by
        intro hnil
        rw [hnil] at hlast
        cases hlast
      obtain ⟨c, cs, hcs⟩ := List.exists_cons_of_ne_nil hnonempty
      rw [hcs]
      have hc := utf16Length_cons c cs
      have hdotted := utf16Length_cons '.' (c :: cs)
      have hstarred := utf16Length_cons '*' ('.' :: c :: cs)
      rw [List.singleton_append]
      omega
    refine ⟨_, rfl, ?_, hbase, hyes⟩
    rw [wildcardBase, if_pos hyes, hself]
    rfl

end Accepted

/-! ## Names at or under a domain -/

def Under (p s : Hostname) : Prop := s = p ∨ ('.' :: p) <:+ s

theorem Under.trans (hq : Under p q) (hs : ('.' :: q) <:+ s) : Under p s := by
  right
  rcases hq with rfl | hq
  · exact hs
  · exact (hq.trans (List.suffix_cons '.' q)).trans hs

theorem Under.suffix (h : Under p s) : p <:+ s := by
  rcases h with rfl | h
  · exact List.suffix_refl _
  · exact (List.suffix_cons '.' p).trans h

theorem eq_of_suffix (h : p <:+ q) (hlength : utf16Length p = utf16Length q) : p = q := by
  obtain ⟨pre, rfl⟩ := h
  cases pre with
  | nil => rfl
  | cons c pre =>
    have hlonger := utf16Length_cons c (pre ++ p)
    have hsum : utf16Length (pre ++ p) = utf16Length pre + utf16Length p := by simp [utf16Length]
    rw [List.cons_append] at hlength
    omega

/-- Two domains of one length that a name is under are one. -/
theorem Under.unique (hp : Under p s) (hq : Under q s) (hlength : utf16Length p = utf16Length q) :
    p = q := by
  rcases List.suffix_or_suffix_of_suffix hp.suffix hq.suffix with h | h
  · exact eq_of_suffix h hlength
  · exact (eq_of_suffix h hlength.symm).symm

theorem isAtOrUnder_iff {toLowerCase : Hostname → Hostname} {hostname parent : Hostname} :
    isAtOrUnder toLowerCase hostname parent ↔
      Under (normalizeHostname toLowerCase parent) (normalizeHostname toLowerCase hostname) :=
  Iff.rfl

/-! ## The longest domain -/

/-- One normalisation is enough, as for every name that the schema of domains accepts. -/
def Settles (toLowerCase : Hostname → Hostname) (name : Hostname) : Prop :=
  normalizeHostname toLowerCase (normalizeHostname toLowerCase name) =
    normalizeHostname toLowerCase name

def domainNameRegex (name : Hostname) : Prop :=
  ∃ labels last, name = ['.'].intercalate (labels ++ [last]) ∧ labels ≠ [] ∧
    (∀ label ∈ labels, labelRegex (label.map Char.toLower)) ∧
    2 ≤ last.length ∧ ∀ c ∈ last, ('a' ≤ c ∧ c ≤ 'z') ∨ ('A' ≤ c ∧ c ≤ 'Z')

section Longest

variable {toLowerCase : Hostname → Hostname} {T : Type} {domainName : T → Hostname}

def Best (toLowerCase : Hostname → Hostname) (domainName : T → Hostname) (authority : Hostname)
    (seen : List T) (best : Option T × ℤ) : Prop :=
  (∀ d ∈ seen, isAtOrUnder toLowerCase authority (normalizeHostname toLowerCase (domainName d)) →
    (utf16Length (normalizeHostname toLowerCase (domainName d)) : ℤ) ≤ best.2) ∧
  match best.1 with
  | none => best.2 = -1
  | some d => d ∈ seen ∧
      isAtOrUnder toLowerCase authority (normalizeHostname toLowerCase (domainName d)) ∧
      best.2 = utf16Length (normalizeHostname toLowerCase (domainName d))

theorem Best.pickLonger {authority : Hostname} {seen : List T} {best : Option T × ℤ}
    (h : Best toLowerCase domainName authority seen best) (domain : T) :
    Best toLowerCase domainName authority (seen ++ [domain])
      (pickLonger toLowerCase domainName authority best domain) := by
  obtain ⟨hmax, hbest⟩ := h
  have hkeep : (isAtOrUnder toLowerCase authority (normalizeHostname toLowerCase (domainName domain)) →
      (utf16Length (normalizeHostname toLowerCase (domainName domain)) : ℤ) ≤ best.2) →
      Best toLowerCase domainName authority (seen ++ [domain]) best := by
    intro hnew
    constructor
    · intro d hd hunder
      rcases List.mem_append.mp hd with hd | hd
      · exact hmax d hd hunder
      · cases List.mem_singleton.mp hd
        exact hnew hunder
    · split
      · next hnone =>
        rw [hnone] at hbest
        exact hbest
      · next d hsome =>
        rw [hsome] at hbest
        exact ⟨List.mem_append_left _ hbest.1, hbest.2⟩
  unfold WildcardHostname.pickLonger
  dsimp only
  split
  · next hnot => exact hkeep (fun hunder => absurd hunder hnot)
  · next hunder =>
    split
    · next hlonger =>
      refine ⟨?_, by simp, not_not.mp hunder, rfl⟩
      intro d hd hunder'
      rcases List.mem_append.mp hd with hd | hd
      · have hle := hmax d hd hunder'
        dsimp only
        omega
      · cases List.mem_singleton.mp hd
        exact le_refl _
    · next hshorter => exact hkeep (fun _ => by omega)

theorem best_foldl (authority : Hostname) (domains seen : List T) (best : Option T × ℤ)
    (h : Best toLowerCase domainName authority seen best) :
    Best toLowerCase domainName authority (seen ++ domains)
      (domains.foldl (pickLonger toLowerCase domainName authority) best) := by
  induction domains generalizing seen best with
  | nil => simpa using h
  | cons d domains ih =>
    rw [List.foldl_cons, List.append_cons]
    exact ih _ _ (h.pickLonger d)

theorem longestMatchingDomain_some {hostname : Hostname} {domains : List T} {d : T}
    (h : longestMatchingDomain toLowerCase domainName hostname domains = some d) : d ∈ domains ∧
      isAtOrUnder toLowerCase (authorityName toLowerCase hostname)
        (normalizeHostname toLowerCase (domainName d)) ∧
      ∀ d' ∈ domains, isAtOrUnder toLowerCase (authorityName toLowerCase hostname)
          (normalizeHostname toLowerCase (domainName d')) →
        utf16Length (normalizeHostname toLowerCase (domainName d')) ≤
          utf16Length (normalizeHostname toLowerCase (domainName d)) := by
  have hstart : Best toLowerCase domainName (authorityName toLowerCase hostname) [] (none, -1) :=
    ⟨by simp, rfl⟩
  have hbest := best_foldl _ domains [] _ hstart
  rw [List.nil_append] at hbest
  obtain ⟨hmax, hsome⟩ := hbest
  unfold longestMatchingDomain at h
  rw [h] at hsome
  obtain ⟨hmem, hunder, hlength⟩ := hsome
  refine ⟨hmem, hunder, ?_⟩
  intro d' hd' hunder'
  have hle := hmax d' hd' hunder'
  omega

theorem longestMatchingDomain_none {hostname : Hostname} {domains : List T}
    (h : longestMatchingDomain toLowerCase domainName hostname domains = none) :
    ∀ d ∈ domains, ¬isAtOrUnder toLowerCase (authorityName toLowerCase hostname)
      (normalizeHostname toLowerCase (domainName d)) := by
  have hstart : Best toLowerCase domainName (authorityName toLowerCase hostname) [] (none, -1) :=
    ⟨by simp, rfl⟩
  have hbest := best_foldl _ domains [] _ hstart
  rw [List.nil_append] at hbest
  obtain ⟨hmax, hnone⟩ := hbest
  unfold longestMatchingDomain at h
  rw [h] at hnone
  intro d hd hunder
  have hle := hmax d hd hunder
  omega

theorem map_intercalate_dots (labels : List Hostname) :
    (['.'].intercalate labels).map Char.toLower =
      ['.'].intercalate (labels.map fun label => label.map Char.toLower) := by
  induction labels with
  | nil => rfl
  | cons label labels ih =>
    cases labels with
    | nil => simp
    | cons next labels =>
      simp only [List.map_cons] at ih
      simp only [List.map_cons, List.intercalate_cons_cons, List.map_append, ih, List.map_nil]
      rfl

theorem settles_of_domainNameRegex (hlower : Lowers toLowerCase) {name : Hostname}
    (h : domainNameRegex name) : Settles toLowerCase name := by
  obtain ⟨labels, last, rfl, -, hlabels, hlength, hletters⟩ := h
  have hlast : PlainLabel (last.map Char.toLower) := by
    have halnum : ∀ c ∈ last, alnum c.toLower = true := by
      intro c hc
      have hnat := toNat_toLower c
      have hrange : 97 ≤ c.toLower.toNat ∧ c.toLower.toNat ≤ 122 := by
        rcases hletters c hc with ⟨h₁, h₂⟩ | ⟨h₁, h₂⟩
        · have h₁' : 97 ≤ c.toNat := h₁
          have h₂' : c.toNat ≤ 122 := h₂
          split at hnat <;> omega
        · have h₁' : 65 ≤ c.toNat := h₁
          have h₂' : c.toNat ≤ 90 := h₂
          split at hnat <;> omega
      unfold alnum
      simp only [Bool.or_eq_true, Bool.and_eq_true, decide_eq_true_eq]
      exact .inl hrange
    constructor
    · intro c hc
      obtain ⟨letter, hletter, rfl⟩ := List.mem_map.mp hc
      simp [plainChar, halnum letter hletter]
    · have hne : last ≠ [] := by
        rintro rfl
        simp at hlength
      refine ⟨(last.getLast hne).toLower, ?_, halnum _ (List.getLast_mem hne)⟩
      rw [List.getLast?_map, List.getLast?_eq_some_getLast hne]
      rfl
  have hplain : PlainLabel ((['.'].intercalate (labels ++ [last])).map Char.toLower) := by
    rw [map_intercalate_dots]
    apply plainLabel_intercalate (by simp)
    intro lower hlower
    obtain ⟨label, hmem, rfl⟩ := List.mem_map.mp hlower
    rcases List.mem_append.mp hmem with hmem | hmem
    · exact plainLabel_of_regex (hlabels label hmem)
    · cases List.mem_singleton.mp hmem
      exact hlast
  obtain ⟨hchars, final, hfinal, halnum⟩ := hplain
  have hdot : final ≠ '.' := by
    rintro rfl
    exact absurd halnum (by decide)
  have hmap : normalizeHostname toLowerCase (['.'].intercalate (labels ++ [last])) =
      (['.'].intercalate (labels ++ [last])).map Char.toLower := by
    apply normalizeHostname_ascii hlower
    · intro c hc
      have hnat := toNat_plainChar (hchars _ (List.mem_map_of_mem hc))
      rw [toNat_toLower] at hnat
      split at hnat <;> omega
    · intro hlastDot
      rw [List.getLast?_map, hlastDot] at hfinal
      cases hfinal
      exact absurd rfl hdot
  rw [Settles, hmap]
  exact normalizeHostname_plain hlower hchars (by rw [hfinal]; simpa using hdot)

end Longest

/-! ## Routes -/

section Routes

variable {toLowerCase : Hostname → Hostname} {hostname domain h : Hostname}

theorem certDnsNames_of_ok (hok : validateRouteHostname toLowerCase hostname domain = .ok h) :
    certDnsNamesForHostname toLowerCase hostname = h :: (wildcardBase toLowerCase h).toList := by
  rw [certDnsNamesForHostname, ← (validateRouteHostname_ok hok).1]

theorem certDnsNames_under (hlower : Lowers toLowerCase)
    (hok : validateRouteHostname toLowerCase hostname domain = .ok h) :
    ∀ name ∈ certDnsNamesForHostname toLowerCase hostname,
      isAtOrUnder toLowerCase name (normalizeHostname toLowerCase domain) := by
  obtain ⟨-, -, -, hunder⟩ := validateRouteHostname_ok hok
  obtain ⟨hself, hcases⟩ := normal_of_ok hlower hok
  rw [certDnsNames_of_ok hok]
  intro name hname
  rcases hcases with ⟨base, rfl, hbase, hnormal, -⟩ | ⟨hnone, -⟩
  · rw [hbase, Option.getD_some] at hunder
    rw [hbase] at hname
    rcases List.mem_cons.mp hname with rfl | hname
    · rw [isAtOrUnder_iff, hnormal] at hunder
      rw [isAtOrUnder_iff, hself]
      exact hunder.trans (List.suffix_cons '*' _)
    · cases List.mem_singleton.mp hname
      exact hunder
  · rw [hnone] at hname hunder
    cases List.mem_singleton.mp hname
    exact hunder

theorem matched_under (hlower : Lowers toLowerCase)
    (hok : validateRouteHostname toLowerCase hostname domain = .ok h) {concrete : Hostname}
    (hconcrete : ¬isWildcardHostname toLowerCase concrete)
    (hmatch : wildcardMatchesHostname toLowerCase hostname concrete) :
    isAtOrUnder toLowerCase concrete (normalizeHostname toLowerCase domain) ∧
      ∃ name ∈ certDnsNamesForHostname toLowerCase hostname,
        sanCoversHostname toLowerCase name concrete := by
  obtain ⟨rfl, -, -, hunder⟩ := validateRouteHostname_ok hok
  obtain ⟨hself, hcases⟩ := normal_of_ok hlower hok
  rw [certDnsNames_of_ok hok]
  unfold wildcardMatchesHostname at hmatch
  dsimp only at hmatch
  generalize hh : normalizeHostname toLowerCase hostname = h at *
  rcases hcases with ⟨base, rfl, hbase, hnormal, hwild⟩ | ⟨hnone, hexact⟩
  · rw [if_pos hwild] at hmatch
    refine ⟨?_, _, List.mem_cons_self, hmatch⟩
    rw [hbase, Option.getD_some, isAtOrUnder_iff, hnormal] at hunder
    rcases hmatch with heq | ⟨-, base', hbase', hsuffix, -⟩
    · -- the wildcard itself is no concrete name
      exfalso
      apply hconcrete
      unfold isWildcardHostname at hwild ⊢
      rw [← heq]
      exact hwild
    · rw [hself, hbase] at hbase'
      cases hbase'
      exact hunder.trans hsuffix
  · rw [if_neg hexact] at hmatch
    rw [hnone, Option.getD_none] at hunder
    rw [isAtOrUnder_iff, hself] at hunder
    refine ⟨?_, _, List.mem_cons_self, .inl ?_⟩
    · rw [isAtOrUnder_iff, ← hmatch]
      exact hunder
    · rw [hself, hmatch]

theorem under_of_authority (hlower : Lowers toLowerCase)
    (hok : validateRouteHostname toLowerCase hostname domain = .ok h) {parent : Hostname}
    (hunder : isAtOrUnder toLowerCase (authorityName toLowerCase hostname) parent) :
    isAtOrUnder toLowerCase hostname parent := by
  obtain ⟨rfl, -⟩ := validateRouteHostname_ok hok
  obtain ⟨hself, hcases⟩ := normal_of_ok hlower hok
  have hbases : wildcardBase toLowerCase hostname =
      wildcardBase toLowerCase (normalizeHostname toLowerCase hostname) := by
    have hwild : isWildcardHostname toLowerCase (normalizeHostname toLowerCase hostname) ↔
        isWildcardHostname toLowerCase hostname := by
      unfold isWildcardHostname
      rw [hself]
    simp only [wildcardBase, hwild, hself]
  unfold authorityName at hunder
  rw [hbases] at hunder
  rcases hcases with ⟨base, heq, hbase, hnormal, -⟩ | ⟨hnone, -⟩
  · rw [hbase, Option.getD_some, isAtOrUnder_iff, hnormal] at hunder
    rw [isAtOrUnder_iff, heq]
    exact hunder.trans (List.suffix_cons '*' _)
  · rw [hnone, Option.getD_none, isAtOrUnder_iff, hself] at hunder
    exact hunder

variable {T : Type} (domainName : T → Hostname)

/-- What an accepted route matches and asks certificates for stays at or under its domain, what it
matches is covered, and the longest domain does not depend on the order. -/
theorem routes_within (hlower : Lowers toLowerCase) :
    (∀ hostname domain h, validateRouteHostname toLowerCase hostname domain = .ok h →
      (∀ name ∈ certDnsNamesForHostname toLowerCase hostname,
        isAtOrUnder toLowerCase name (normalizeHostname toLowerCase domain)) ∧
      ∀ concrete, ¬isWildcardHostname toLowerCase concrete →
        wildcardMatchesHostname toLowerCase hostname concrete →
        isAtOrUnder toLowerCase concrete (normalizeHostname toLowerCase domain) ∧
          ∃ name ∈ certDnsNamesForHostname toLowerCase hostname,
            sanCoversHostname toLowerCase name concrete) ∧
    ∀ hostname (domains : List T), (∀ d ∈ domains, Settles toLowerCase (domainName d)) →
      (∀ domains' : List T, domains.Perm domains' →
        (longestMatchingDomain toLowerCase domainName hostname domains).map
            (fun d => normalizeHostname toLowerCase (domainName d)) =
          (longestMatchingDomain toLowerCase domainName hostname domains').map
            (fun d => normalizeHostname toLowerCase (domainName d))) ∧
      (∀ d, longestMatchingDomain toLowerCase domainName hostname domains = some d →
        d ∈ domains ∧ isAtOrUnder toLowerCase (authorityName toLowerCase hostname) (domainName d) ∧
        (∀ domain h, validateRouteHostname toLowerCase hostname domain = .ok h →
          isAtOrUnder toLowerCase hostname (domainName d)) ∧
        ∀ d' ∈ domains,
          isAtOrUnder toLowerCase (authorityName toLowerCase hostname) (domainName d') →
          utf16Length (normalizeHostname toLowerCase (domainName d')) ≤
            utf16Length (normalizeHostname toLowerCase (domainName d))) ∧
      (longestMatchingDomain toLowerCase domainName hostname domains = none →
        ∀ d ∈ domains,
          ¬isAtOrUnder toLowerCase (authorityName toLowerCase hostname) (domainName d)) := by
  constructor
  · intro hostname domain h hok
    exact ⟨certDnsNames_under hlower hok,
      fun concrete hconcrete hmatch => matched_under hlower hok hconcrete hmatch⟩
  · intro hostname domains hdomains
    have hunder : ∀ d ∈ domains, ∀ name,
        isAtOrUnder toLowerCase name (normalizeHostname toLowerCase (domainName d)) ↔
          isAtOrUnder toLowerCase name (domainName d) := by
      intro d hd name
      rw [isAtOrUnder_iff, isAtOrUnder_iff, hdomains d hd]
    refine ⟨?_, ?_, ?_⟩
    · intro domains' hperm
      cases hd : longestMatchingDomain toLowerCase domainName hostname domains with
      | none =>
        have hno := longestMatchingDomain_none hd
        cases hd' : longestMatchingDomain toLowerCase domainName hostname domains' with
        | none => rfl
        | some d' =>
          obtain ⟨hmem, hmatch, -⟩ := longestMatchingDomain_some hd'
          exact absurd hmatch (hno d' (hperm.mem_iff.mpr hmem))
      | some d =>
        obtain ⟨hmem, hmatch, hmax⟩ := longestMatchingDomain_some hd
        cases hd' : longestMatchingDomain toLowerCase domainName hostname domains' with
        | none =>
          exact absurd hmatch (longestMatchingDomain_none hd' d (hperm.mem_iff.mp hmem))
        | some d' =>
          obtain ⟨hmem', hmatch', hmax'⟩ := longestMatchingDomain_some hd'
          have hle := hmax d' (hperm.mem_iff.mpr hmem') hmatch'
          have hge := hmax' d (hperm.mem_iff.mp hmem) hmatch
          rw [hunder d hmem, isAtOrUnder_iff] at hmatch
          rw [hunder d' (hperm.mem_iff.mpr hmem'), isAtOrUnder_iff] at hmatch'
          simp only [Option.map_some]
          rw [hmatch.unique hmatch' (Nat.le_antisymm hge hle)]
    · intro d hd
      obtain ⟨hmem, hmatch, hmax⟩ := longestMatchingDomain_some hd
      have hmatch' := (hunder d hmem _).mp hmatch
      refine ⟨hmem, hmatch', fun domain h hok => under_of_authority hlower hok hmatch', ?_⟩
      intro d' hd' hunder'
      exact hmax d' hd' ((hunder d' hd' _).mpr hunder')
    · intro hnone d hd hunder'
      exact longestMatchingDomain_none hnone d hd ((hunder d hd _).mpr hunder')

end Routes

theorem lowers_map : Lowers (List.map Char.toLower) := fun _ _ => rfl

/-- A wildcard below a domain and a domain below it. -/
theorem routes_within_example :
    validateRouteHostname (List.map Char.toLower) "*.A.example.test.".toList "example.test".toList =
      .ok "*.a.example.test".toList ∧
    (∀ name ∈ certDnsNamesForHostname (List.map Char.toLower) "*.A.example.test.".toList,
      isAtOrUnder (List.map Char.toLower) name
        (normalizeHostname (List.map Char.toLower) "example.test".toList)) ∧
    longestMatchingDomain (List.map Char.toLower) id "*.a.example.test".toList
      ["example.test".toList, "a.example.test".toList] = some "a.example.test".toList ∧
    isAtOrUnder (List.map Char.toLower) "a.example.test".toList "a.example.test".toList := by
  have hok : validateRouteHostname (List.map Char.toLower) "*.A.example.test.".toList
      "example.test".toList = .ok "*.a.example.test".toList := by rfl
  have hroutes := routes_within (id : Hostname → Hostname) lowers_map
  have hdomains : ∀ d ∈ ["example.test".toList, "a.example.test".toList],
      Settles (List.map Char.toLower) d := by
    intro d hd
    apply settles_of_domainNameRegex lowers_map
    simp only [List.mem_cons, List.not_mem_nil, or_false] at hd
    rcases hd with rfl | rfl
    · exact ⟨["example".toList], "test".toList, rfl, by simp, by decide, by decide, by decide⟩
    · exact ⟨["a".toList, "example".toList], "test".toList, rfl, by simp, by decide, by decide,
        by decide⟩
  have hlongest : longestMatchingDomain (List.map Char.toLower) id "*.a.example.test".toList
      ["example.test".toList, "a.example.test".toList] = some "a.example.test".toList := by rfl
  exact ⟨hok, (hroutes.1 _ _ _ hok).1, hlongest, ((hroutes.2 _ _ hdomains).2.1 _ hlongest).2.1⟩

end Insula.WildcardHostname
