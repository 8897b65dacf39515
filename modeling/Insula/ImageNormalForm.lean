import Insula.ImageReference
import Insula.DnsNames

/-!
# The normal form of an image reference

One image can be written in several ways, and a reference written back from what was parsed is
meant to be the same for all of them. Docker's own rules say which texts mean the same image.
-/

namespace Insula.CustomDeployments

open Javascript
open DnsServers (mem_splitOn trim_cases trim_eq_self)

def suffix (mark : Char) : Option Text → Text
  | some (c :: rest) => mark :: c :: rest
  | _ => []

def formatImageReference (ref : ParsedImageReference) : Text :=
  ref.registryHost ++ '/' :: ref.repository ++ suffix ':' ref.tag ++ suffix '@' ref.digest

def cacheKey (ref : ParsedImageReference) : Text × Text × Text :=
  (ref.registryHost ++ '/' :: ref.repository, ref.registryHost, ref.tag.getD "latest".toList)

/-! ## Docker's rules -/

def defaultDomain : Text := "docker.io".toList

def legacyDomain : Text := "index.docker.io".toList

def looksLikeHost (first : Text) : Prop :=
  '.' ∈ first ∨ ':' ∈ first ∨ first = "localhost".toList

instance (first : Text) : Decidable (looksLikeHost first) := inferInstanceAs (Decidable (_ ∨ _))

/-- The default registry under its old name, and a name without a namespace on it, made explicit. -/
def completeDomain (domain remote : Text) : Text × Text :=
  let domain := if domain = legacyDomain then defaultDomain else domain
  (domain, if domain = defaultDomain ∧ '/' ∉ remote then "library/".toList ++ remote else remote)

def splitDockerDomain (name : Text) : Text × Text :=
  match cutFirst '/' name with
  | none => (defaultDomain, "library/".toList ++ name)
  | some (first, rest) =>
    if looksLikeHost first ∨ first.any Char.isUpper then completeDomain first rest
    else completeDomain defaultDomain name

structure Spelled (s name : Text) (tag digest : Option Text) : Prop where
  text : s = name ++ suffix ':' tag ++ suffix '@' digest
  tagText : ∀ t ∈ tag, tagRegex t
  digestText : ∀ d ∈ digest, digestRegex d
  port : ∀ before after, name = before ++ ':' :: after → '/' ∈ after
  bare : digest = none → '@' ∉ name

def Denotes (raw : Text) (image : ParsedImageReference) : Prop :=
  ∃ name, Spelled (trim raw) name image.tag image.digest ∧
    splitDockerDomain name = (image.registryHost, image.repository)

def SameImage (raw raw' : Text) : Prop := ∃ image, Denotes raw image ∧ Denotes raw' image

structure NormalForm (raw : Text) (ref : ParsedImageReference) : Prop where
  reparsed : parseImageReference (formatImageReference ref) = some ref
  resolved : Denotes raw ref
  namespaced : ref.registryHost = defaultDomain → '/' ∈ ref.repository

/-- The default registry is written out, by its old name or before a name without a namespace. -/
def ExplicitDefault (s : Text) : Bool :=
  (cutFirst '/' s).any fun (first, rest) =>
    first = legacyDomain || (first = defaultDomain && '/' ∉ rest)

def completed (s : Text) : Text :=
  match cutFirst '/' s with
  | none => defaultDomain ++ "/library/".toList ++ s
  | some (first, _) => if looksLikeHost first then s else defaultDomain ++ '/' :: s

/-! ## Cutting a text in two -/

variable {c : Char} {b s a repository before : Text} {tag digest : Option Text}

theorem cutLast_append (a : Text) (h : c ∉ b) : cutLast c (a ++ c :: b) = some (a, b) := by
  have hb : ∀ x ∈ b.reverse, (decide (x ≠ c)) = true := by
    intro x hx
    exact decide_eq_true fun hxc => h (hxc ▸ List.mem_reverse.mp hx)
  have hreverse : (a ++ c :: b).reverse = b.reverse ++ c :: a.reverse := by simp
  rw [cutLast, if_pos (by simp), List.rdropWhile, List.rtakeWhile, hreverse,
    List.dropWhile_append_of_pos hb, List.takeWhile_append_of_pos hb]
  simp

theorem of_cutLast (h : cutLast c s = some (a, b)) : s = a ++ c :: b ∧ c ∉ b := by
  have hmem : c ∈ s := by
    by_contra hmem
    rw [cutLast, if_neg hmem] at h
    cases h
  obtain ⟨after, before, hs, hafter⟩ := List.eq_append_cons_of_mem (List.mem_reverse.mpr hmem)
  have heq : s = before.reverse ++ c :: after.reverse := by
    rw [← List.reverse_reverse s, hs]
    simp
  have hnot : c ∉ after.reverse := fun hc => hafter (List.mem_reverse.mp hc)
  rw [heq, cutLast_append before.reverse hnot] at h
  cases h
  exact ⟨heq, hnot⟩

theorem cutFirst_append (b : Text) (h : c ∉ a) : cutFirst c (a ++ c :: b) = some (a, b) := by
  have ha : ∀ x ∈ a, decide (x ≠ c) = true := by
    intro x hx
    exact decide_eq_true fun hxc => h (hxc ▸ hx)
  rw [cutFirst, if_pos (by simp), List.takeWhile_append_of_pos ha, List.dropWhile_append_of_pos ha]
  simp

theorem of_cutFirst (h : cutFirst c s = some (a, b)) : s = a ++ c :: b ∧ c ∉ a := by
  have hmem : c ∈ s := by
    by_contra hmem
    rw [cutFirst, if_neg hmem] at h
    cases h
  obtain ⟨before, after, hs, hbefore⟩ := List.eq_append_cons_of_mem hmem
  rw [hs, cutFirst_append after hbefore] at h
  cases h
  exact ⟨hs, hbefore⟩

theorem cutFirst_eq_none : cutFirst c s = none ↔ c ∉ s := by
  simp [cutFirst]

theorem cutLast_eq_none : cutLast c s = none ↔ c ∉ s := by
  simp [cutLast]

/-! ## The characters of the parts -/

def plainChar (c : Char) : Bool := wordChar c || c = '.' || c = '-'

theorem plainChar_ne (h : plainChar c = true) : c ≠ ':' ∧ c ≠ '/' ∧ c ≠ '@' := by
  refine ⟨?_, ?_, ?_⟩ <;> rintro rfl <;> revert h <;> decide

theorem plainChar_of_tagRegex {t : Text} (h : tagRegex t = true) : ∀ c ∈ t, plainChar c = true := by
  cases t with
  | nil => cases h
  | cons c rest =>
    simp only [tagRegex, Bool.and_eq_true, List.all_eq_true] at h
    intro d hd
    rcases List.mem_cons.mp hd with rfl | hd
    · simp [plainChar, h.1.1]
    · exact h.2 d hd

def segmentChar (c : Char) : Bool := WildcardHostname.alnum c || c = '.' || c = '_' || c = '-'

theorem alnum_cases (h : WildcardHostname.alnum c = true) :
    c.isAlphanum = true ∧ c.isUpper = false := by
  simp only [WildcardHostname.alnum, Bool.or_eq_true, Bool.and_eq_true, decide_eq_true_eq,
    Char.le_def, UInt32.le_iff_toNat_le] at h
  delta Char.isAlphanum Char.isAlpha Char.isLower Char.isUpper Char.isDigit
  simp only [Bool.or_eq_true, Bool.and_eq_true, decide_eq_true_eq, decide_eq_false_iff_not,
    UInt32.le_iff_toNat_le, ge_iff_le]
  simp only [Char.reduceVal, UInt32.reduceToNat] at h ⊢
  omega

theorem segmentChar_cases (h : segmentChar c = true) : plainChar c = true ∧ c.isUpper = false := by
  simp only [segmentChar, Bool.or_eq_true, decide_eq_true_eq] at h
  rcases h with ((h | rfl) | rfl) | rfl
  · obtain ⟨hword, hupper⟩ := alnum_cases h
    exact ⟨by simp [plainChar, wordChar, hword], hupper⟩
  · decide
  · decide
  · decide

theorem segmentChar_of_read {state next : SegmentState} (h : state.read c = some next) :
    segmentChar c = true := by
  by_cases halnum : WildcardHostname.alnum c = true
  · simp [segmentChar, halnum]
  · cases state with
    | separated => simp [SegmentState.read, halnum] at h
    | word =>
      simp only [SegmentState.read, halnum, Bool.false_eq_true, if_false] at h
      split_ifs at h <;> simp_all [segmentChar]
    | underscore =>
      simp only [SegmentState.read, halnum, Bool.false_eq_true, if_false] at h
      split_ifs at h
      simp_all [segmentChar]
    | hyphens =>
      simp only [SegmentState.read, halnum, Bool.false_eq_true, if_false] at h
      split_ifs at h
      simp_all [segmentChar]

theorem segmentChar_of_segmentFrom {state : SegmentState} {segment : Text}
    (h : segmentFrom state segment = true) : ∀ c ∈ segment, segmentChar c = true := by
  induction segment generalizing state with
  | nil => simp
  | cons c rest ih =>
    rw [segmentFrom, Option.any_eq_true] at h
    obtain ⟨next, hread, hrest⟩ := h
    intro d hd
    rcases List.mem_cons.mp hd with rfl | hd
    · exact segmentChar_of_read hread
    · exact ih hrest d hd

theorem repository_char (h : (repository.splitOn '/').all repoSegmentRegex = true) :
    ∀ c ∈ repository, c = '/' ∨ segmentChar c = true := by
  intro c hc
  by_cases hslash : c = '/'
  · exact .inl hslash
  · obtain ⟨part, hpart, hcpart⟩ := mem_splitOn hslash hc
    exact .inr (segmentChar_of_segmentFrom (List.all_eq_true.mp h part hpart) c hcpart)

theorem repository_ne (h : (repository.splitOn '/').all repoSegmentRegex = true) :
    ∀ c ∈ repository, c ≠ ':' ∧ c ≠ '@' ∧ c.isUpper = false := by
  intro c hc
  rcases repository_char h c hc with rfl | hsegment
  · decide
  · obtain ⟨hplain, hupper⟩ := segmentChar_cases hsegment
    exact ⟨(plainChar_ne hplain).1, (plainChar_ne hplain).2.2, hupper⟩

theorem digest_char {d : Text} (h : digestRegex d = true) : ∀ c ∈ d, c ≠ '@' ∧ c ≠ '/' := by
  simp only [digestRegex, Bool.and_eq_true, decide_eq_true_eq, List.all_eq_true] at h
  obtain ⟨⟨hscheme, -⟩, hhex⟩ := h
  obtain ⟨rest, rfl⟩ := List.isPrefixOf_iff_prefix.mp hscheme
  intro c hc
  rcases List.mem_append.mp hc with hc | hc
  · have hword : "sha256:".toList.all (fun c => c != '@' && c != '/') = true := by decide
    simpa using List.all_eq_true.mp hword c hc
  · have hlower : lowerHex c = true := hhex c (by simpa using hc)
    constructor <;> rintro rfl <;> revert hlower <;> decide

theorem suffix_of_tagRegex {t : Text} (h : tagRegex t = true) (mark : Char) :
    suffix mark (some t) = mark :: t := by
  cases t with
  | nil => cases h
  | cons c rest => rfl

theorem suffix_of_digestRegex {d : Text} (h : digestRegex d = true) (mark : Char) :
    suffix mark (some d) = mark :: d := by
  cases d with
  | nil => simp [digestRegex] at h
  | cons c rest => rfl

/-! ## Reading a reference -/

theorem Spelled.atSign {name : Text} (h : Spelled s name tag none) :
    '@' ∉ name ++ suffix ':' tag := by
  intro hat
  rcases List.mem_append.mp hat with hat | hat
  · exact h.bare rfl hat
  · cases tag with
    | none => cases hat
    | some t =>
      rw [suffix_of_tagRegex (h.tagText t rfl)] at hat
      rcases List.mem_cons.mp hat with hcolon | hat
      · exact absurd hcolon (by decide)
      · exact (plainChar_ne (plainChar_of_tagRegex (h.tagText t rfl) '@' hat)).2.2 rfl

theorem Spelled.splitDigest {name : Text} (h : Spelled s name tag digest) :
    splitDigest s = some (name ++ suffix ':' tag, digest) := by
  rw [h.text]
  cases digest with
  | none =>
    rw [show suffix '@' none = [] from rfl, List.append_nil, CustomDeployments.splitDigest,
      cutLast_eq_none.mpr h.atSign]
  | some d =>
    have hd := h.digestText d rfl
    have hat : '@' ∉ d := fun hc => (digest_char hd '@' hc).1 rfl
    simp only [suffix_of_digestRegex hd, CustomDeployments.splitDigest, cutLast_append _ hat, hd,
      if_true]

theorem Spelled.splitTag {name : Text} (h : Spelled s name tag digest) :
    splitTag (name ++ suffix ':' tag) = some (name, tag) := by
  cases tag with
  | none =>
    rw [show suffix ':' none = [] from rfl, List.append_nil, CustomDeployments.splitTag]
    cases hcut : cutLast ':' name with
    | none => rfl
    | some parts =>
      obtain ⟨hname, -⟩ := of_cutLast (a := parts.1) (b := parts.2) hcut
      have hslash := h.port parts.1 parts.2 hname
      simp only [hslash, if_true]
  | some t =>
    have ht := h.tagText t rfl
    have hcolon : ':' ∉ t := fun hc => (plainChar_ne (plainChar_of_tagRegex ht _ hc)).1 rfl
    have hslash : '/' ∉ t := fun hc => (plainChar_ne (plainChar_of_tagRegex ht _ hc)).2.1 rfl
    simp only [suffix_of_tagRegex ht, CustomDeployments.splitTag, cutLast_append _ hcolon, hslash,
      ht, if_false, if_true]

/-- A text is divided in one way only. -/
theorem Spelled.unique {name name' : Text} {tag' digest' : Option Text}
    (h : Spelled s name tag digest) (h' : Spelled s name' tag' digest') :
    name' = name ∧ tag' = tag ∧ digest' = digest := by
  have hdigest := h'.splitDigest
  rw [h.splitDigest] at hdigest
  obtain ⟨hbefore, hd⟩ := Prod.ext_iff.mp (Option.some.inj hdigest)
  have htag := h'.splitTag
  rw [show name' ++ suffix ':' tag' = name ++ suffix ':' tag from hbefore.symm, h.splitTag] at htag
  obtain ⟨hname, ht⟩ := Prod.ext_iff.mp (Option.some.inj htag)
  exact ⟨hname.symm, ht.symm, hd.symm⟩

inductive Reading (name : Text) : Text → Text → Prop
  | bare (hname : '/' ∉ name) (hsegment : repoSegmentRegex name) :
      Reading name defaultDomain ("library/".toList ++ name)
  | hosted (first rest : Text) (hname : name = first ++ '/' :: rest) (hfirst : '/' ∉ first)
      (hhost : looksLikeHost first) (hsegments : (rest.splitOn '/').all repoSegmentRegex) :
      Reading name first rest
  | hostless (first rest : Text) (hname : name = first ++ '/' :: rest) (hfirst : '/' ∉ first)
      (hhost : ¬looksLikeHost first) (hsegments : (name.splitOn '/').all repoSegmentRegex) :
      Reading name defaultDomain name

theorem splitHost_iff {name host : Text} :
    splitHost name = some (host, repository) ↔ Reading name host repository := by
  constructor
  · intro h
    unfold splitHost at h
    cases hcut : cutFirst '/' name with
    | none =>
      simp only [hcut] at h
      split_ifs at h with hsegment
      cases h
      exact .bare (cutFirst_eq_none.mp hcut) hsegment
    | some parts =>
      obtain ⟨first, rest⟩ := parts
      obtain ⟨hname, hfirst⟩ := of_cutFirst hcut
      simp only [hcut] at h
      by_cases hhost : looksLikeHost first
      · simp only [show '.' ∈ first ∨ ':' ∈ first ∨ first = "localhost".toList from hhost,
          if_true] at h
        split_ifs at h with hsegments
        cases h
        exact .hosted _ _ hname hfirst hhost hsegments
      · simp only [show ¬('.' ∈ first ∨ ':' ∈ first ∨ first = "localhost".toList) from hhost,
          if_false] at h
        split_ifs at h with hsegments
        cases h
        exact .hostless first rest hname hfirst hhost hsegments
  · intro h
    unfold splitHost
    cases h with
    | bare hname hsegment =>
      simp only [cutFirst_eq_none.mpr hname, hsegment, if_true]
      rfl
    | hosted first rest hname hfirst hhost hsegments =>
      simp only [hname, cutFirst_append _ hfirst,
        show '.' ∈ host ∨ ':' ∈ host ∨ host = "localhost".toList from hhost, hsegments, if_true]
    | hostless first rest hname hfirst hhost hsegments =>
      simp only [hname, cutFirst_append _ hfirst,
        show ¬('.' ∈ first ∨ ':' ∈ first ∨ first = "localhost".toList) from hhost, if_false,
        show ((first ++ '/' :: rest).splitOn '/').all repoSegmentRegex = true from
          hname ▸ hsegments, if_true]
      rfl

theorem defaultDomain_char : ∀ c ∈ defaultDomain, c ≠ '/' ∧ c ≠ '@' := by
  have hword : defaultDomain.all (fun c => c != '/' && c != '@') = true := by decide
  intro c hc
  simpa using List.all_eq_true.mp hword c hc

theorem legacyDomain_ne : legacyDomain ≠ defaultDomain := by decide

namespace Reading

variable {name host repository : Text}

theorem host_slash (h : Reading name host repository) : '/' ∉ host := by
  cases h with
  | bare hname hsegment => exact fun hc => (defaultDomain_char _ hc).1 rfl
  | hosted _ _ hname hfirst hhost hsegments => assumption
  | hostless first rest hname hfirst hhost hsegments => exact fun hc => (defaultDomain_char _ hc).1 rfl

theorem looksLikeHost (h : Reading name host repository) : looksLikeHost host := by
  cases h with
  | bare hname hsegment => decide
  | hosted _ _ hname hfirst hhost hsegments => assumption
  | hostless first rest hname hfirst hhost hsegments => decide

theorem segments (h : Reading name host repository) :
    (repository.splitOn '/').all repoSegmentRegex = true := by
  cases h with
  | bare hname hsegment =>
    have hlibrary : "library/".toList ++ name = "library".toList ++ '/' :: name := rfl
    have hword : ("library".toList.splitOn '/').all repoSegmentRegex = true := by decide
    rw [hlibrary, List.splitOn_append_cons_self, List.splitOn_eq_singleton hname, List.all_append,
      hword]
    simpa using hsegment
  | hosted _ _ hname hfirst hhost hsegments => exact hsegments
  | hostless first rest hname hfirst hhost hsegments => exact hsegments

theorem qualified (h : Reading name host repository) :
    Reading (host ++ '/' :: repository) host repository :=
  .hosted host repository rfl h.host_slash h.looksLikeHost h.segments

theorem name_chars_of_bare (hname : '/' ∉ name) (hsegment : repoSegmentRegex name = true) :
    (name.splitOn '/').all repoSegmentRegex = true := by
  rw [List.splitOn_eq_singleton hname]
  simpa using hsegment

theorem port (h : Reading name host repository) :
    ∀ before after, name = before ++ ':' :: after → '/' ∈ after := by
  intro before after heq
  have hcolon : ':' ∈ name := by
    rw [heq]
    simp
  cases h with
  | bare hname hsegment =>
    exact absurd rfl (repository_ne (name_chars_of_bare hname hsegment) ':' hcolon).1
  | hosted _ _ hname hfirst hhost hsegments =>
    have hrest : ':' ∉ repository := fun hc => (repository_ne hsegments ':' hc).1 rfl
    rw [hname] at heq
    rcases List.append_eq_append_iff.mp heq with ⟨middle, -, hmiddle⟩ | ⟨middle, -, hmiddle⟩
    · have hmem : ':' ∈ '/' :: repository := by
        rw [hmiddle]
        simp
      rcases List.mem_cons.mp hmem with hslash | hmem
      · exact absurd hslash (by decide)
      · exact absurd hmem hrest
    · cases middle with
      | nil => exact absurd (List.cons.inj hmiddle).1 (by decide)
      | cons c middle =>
        rw [(List.cons.inj hmiddle).2]
        simp
  | hostless first rest hname hfirst hhost hsegments =>
    exact absurd rfl (repository_ne hsegments ':' hcolon).1

theorem atSign (h : Reading name host repository) (hname : '@' ∉ name) :
    '@' ∉ host ++ '/' :: repository := by
  have hrepository : '@' ∉ repository := fun hc => (repository_ne h.segments '@' hc).2.1 rfl
  have hhost : '@' ∉ host := by
    cases h with
    | bare hname hsegment => exact fun hc => (defaultDomain_char _ hc).2 rfl
    | hosted _ _ heq hfirst hhost hsegments => exact fun hc => hname (by simp [heq, hc])
    | hostless first rest heq hfirst hhost hsegments =>
      exact fun hc => (defaultDomain_char _ hc).2 rfl
  simp [hhost, hrepository]

/-- What is left to Docker's rules behind the reading are the two spellings of the default. -/
theorem splitDockerDomain_eq (h : Reading name host repository) :
    splitDockerDomain name = completeDomain host repository := by
  unfold splitDockerDomain
  cases h with
  | bare hname hsegment =>
    rw [cutFirst_eq_none.mpr hname]
    simp [completeDomain]
  | hosted _ _ hname hfirst hhost hsegments =>
    simp only [hname, cutFirst_append _ hfirst, hhost, true_or, if_true]
  | hostless first rest hname hfirst hhost hsegments =>
    have hlower : first.any Char.isUpper = false := by
      rw [List.any_eq_false]
      intro c hc
      rw [(repository_ne hsegments c (by simp [hname, hc])).2.2]
      decide
    simp only [hname, cutFirst_append _ hfirst, hhost, hlower, Bool.false_eq_true, false_or,
      if_false]

variable {more : Text}

theorem completed_eq (h : Reading name host repository) (hmore : '/' ∉ more) :
    completed (name ++ more) = host ++ '/' :: repository ++ more := by
  unfold completed
  cases h with
  | bare hname hsegment =>
    rw [cutFirst_eq_none.mpr (by simp [hname, hmore])]
    simp
  | hosted _ _ hname hfirst hhost hsegments =>
    rw [hname, List.append_assoc, List.cons_append, cutFirst_append _ hfirst]
    simp only [hhost, if_true]
  | hostless first rest hname hfirst hhost hsegments =>
    rw [hname, List.append_assoc, List.cons_append, cutFirst_append _ hfirst]
    simp only [hhost, if_false]
    simp

theorem explicitDefault_iff (h : Reading name host repository) (hmore : '/' ∉ more) :
    ExplicitDefault (name ++ more) = true ↔
      host = legacyDomain ∨ (host = defaultDomain ∧ '/' ∉ repository) := by
  unfold ExplicitDefault
  cases h with
  | bare hname hsegment =>
    rw [cutFirst_eq_none.mpr (by simp [hname, hmore])]
    simp [legacyDomain_ne.symm]
  | hosted _ _ hname hfirst hhost hsegments =>
    rw [hname, List.append_assoc, List.cons_append, cutFirst_append _ hfirst]
    simp [hmore]
  | hostless first rest hname hfirst hhost hsegments =>
    rw [hname, List.append_assoc, List.cons_append, cutFirst_append _ hfirst]
    have hindex : first ≠ legacyDomain := fun heq => hhost (heq ▸ by decide)
    have hdocker : first ≠ defaultDomain := fun heq => hhost (heq ▸ by decide)
    simp [hindex, hdocker, legacyDomain_ne.symm]

end Reading

/-- A repository on the default registry gets the namespace that it lacks. -/
theorem completeDomain_eq_iff {domain remote : Text} :
    completeDomain domain remote = (domain, remote) ↔
      ¬(domain = legacyDomain ∨ (domain = defaultDomain ∧ '/' ∉ remote)) := by
  unfold completeDomain
  by_cases hlegacy : domain = legacyDomain
  · have hdomain : domain ≠ defaultDomain := fun h => legacyDomain_ne (hlegacy ▸ h)
    rw [if_pos hlegacy]
    exact iff_of_false (fun h => hdomain (Prod.ext_iff.mp h).1.symm) fun h => h (.inl hlegacy)
  · rw [if_neg hlegacy]
    by_cases hbare : domain = defaultDomain ∧ '/' ∉ remote
    · refine iff_of_false (fun h => ?_) fun h => h (.inr hbare)
      have hlength := congrArg List.length (Prod.ext_iff.mp h).2
      simp only [if_pos hbare, List.length_append] at hlength
      exact absurd hlength (by simp)
    · exact iff_of_true (by simp only [if_neg hbare]) fun h => h.elim hlegacy hbare

theorem slash_mem_completeDomain {domain remote : Text}
    (h : (completeDomain domain remote).1 = defaultDomain) :
    '/' ∈ (completeDomain domain remote).2 := by
  unfold completeDomain at h ⊢
  simp only at h ⊢
  by_cases hslash : '/' ∈ remote
  · simp [h, hslash]
  · simp only [h, hslash, not_false_eq_true, and_self, if_true]
    exact List.mem_append_left _ (by decide)

theorem suffixes_slash {name : Text} (h : Spelled s name tag digest) :
    '/' ∉ suffix ':' tag ++ suffix '@' digest := by
  intro hslash
  rcases List.mem_append.mp hslash with hslash | hslash
  · cases tag with
    | none => cases hslash
    | some t =>
      rw [suffix_of_tagRegex (h.tagText t rfl)] at hslash
      rcases List.mem_cons.mp hslash with hcolon | hslash
      · exact absurd hcolon (by decide)
      · exact (plainChar_ne (plainChar_of_tagRegex (h.tagText t rfl) '/' hslash)).2.1 rfl
  · cases digest with
    | none => cases hslash
    | some d =>
      rw [suffix_of_digestRegex (h.digestText d rfl)] at hslash
      rcases List.mem_cons.mp hslash with hat | hslash
      · exact absurd hat (by decide)
      · exact (digest_char (h.digestText d rfl) '/' hslash).2 rfl

theorem of_splitDigest (h : splitDigest s = some (before, digest)) :
    s = before ++ suffix '@' digest ∧ (∀ d ∈ digest, digestRegex d) ∧ (digest = none → '@' ∉ s) := by
  unfold splitDigest at h
  cases hcut : cutLast '@' s with
  | none =>
    simp only [hcut] at h
    cases h
    exact ⟨(List.append_nil s).symm, by simp, fun _ => cutLast_eq_none.mp hcut⟩
  | some parts =>
    obtain ⟨hs, -⟩ := of_cutLast (a := parts.1) (b := parts.2) hcut
    simp only [hcut] at h
    split_ifs at h with hregex
    cases h
    refine ⟨?_, by simpa using hregex, by simp⟩
    rw [suffix_of_digestRegex hregex]
    exact hs

theorem of_splitTag {name : Text} (h : splitTag before = some (name, tag)) :
    before = name ++ suffix ':' tag ∧ ∀ t ∈ tag, tagRegex t := by
  unfold splitTag at h
  cases hcut : cutLast ':' before with
  | none =>
    simp only [hcut] at h
    cases h
    exact ⟨(List.append_nil before).symm, by simp⟩
  | some parts =>
    obtain ⟨hbefore, -⟩ := of_cutLast (a := parts.1) (b := parts.2) hcut
    simp only [hcut] at h
    split_ifs at h with hslash hregex
    · cases h
      exact ⟨(List.append_nil before).symm, by simp⟩
    · cases h
      refine ⟨?_, by simpa using hregex⟩
      rw [suffix_of_tagRegex hregex]
      exact hbefore

theorem spelled_of_split {name : Text} (hdigest : splitDigest s = some (before, digest))
    (htag : splitTag before = some (name, tag))
    (hport : ∀ front after, name = front ++ ':' :: after → '/' ∈ after) :
    Spelled s name tag digest := by
  obtain ⟨hs, hdigestText, hbare⟩ := of_splitDigest hdigest
  obtain ⟨hbefore, htagText⟩ := of_splitTag htag
  refine ⟨by rw [hs, hbefore], htagText, hdigestText, hport, fun hnone hat => hbare hnone ?_⟩
  rw [hs, hbefore]
  exact List.mem_append_left _ (List.mem_append_left _ hat)

/-- What an accepted text is: not empty, not too long, a name that can be read, and its suffixes. -/
theorem parseImageReference_iff {raw : Text} {ref : ParsedImageReference} :
    parseImageReference raw = some ref ↔ trim raw ≠ [] ∧ utf16Length (trim raw) ≤ 500 ∧
        ∃ name, Spelled (trim raw) name ref.tag ref.digest ∧
          Reading name ref.registryHost ref.repository := by
  unfold parseImageReference
  simp only
  by_cases hlimits : trim raw = [] ∨ utf16Length (trim raw) > 500
  · rw [if_pos hlimits]
    apply iff_of_false (by simp)
    rintro ⟨hnil, hlength, -⟩
    rcases hlimits with hempty | hlong
    · exact hnil hempty
    · omega
  · rw [if_neg hlimits]
    rw [not_or, not_lt] at hlimits
    constructor
    · intro h
      simp only [Option.bind_eq_bind, Option.bind_eq_some_iff, Option.pure_def] at h
      obtain ⟨⟨before, digest⟩, hdigest, ⟨name, tag⟩, htag, ⟨host, repository⟩, hhost, href⟩ := h
      cases href
      have hreading := splitHost_iff.mp hhost
      exact ⟨hlimits.1, hlimits.2, name, spelled_of_split hdigest htag hreading.port, hreading⟩
    · rintro ⟨-, -, name, hspelled, hreading⟩
      simp only [hspelled.splitDigest, Option.bind_eq_bind, Option.bind_some, hspelled.splitTag,
        splitHost_iff.mpr hreading, Option.pure_def]

/-! ## The written form -/

theorem defaultDomain_head (rest : Text) :
    ∀ c ∈ (defaultDomain ++ rest).head?, isSpace c = false := by
  intro c hc
  have hfirst : c = 'd' := (Option.some.inj hc).symm
  rw [hfirst]
  decide

theorem trim_completed {raw : Text} (h : trim raw ≠ []) :
    trim (completed (trim raw)) = completed (trim raw) := by
  obtain ⟨_, _, -, -, -, hhead⟩ := trim_cases raw
  have hlast : isSpace ((trim raw).getLast h) = false :=
    Bool.eq_false_iff.mpr (List.rdropWhile_last_not isSpace _ h)
  have hadded : ∃ front, completed (trim raw) = front ++ trim raw ∧
      ∀ c ∈ (front ++ trim raw).head?, isSpace c = false := by
    unfold completed
    cases cutFirst '/' (trim raw) with
    | none =>
      refine ⟨defaultDomain ++ "/library/".toList, rfl, ?_⟩
      rw [List.append_assoc]
      exact defaultDomain_head _
    | some parts =>
      by_cases hhost : looksLikeHost parts.1
      · exact ⟨[], by simp [hhost], hhead⟩
      · refine ⟨defaultDomain ++ ['/'], by simp [hhost], ?_⟩
        rw [List.append_assoc]
        exact defaultDomain_head _
  obtain ⟨front, heq, hfirst⟩ := hadded
  rw [heq]
  apply trim_eq_self (by simp [h]) hfirst
  rw [List.getLast_append_of_ne_nil _ h]
  exact hlast

section Accepted

variable {raw : Text} {ref : ParsedImageReference} (h : parseImageReference raw = some ref)
include h

theorem formatImageReference_eq : formatImageReference ref = completed (trim raw) := by
  obtain ⟨-, -, name, hspelled, hreading⟩ := parseImageReference_iff.mp h
  rw [hspelled.text, List.append_assoc, hreading.completed_eq (suffixes_slash hspelled)]
  simp [formatImageReference]

/-- The written form is read back unless it has become too long. -/
theorem reparsed_iff : parseImageReference (formatImageReference ref) = some ref ↔
      utf16Length (completed (trim raw)) ≤ 500 := by
  obtain ⟨hne, -, name, hspelled, hreading⟩ := parseImageReference_iff.mp h
  have htrim : trim (formatImageReference ref) = formatImageReference ref := by
    rw [formatImageReference_eq h]
    exact trim_completed hne
  rw [parseImageReference_iff, htrim, ← formatImageReference_eq h]
  constructor
  · intro hparsed
    exact hparsed.2.1
  · intro hlength
    refine ⟨by simp [formatImageReference], hlength, ref.registryHost ++ '/' :: ref.repository, ?_,
      hreading.qualified⟩
    exact ⟨rfl, hspelled.tagText, hspelled.digestText, hreading.qualified.port,
      fun hnone => hreading.atSign (hspelled.bare hnone)⟩

theorem denotes_iff {image : ParsedImageReference} :
    Denotes raw image ↔ image.tag = ref.tag ∧ image.digest = ref.digest ∧
      completeDomain ref.registryHost ref.repository = (image.registryHost, image.repository) := by
  obtain ⟨-, -, name, hspelled, hreading⟩ := parseImageReference_iff.mp h
  rw [← hreading.splitDockerDomain_eq]
  constructor
  · rintro ⟨name', hspelled', hdomain⟩
    obtain ⟨rfl, htag, hdigest⟩ := hspelled.unique hspelled'
    exact ⟨htag, hdigest, hdomain⟩
  · rintro ⟨htag, hdigest, hdomain⟩
    exact ⟨name, by rwa [htag, hdigest], hdomain⟩

theorem resolved_iff : Denotes raw ref ↔ ExplicitDefault (trim raw) = false := by
  obtain ⟨-, -, name, hspelled, hreading⟩ := parseImageReference_iff.mp h
  rw [denotes_iff h, ← Bool.not_eq_true, hspelled.text, List.append_assoc,
    hreading.explicitDefault_iff (suffixes_slash hspelled), ← completeDomain_eq_iff]
  simp

theorem normalForm_iff : NormalForm raw ref ↔
      ExplicitDefault (trim raw) = false ∧ utf16Length (completed (trim raw)) ≤ 500 := by
  constructor
  · intro hnormal
    exact ⟨(resolved_iff h).mp hnormal.resolved, (reparsed_iff h).mp hnormal.reparsed⟩
  · rintro ⟨hexplicit, hlength⟩
    have hresolved := (resolved_iff h).mpr hexplicit
    refine ⟨(reparsed_iff h).mpr hlength, hresolved, fun hhost => ?_⟩
    obtain ⟨-, -, hdomain⟩ := (denotes_iff h).mp hresolved
    have hslash : (completeDomain ref.registryHost ref.repository).1 = defaultDomain →
        '/' ∈ (completeDomain ref.registryHost ref.repository).2 := slash_mem_completeDomain
    rw [hdomain] at hslash
    exact hslash hhost

theorem denotes_unique : ∃! image, Denotes raw image := by
  refine ⟨⟨(completeDomain ref.registryHost ref.repository).1,
    (completeDomain ref.registryHost ref.repository).2, ref.tag, ref.digest⟩,
    (denotes_iff h).mpr ⟨rfl, rfl, rfl⟩, ?_⟩
  intro image himage
  obtain ⟨htag, hdigest, hdomain⟩ := (denotes_iff h).mp himage
  rw [hdomain, ← htag, ← hdigest]

end Accepted

theorem of_cacheKey_eq {ref ref' : ParsedImageReference} (h : cacheKey ref' = cacheKey ref) :
    ref'.registryHost = ref.registryHost ∧ ref'.repository = ref.repository := by
  obtain ⟨himage, hrest⟩ := Prod.ext_iff.mp h
  have hhost : ref'.registryHost = ref.registryHost := (Prod.ext_iff.mp hrest).1
  have htext : ref'.registryHost ++ '/' :: ref'.repository =
      ref.registryHost ++ '/' :: ref.repository := himage
  rw [hhost] at htext
  exact ⟨hhost, (List.cons.inj (List.append_cancel_left htext)).2⟩

/-- A reference has its normal form exactly when its text does not spell out the default registry
and is short enough with the defaults filled in. -/
theorem reference_normal_iff {raw : Text} {ref : ParsedImageReference}
    (h : parseImageReference raw = some ref) : (∃! image, Denotes raw image) ∧ (NormalForm raw ref ↔
      ExplicitDefault (trim raw) = false ∧ utf16Length (completed (trim raw)) ≤ 500) ∧
    ∀ raw' ref', parseImageReference raw' = some ref' → (cacheKey ref' = cacheKey ref →
        ref'.registryHost = ref.registryHost ∧ ref'.repository = ref.repository ∧
        ∀ image image', Denotes raw image → Denotes raw' image' →
          image'.registryHost = image.registryHost ∧ image'.repository = image.repository) ∧
      (SameImage raw raw' → ExplicitDefault (trim raw) = false →
        (ref' = ref ↔ ExplicitDefault (trim raw') = false) ∧
        (cacheKey ref' = cacheKey ref ↔ ExplicitDefault (trim raw') = false)) := by
  refine ⟨denotes_unique h, normalForm_iff h, ?_⟩
  intro raw' ref' h'
  constructor
  · intro hkey
    obtain ⟨hhost, hrepository⟩ := of_cacheKey_eq hkey
    refine ⟨hhost, hrepository, ?_⟩
    intro image image' himage himage'
    obtain ⟨-, -, hdomain⟩ := (denotes_iff h).mp himage
    obtain ⟨-, -, hdomain'⟩ := (denotes_iff h').mp himage'
    rw [hhost, hrepository, hdomain] at hdomain'
    exact ⟨(Prod.ext_iff.mp hdomain').1.symm, (Prod.ext_iff.mp hdomain').2.symm⟩
  · rintro ⟨image, himage, himage'⟩ hexplicit
    have href : image = ref := (denotes_unique h).unique himage ((resolved_iff h).mpr hexplicit)
    rw [href] at himage'
    have hequal : ref' = ref ↔ ExplicitDefault (trim raw') = false := by
      rw [← resolved_iff h']
      constructor
      · intro heq
        rwa [heq]
      · intro hresolved
        exact (denotes_unique h').unique hresolved himage'
    refine ⟨hequal, ?_⟩
    rw [← hequal]
    constructor
    · intro hkey
      obtain ⟨hhost, hrepository⟩ := of_cacheKey_eq hkey
      obtain ⟨htag, hdigest, -⟩ := (denotes_iff h').mp himage'
      cases ref
      cases ref'
      simp_all
    · intro heq
      rw [heq]

theorem nginx_parsed : parseImageReference "nginx:1.27".toList =
    some ⟨"docker.io".toList, "library/nginx".toList, some "1.27".toList, none⟩ := by
  rfl

theorem nginx_normal : NormalForm "nginx:1.27".toList
      ⟨"docker.io".toList, "library/nginx".toList, some "1.27".toList, none⟩ :=
  (reference_normal_iff nginx_parsed).2.1.mpr ⟨by decide, by decide⟩

/-- The default registry before a bare name: Docker's image is that of the name alone, what is
parsed has no namespace and another cache row. -/
theorem explicit_default_differs : parseImageReference "nginx".toList =
      some ⟨"docker.io".toList, "library/nginx".toList, none, none⟩ ∧
    parseImageReference "docker.io/nginx".toList =
      some ⟨"docker.io".toList, "nginx".toList, none, none⟩ ∧
    SameImage "nginx".toList "docker.io/nginx".toList ∧
    cacheKey ⟨"docker.io".toList, "library/nginx".toList, none, none⟩ ≠
      cacheKey ⟨"docker.io".toList, "nginx".toList, none, none⟩ := by
  have hbare : parseImageReference "nginx".toList =
      some ⟨"docker.io".toList, "library/nginx".toList, none, none⟩ := by rfl
  have hexplicit : parseImageReference "docker.io/nginx".toList =
      some ⟨"docker.io".toList, "nginx".toList, none, none⟩ := by rfl
  refine ⟨hbare, hexplicit, ?_, by decide⟩
  exact ⟨_, (resolved_iff hbare).mpr (by rfl),
    (denotes_iff hexplicit).mpr ⟨rfl, rfl, by rfl⟩⟩

end Insula.CustomDeployments
