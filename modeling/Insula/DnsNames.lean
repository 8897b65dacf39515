import Insula.Lowercase
import Insula.WildcardHostname
import Insula.XmlText

/-!
# Names of DNS records

`wire-format.ts`: a record's name is given relative to its zone, with the zone, or absolute with a
final dot, and `qualifyName` reads all three. The adapters of the providers each make the absolute
name that a record is published under; DNS compares names without the case of ASCII letters.
-/

namespace Insula.DnsServers

open Javascript Lowercase
open XmlText (Verbatim)
open scoped Lookup

abbrev Text := List Char

theorem lawfulBEq_text : LawfulBEq Text := inferInstance

scoped instance (priority := high) decidableMemTexts (s : Text) (texts : List Text) :
    Decidable (s ∈ texts) :=
  @List.instDecidableMemOfLawfulBEq Text _ lawfulBEq_text s texts

def DomainLabel (label : Text) : Prop :=
  label ≠ [] ∧ (∀ c ∈ label, c.isAlphanum ∨ c = '-') ∧ (∀ c ∈ label.head?, c.isAlphanum) ∧
    (∀ c ∈ label.getLast?, c.isAlphanum) ∧ label.length ≤ 63

instance (label : Text) : Decidable (DomainLabel label) := by
  unfold DomainLabel
  infer_instance

def domainNameRegex (s : Text) : Prop :=
  2 ≤ (s.splitOn '.').length ∧ (∀ label ∈ (s.splitOn '.').dropLast, DomainLabel label) ∧
    ∀ last ∈ (s.splitOn '.').getLast?, 2 ≤ last.length ∧ ∀ c ∈ last, c.isAlpha

instance (s : Text) : Decidable (domainNameRegex s) := by
  unfold domainNameRegex
  infer_instance

structure DomainName where
  text : Text
  regex : domainNameRegex text
  length : text.length ≤ 255

def fqdn (host : Text) : Text :=
  let trimmed := trim host
  if trimmed.getLast? = some '.' then trimmed else trimmed ++ ['.']

def stripDot (s : Text) : Text := if s.getLast? = some '.' then s.dropLast else s

section Functions

variable (lc : Lowering)

def qualifyName (zone name : Text) : Text :=
  let zoneFqdn := lc.toLowerCase (fqdn zone)
  let zoneBare := zoneFqdn.dropLast
  let raw := lc.toLowerCase (trim name)
  if raw = [] ∨ raw = ['@'] then zoneFqdn
  else if raw.getLast? = some '.' then raw
  else if raw = zoneBare then zoneFqdn
  else if ('.' :: zoneBare) <:+ raw then raw ++ ['.']
  else raw ++ '.' :: zoneFqdn

inductive Adapter
  | powerdns
  | rndc
  | cloudns
  | route53
  deriving DecidableEq

/-- `replace(/\.?zone$/, '')`, for a zone of letters, digits, hyphens and dots. -/
def stripZone (clean name : Text) : Text :=
  if ('.' :: clean) <:+ name then name.take (name.length - (clean.length + 1))
  else if clean <:+ name then name.take (name.length - clean.length)
  else name

def cloudnsHost (zone name : Text) : Text := stripZone (stripDot zone) (stripDot name)

def cloudnsName (zone name : Text) : Text :=
  let clean := stripDot zone
  let host := cloudnsHost zone name
  if host = [] then clean ++ ['.'] else host ++ '.' :: clean ++ ['.']

def route53Name (zone name : Text) : Text :=
  if name.getLast? = some '.' then name else name ++ '.' :: zone ++ ['.']

/-- The absolute name under which `createRecord` publishes a record. Route53 is sent a document, in
which the name stands between two tags as it is. -/
def publishedName (zone name : Text) : Adapter → Option Text
  | .powerdns => some (qualifyName lc zone name)
  | .rndc => some (qualifyName lc zone name)
  | .cloudns => some (cloudnsName zone name)
  | .route53 => XmlText.read (route53Name zone name)

def SameName (a b : Text) : Prop := foldCase a = foldCase b

instance (a b : Text) : Decidable (SameName a b) := inferInstanceAs (Decidable (_ = _))

end Functions

/-! ## Trimmed text -/

/-- What `trim` takes off is spaces, and what it leaves does not begin with one. -/
theorem trim_cases (s : Text) : ∃ before after, s = before ++ trim s ++ after ∧
    (∀ c ∈ before, isSpace c = true) ∧ (∀ c ∈ after, isSpace c = true) ∧
    ∀ c ∈ (trim s).head?, isSpace c = false := by
  refine ⟨s.takeWhile isSpace, (s.dropWhile isSpace).rtakeWhile isSpace, ?_, ?_, ?_, ?_⟩
  · rw [trim, List.append_assoc, List.rdropWhile_append_rtakeWhile, List.takeWhile_append_dropWhile]
  · intro c hc
    exact List.mem_takeWhile_imp hc
  · intro c hc
    exact List.mem_rtakeWhile_imp hc
  · intro c hc
    obtain ⟨rest, hrest⟩ := List.rdropWhile_prefix isSpace (l := s.dropWhile isSpace)
    have hhead : (s.dropWhile isSpace).head? = some c := by
      have hfirst : ((s.dropWhile isSpace).rdropWhile isSpace).head? = some c := hc
      rw [← hrest, List.head?_append, hfirst]
      rfl
    have hnot := List.head?_dropWhile_not isSpace s
    rw [hhead] at hnot
    simpa using hnot

variable {s : Text}

theorem trim_eq_self (hne : s ≠ []) (hhead : ∀ c ∈ s.head?, isSpace c = false)
    (hlast : isSpace (s.getLast hne) = false) : trim s = s := by
  have hfront : s.dropWhile isSpace = s := by
    cases s with
    | nil => rfl
    | cons c rest => rw [List.dropWhile_cons, hhead c rfl, if_neg (by decide)]
  rw [trim, hfront, List.rdropWhile_eq_self_iff]
  intro _
  rw [hlast]
  decide

theorem trim_of_not_isSpace (h : ∀ c ∈ s, isSpace c = false) : trim s = s := by
  obtain ⟨before, after, heq, hbefore, hafter, -⟩ := trim_cases s
  have hnil : ∀ part : Text, (∀ c ∈ part, isSpace c = true) → (∀ c ∈ part, c ∈ s) → part = [] := by
    intro part hspaces hmem
    by_contra hne
    obtain ⟨c, hc⟩ := List.exists_mem_of_ne_nil part hne
    have hspace := hspaces c hc
    rw [h c (hmem c hc)] at hspace
    cases hspace
  have hfirst := hnil before hbefore fun c hc => by
    rw [heq]
    simp [hc]
  have hlast := hnil after hafter fun c hc => by
    rw [heq]
    simp [hc]
  rw [hfirst, hlast, List.nil_append, List.append_nil] at heq
  exact heq.symm

theorem getLast?_trim {c : Char} (h : s.getLast? = some c) (hc : isSpace c = false) :
    (trim s).getLast? = some c := by
  obtain ⟨before, after, heq, hbefore, hafter, -⟩ := trim_cases s
  have hlast : after = [] := by
    by_contra hne
    have hmem : c ∈ after := by
      rw [heq, List.getLast?_append_of_ne_nil _ hne] at h
      exact List.mem_of_getLast? h
    have hspace := hafter c hmem
    rw [hc] at hspace
    cases hspace
  rw [hlast, List.append_nil] at heq
  rw [heq] at h
  by_cases hnil : trim s = []
  · rw [hnil, List.append_nil] at h
    have hspace := hbefore c (List.mem_of_getLast? h)
    rw [hc] at hspace
    cases hspace
  · rw [List.getLast?_append_of_ne_nil _ hnil] at h
    exact h

/-! ## Domain names -/

theorem mem_splitOn {c d : Char} (hne : c ≠ d) (h : c ∈ s) : ∃ part ∈ s.splitOn d, c ∈ part := by
  induction s with
  | nil => cases h
  | cons e s ih =>
    rw [List.splitOn_cons_eq_if_modifyHead]
    by_cases he : (e == d) = true
    · rw [if_pos he]
      have hs : c ∈ s := by
        rcases List.mem_cons.mp h with rfl | h
        · exact absurd (beq_iff_eq.mp he) hne
        · exact h
      obtain ⟨part, hpart, hc⟩ := ih hs
      exact ⟨part, List.mem_cons_of_mem _ hpart, hc⟩
    · rw [if_neg he]
      obtain ⟨head, tail, hsplit⟩ := List.exists_cons_of_ne_nil (List.splitOn_ne_nil d s)
      rw [hsplit] at ih ⊢
      rw [List.modifyHead_cons]
      rcases List.mem_cons.mp h with rfl | h
      · exact ⟨c :: head, List.mem_cons_self, List.mem_cons_self⟩
      · obtain ⟨part, hpart, hc⟩ := ih h
        rcases List.mem_cons.mp hpart with rfl | hpart
        · exact ⟨e :: part, List.mem_cons_self, List.mem_cons_of_mem e hc⟩
        · exact ⟨part, List.mem_cons_of_mem _ hpart, hc⟩

namespace DomainName

variable (zone : DomainName) {c : Char}

theorem mem_text (h : c ∈ zone.text) : c.isAlphanum = true ∨ c = '-' ∨ c = '.' := by
  obtain ⟨-, hlabels, hlast⟩ := zone.regex
  by_cases hdot : c = '.'
  · exact .inr (.inr hdot)
  · obtain ⟨label, hlabel, hc⟩ := mem_splitOn hdot h
    have hne := List.splitOn_ne_nil '.' zone.text
    rw [← List.dropLast_append_getLast hne, List.mem_append, List.mem_singleton] at hlabel
    rcases hlabel with hlabel | rfl
    · rcases (hlabels label hlabel).2.1 c hc with halnum | hhyphen
      · exact .inl halnum
      · exact .inr (.inl hhyphen)
    · have halpha := (hlast _ (List.getLast?_eq_some_getLast hne)).2 c hc
      exact .inl (by unfold Char.isAlphanum; rw [halpha]; rfl)

theorem isAscii_of_mem (h : c ∈ zone.text) : IsAscii c := by
  rcases zone.mem_text h with h | rfl | rfl
  · delta Char.isAlphanum Char.isAlpha Char.isUpper Char.isLower Char.isDigit at h
    simp only [Bool.or_eq_true, Bool.and_eq_true, decide_eq_true_eq, ge_iff_le,
      UInt32.le_iff_toNat_le] at h
    unfold IsAscii
    change ((65 ≤ c.toNat ∧ c.toNat ≤ 90) ∨ (97 ≤ c.toNat ∧ c.toNat ≤ 122)) ∨
      (48 ≤ c.toNat ∧ c.toNat ≤ 57) at h
    omega
  · decide
  · decide

theorem not_isSpace_of_mem (h : c ∈ zone.text) : isSpace c = false := by
  have hspace : ∀ d : Char, IsAscii d → d.isAlphanum = true ∨ d = '-' ∨ d = '.' →
      isSpace d = false := by
    intro d hd
    exact ascii_induction
      (p := fun d => d.isAlphanum = true ∨ d = '-' ∨ d = '.' → isSpace d = false)
      (by decide +kernel) hd
  exact hspace c (zone.isAscii_of_mem h) (zone.mem_text h)

theorem text_ne_nil : zone.text ≠ [] := by
  intro h
  have hregex := zone.regex
  rw [h] at hregex
  exact absurd hregex (by decide)

theorem getLast?_text : zone.text.getLast? ≠ some '.' := by
  intro h
  obtain ⟨-, -, hlast⟩ := zone.regex
  obtain ⟨front, hfront⟩ := List.getLast?_eq_some_iff.mp h
  rw [hfront, List.splitOn_append_cons_self, List.splitOn_nil, List.getLast?_concat] at hlast
  exact absurd (hlast [] rfl).1 (by decide)

theorem trim_text : trim zone.text = zone.text :=
  trim_of_not_isSpace fun _ => zone.not_isSpace_of_mem

theorem stripDot_text : stripDot zone.text = zone.text := by
  unfold stripDot
  rw [if_neg zone.getLast?_text]

theorem fqdn_text : fqdn zone.text = zone.text ++ ['.'] := by
  unfold fqdn
  rw [zone.trim_text]
  exact if_neg zone.getLast?_text

theorem foldCase_ne_nil : foldCase zone.text ≠ [] := fun h =>
  zone.text_ne_nil (List.map_eq_nil_iff.mp h)

end DomainName

/-! ## Qualified names -/

section Qualified

variable (lc : Lowering) (zone : DomainName) (name : Text)

theorem qualifyName_eq : qualifyName lc zone.text name =
    if trim name = [] ∨ trim name = ['@'] then foldCase zone.text ++ ['.']
    else if (trim name).getLast? = some '.' then lc.toLowerCase (trim name)
    else if lc.toLowerCase (trim name) = foldCase zone.text then foldCase zone.text ++ ['.']
    else if ('.' :: foldCase zone.text) <:+ lc.toLowerCase (trim name) then
      lc.toLowerCase (trim name) ++ ['.']
    else lc.toLowerCase (trim name) ++ '.' :: foldCase zone.text ++ ['.'] := by
  have hlower : lc.toLowerCase (fqdn zone.text) = foldCase zone.text ++ ['.'] := by
    rw [zone.fqdn_text, lc.toLowerCase_dot, lc.toLowerCase_of_ascii fun _ => zone.isAscii_of_mem]
  unfold qualifyName
  simp only [hlower, List.dropLast_concat, lc.toLowerCase_eq_nil, lc.toLowerCase_eq_at,
    lc.getLast?_toLowerCase_dot, List.append_assoc, List.cons_append]

def Plain : Prop := foldCase (lc.toLowerCase (trim name)) = foldCase name

instance : Decidable (Plain lc name) := inferInstanceAs (Decidable (_ = _))

variable {lc name}
theorem sameName_append {a b c : Text} : SameName (a ++ c) (b ++ c) ↔ SameName a b := by
  unfold SameName
  rw [foldCase_append, foldCase_append, List.append_left_inj]

theorem no_space_before {before after : Text} (hname : name = before ++ trim name ++ after)
    (ht : trim name ≠ []) (hspaces : ∀ c ∈ before, isSpace c = true)
    (hhead : ∀ c ∈ (trim name).head?, isSpace c = false) {u : Text}
    (hfirst : u.head? = name.head?) (hsame : SameName (lc.toLowerCase (trim name)) u) :
    before = [] := by
  cases before with
  | nil => rfl
  | cons b before =>
    exfalso
    have hb : isSpace b = true := hspaces b List.mem_cons_self
    rw [hname] at hfirst
    cases u with
    | nil => cases hfirst
    | cons y u =>
      obtain rfl : y = b := by simpa using hfirst
      cases htrim : trim name with
      | nil => exact ht htrim
      | cons c t =>
        rw [htrim] at hhead hsame
        cases hlower : lc.toLowerCase (c :: t) with
        | nil => exact lc.lowerFrom_ne_nil (List.cons_ne_nil c t) [] hlower
        | cons d rest =>
          have hd := lc.isSpace_head hlower (hhead c rfl)
          rw [hlower] at hsame
          have hcase : d.toLower = y.toLower := (List.cons.inj hsame).1
          rw [← isSpace_toLower, hcase, isSpace_toLower, hb] at hd
          cases hd

theorem trim_eq_of_sameName {v : Text} (h : SameName (lc.toLowerCase (trim name)) (name ++ v)) :
    trim name = name ∧ v = [] := by
  obtain ⟨before, after, heq, hbefore, hafter, hhead⟩ := trim_cases name
  by_cases ht : trim name = []
  · rw [ht] at h
    have hnil : name ++ v = [] := by
      have hmap : foldCase (name ++ v) = [] := h.symm
      exact List.map_eq_nil_iff.mp hmap
    obtain ⟨hname, hv⟩ := List.append_eq_nil_iff.mp hnil
    exact ⟨by rw [ht, hname], hv⟩
  · have hne : name ≠ [] := by
      rintro hname
      rw [hname] at ht
      exact ht rfl
    have hfirst : before = [] :=
      no_space_before heq ht hbefore hhead (List.head?_append_of_ne_nil name hne) h
    rw [hfirst, List.nil_append] at heq
    have hsplit : name ++ v = trim name ++ (after ++ v) := by
      rw [← List.append_assoc, ← heq]
    rw [hsplit] at h
    have hcase := lc.foldCase_eq_of_append (v := foldCase (after ++ v)) (w := []) h (by
      rw [List.append_nil, foldCase_append (trim name)])
    have hlength := congrArg List.length hcase
    rw [length_foldCase, length_foldCase, List.length_append, List.length_append] at hlength
    have hafter : after = [] := List.eq_nil_of_length_eq_zero (by omega)
    rw [hafter, List.append_nil] at heq
    exact ⟨heq.symm, List.eq_nil_of_length_eq_zero (by omega)⟩

theorem Plain.trim_eq (h : Plain lc name) : trim name = name :=
  (trim_eq_of_sameName (v := []) (by rw [List.append_nil]; exact h)).1

theorem Plain.sameName (h : Plain lc name) : SameName (lc.toLowerCase name) name := by
  have hsame := h
  unfold Plain at hsame
  rw [h.trim_eq] at hsame
  exact hsame

end Qualified

/-! ## Names published by the adapters -/

section Published

variable (lc : Lowering) (zone : DomainName) (name : Text)

/-- The name is the zone, or lies under it, to `qualifyName`. -/
def Qualifies : Prop :=
  lc.toLowerCase name = foldCase zone.text ∨ ('.' :: foldCase zone.text) <:+ lc.toLowerCase name

instance : Decidable (Qualifies lc zone name) := inferInstanceAs (Decidable (_ ∨ _))

/-- The name is one that the zone is put after: neither absolute nor the apex, and without the
zone. -/
def Relative : Prop :=
  name ≠ [] ∧ name ≠ ['@'] ∧ name.getLast? ≠ some '.' ∧ ¬ Qualifies lc zone name

instance : Decidable (Relative lc zone name) := inferInstanceAs (Decidable (_ ∧ _))

/-- A final dot after a name that is the zone or has one of its labels before it. -/
def InZone (name : Text) : Prop :=
  name = zone.text ∨ ∃ h ≠ [], name = h ++ '.' :: zone.text

variable {lc name} {a b : Text}

theorem qualifyName_of_relative (hplain : Plain lc name) (h : Relative lc zone name) :
    qualifyName lc zone.text name = lc.toLowerCase name ++ '.' :: foldCase zone.text ++ ['.'] := by
  obtain ⟨hne, hat, hlast, hqualifies⟩ := h
  rw [qualifyName_eq, hplain.trim_eq, if_neg (by simp [hne, hat]), if_neg hlast,
    if_neg fun h => hqualifies (.inl h), if_neg fun h => hqualifies (.inr h)]

theorem SameName.length_eq (h : SameName a b) : a.length = b.length := by
  have hlength := congrArg List.length h
  rw [length_foldCase, length_foldCase] at hlength
  exact hlength

theorem sameName_append_iff {c d : Text} (h : SameName c d) :
    SameName (a ++ c) (b ++ d) ↔ SameName a b := by
  unfold SameName at *
  rw [foldCase_append, foldCase_append, h, List.append_left_inj]

/-- The zone with dots around it, before and after lower-casing. -/
theorem sameName_dots :
    SameName ('.' :: zone.text ++ ['.']) ('.' :: foldCase zone.text ++ ['.']) := by
  have hcons : ∀ s : Text, foldCase ('.' :: s) = '.' :: foldCase s := fun _ => rfl
  unfold SameName
  rw [foldCase_append, foldCase_append, hcons zone.text, hcons (foldCase zone.text),
    foldCase_foldCase]

theorem route53_sameName_iff :
    SameName (route53Name zone.text name) (qualifyName lc zone.text name) ↔
      Plain lc name ∧ (name.getLast? = some '.' ∨ Relative lc zone name) := by
  unfold route53Name
  by_cases hlast : name.getLast? = some '.'
  · have htrim := getLast?_trim hlast (by decide)
    have hnot : ¬ (trim name = [] ∨ trim name = ['@']) := by
      rintro (h | h)
      · rw [h] at htrim
        cases htrim
      · rw [h] at htrim
        exact absurd htrim (by decide)
    rw [if_pos hlast, qualifyName_eq, if_neg hnot, if_pos htrim]
    refine ⟨fun h => ⟨h.symm, .inl hlast⟩, fun h => h.1.symm⟩
  · rw [if_neg hlast, List.append_assoc]
    constructor
    · intro h
      rw [qualifyName_eq] at h
      split_ifs at h with hapex hdot hzone hunder
      · have hlength := h.length_eq
        simp [length_foldCase] at hlength
        omega
      · exact absurd (trim_eq_of_sameName h.symm).2 (List.cons_ne_nil _ _)
      · have hlength := h.length_eq
        simp [length_foldCase] at hlength
        omega
      · rw [← List.append_assoc, sameName_append] at h
        exact absurd (trim_eq_of_sameName h.symm).2 (List.cons_ne_nil _ _)
      · rw [List.append_assoc, sameName_append_iff (sameName_dots zone)] at h
        have hplain : Plain lc name := h.symm
        rw [hplain.trim_eq] at hapex hzone hunder
        obtain ⟨hne, hat⟩ := not_or.mp hapex
        exact ⟨hplain, .inr ⟨hne, hat, hlast, not_or.mpr ⟨hzone, hunder⟩⟩⟩
    · rintro ⟨hplain, hrelative⟩
      have hrelative := hrelative.resolve_left hlast
      rw [qualifyName_of_relative zone hplain hrelative, List.append_assoc,
        sameName_append_iff (sameName_dots zone)]
      exact hplain.sameName.symm

theorem published_cloudns_cases : (∃ h, stripDot name = h ++ '.' :: zone.text ∧
      cloudnsName zone.text name =
        if h = [] then zone.text ++ ['.'] else h ++ '.' :: zone.text ++ ['.']) ∨
    (∃ h, stripDot name = h ++ zone.text ∧ ¬ ('.' :: zone.text) <:+ stripDot name ∧
      cloudnsName zone.text name =
        if h = [] then zone.text ++ ['.'] else h ++ '.' :: zone.text ++ ['.']) ∨
    (¬ zone.text <:+ stripDot name ∧ cloudnsName zone.text name =
      if stripDot name = [] then zone.text ++ ['.']
      else stripDot name ++ '.' :: zone.text ++ ['.']) := by
  unfold cloudnsName cloudnsHost stripZone
  dsimp only
  rw [zone.stripDot_text]
  by_cases hunder : ('.' :: zone.text) <:+ stripDot name
  · left
    obtain ⟨h, hh⟩ := id hunder
    have htake : (stripDot name).take ((stripDot name).length - (zone.text.length + 1)) = h := by
      rw [← hh, List.length_append, List.length_cons, Nat.add_sub_cancel, List.take_left]
    refine ⟨h, hh.symm, ?_⟩
    rw [if_pos hunder, htake]
  · right
    by_cases hzone : zone.text <:+ stripDot name
    · left
      obtain ⟨h, hh⟩ := id hzone
      have htake : (stripDot name).take ((stripDot name).length - zone.text.length) = h := by
        rw [← hh, List.length_append, Nat.add_sub_cancel, List.take_left]
      refine ⟨h, hh.symm, hunder, ?_⟩
      rw [if_neg hunder, if_pos hzone, htake]
    · right
      refine ⟨hzone, ?_⟩
      rw [if_neg hunder, if_neg hzone]

theorem cloudns_absolute (hplain : Plain lc name) (hlast : name.getLast? = some '.') :
    SameName (cloudnsName zone.text name) (qualifyName lc zone.text name) ↔
      InZone zone (stripDot name) := by
  have hname : name = stripDot name ++ ['.'] := by
    obtain ⟨front, hfront⟩ := List.getLast?_eq_some_iff.mp hlast
    rw [stripDot, if_pos hlast, hfront, List.dropLast_concat]
  have hqualified : SameName (qualifyName lc zone.text name) name := by
    have hroute := (route53_sameName_iff zone).mpr ⟨hplain, .inl hlast⟩
    unfold route53Name at hroute
    rw [if_pos hlast] at hroute
    exact hroute.symm
  have hpublished : SameName (cloudnsName zone.text name) (qualifyName lc zone.text name) ↔
      SameName (cloudnsName zone.text name) name :=
    ⟨fun h => h.trans hqualified, fun h => h.trans hqualified.symm⟩
  have hzone := List.length_pos_iff.mpr zone.text_ne_nil
  have hlength : name.length = (stripDot name).length + 1 := by
    conv_lhs => rw [hname]
    rw [List.length_append, List.length_singleton]
  rw [hpublished]
  rcases @published_cloudns_cases zone name with
    ⟨h, hh, heq⟩ | ⟨h, hh, hnot, heq⟩ | ⟨hnot, heq⟩
  · rw [heq]
    by_cases hnil : h = []
    · rw [if_pos hnil]
      subst hnil
      constructor
      · intro hsame
        have hlen := hsame.length_eq
        rw [hlength, hh] at hlen
        simp only [List.length_append, List.length_cons, List.length_nil] at hlen
        omega
      · rintro (hself | ⟨h, hne, hself⟩)
        · have hlen := congrArg List.length (hh.symm.trans hself)
          simp only [List.length_append, List.length_cons, List.length_nil] at hlen
          omega
        · have hlen := congrArg List.length (hh.symm.trans hself)
          have hpos := List.length_pos_iff.mpr hne
          simp only [List.length_append, List.length_cons, List.length_nil] at hlen
          omega
    · rw [if_neg hnil, ← hh, ← hname]
      exact ⟨fun _ => .inr ⟨h, hnil, hh⟩, fun _ => rfl⟩
  · rw [heq]
    by_cases hnil : h = []
    · rw [if_pos hnil]
      subst hnil
      rw [List.nil_append] at hh
      rw [← hh, ← hname]
      exact ⟨fun _ => .inl hh, fun _ => rfl⟩
    · rw [if_neg hnil]
      constructor
      · intro hsame
        have hlen := hsame.length_eq
        rw [hlength, hh] at hlen
        simp only [List.length_append, List.length_cons, List.length_nil] at hlen
        omega
      · rintro (hself | ⟨h', -, hself⟩)
        · have hlen := congrArg List.length (hh.symm.trans hself)
          have hpos := List.length_pos_iff.mpr hnil
          simp only [List.length_append] at hlen
          omega
        · exact absurd ⟨h', hself.symm⟩ hnot
  · rw [heq]
    constructor
    · intro hsame
      have hlen := hsame.length_eq
      rw [hlength] at hlen
      by_cases hnil : stripDot name = []
      · rw [if_pos hnil, hnil] at hlen
        simp only [List.length_append, List.length_cons, List.length_nil] at hlen
        omega
      · rw [if_neg hnil] at hlen
        simp only [List.length_append, List.length_cons, List.length_nil] at hlen
        omega
    · rintro (hself | ⟨h', -, hself⟩)
      · exact absurd ⟨[], hself.symm⟩ hnot
      · exact absurd ⟨h' ++ ['.'], by rw [hself]; simp⟩ hnot

theorem cloudns_relative (hplain : Plain lc name) (hrelative : Relative lc zone name) :
    SameName (cloudnsName zone.text name) (qualifyName lc zone.text name) ↔
      ¬ zone.text <:+ name := by
  have hself : stripDot name = name := if_neg hrelative.2.2.1
  have hqualified : SameName (qualifyName lc zone.text name) (name ++ '.' :: zone.text ++ ['.']) := by
    have hroute := (route53_sameName_iff zone).mpr ⟨hplain, .inr hrelative⟩
    unfold route53Name at hroute
    rw [if_neg hrelative.2.2.1] at hroute
    exact hroute.symm
  have hpublished : SameName (cloudnsName zone.text name) (qualifyName lc zone.text name) ↔
      SameName (cloudnsName zone.text name) (name ++ '.' :: zone.text ++ ['.']) :=
    ⟨fun h => h.trans hqualified, fun h => h.trans hqualified.symm⟩
  have hzone := List.length_pos_iff.mpr zone.text_ne_nil
  rw [hpublished]
  rcases @published_cloudns_cases zone name with
    ⟨h, hh, heq⟩ | ⟨h, hh, -, heq⟩ | ⟨hnot, heq⟩
  · rw [heq]
    rw [hself] at hh
    refine ⟨?_, fun hnot => absurd ⟨h ++ ['.'], by rw [hh]; simp⟩ hnot⟩
    intro hsame
    have hlen := hsame.length_eq
    by_cases hnil : h = []
    · rw [if_pos hnil] at hlen
      simp only [List.length_append, List.length_cons, List.length_nil] at hlen
      omega
    · rw [if_neg hnil, hh] at hlen
      simp only [List.length_append, List.length_cons, List.length_nil] at hlen
      omega
  · rw [heq]
    rw [hself] at hh
    refine ⟨?_, fun hnot => absurd ⟨h, hh.symm⟩ hnot⟩
    intro hsame
    have hlen := hsame.length_eq
    by_cases hnil : h = []
    · rw [if_pos hnil] at hlen
      simp only [List.length_append, List.length_cons, List.length_nil] at hlen
      omega
    · rw [if_neg hnil, hh] at hlen
      simp only [List.length_append, List.length_cons, List.length_nil] at hlen
      omega
  · rw [heq, hself, if_neg hrelative.1]
    rw [hself] at hnot
    exact ⟨fun _ => hnot, fun _ => rfl⟩

/-! ### The name in the document -/

theorem plain_of_mem_zone {c : Char} (h : c ∈ zone.text) :
    XmlText.plain c = true ∧ XmlText.mark c = false := by
  have hplain : ∀ d : Char, IsAscii d → d.isAlphanum = true ∨ d = '-' ∨ d = '.' →
      XmlText.plain d = true ∧ XmlText.mark d = false := by
    intro d hd
    exact ascii_induction (p := fun d => d.isAlphanum = true ∨ d = '-' ∨ d = '.' →
      XmlText.plain d = true ∧ XmlText.mark d = false) (by decide +kernel) hd
  exact hplain c (zone.isAscii_of_mem h) (zone.mem_text h)

theorem countP_mark_zone : zone.text.countP XmlText.mark = 0 := by
  rw [List.countP_eq_zero]
  intro c hc
  rw [(plain_of_mem_zone zone hc).2]
  decide

theorem verbatim_route53Name : Verbatim (route53Name zone.text name) ↔ Verbatim name := by
  unfold route53Name
  split_ifs
  · rfl
  · rw [List.append_assoc]
    refine XmlText.verbatim_append fun c hc => ?_
    rcases List.mem_cons.mp hc with rfl | hc
    · decide
    rcases List.mem_append.mp hc with hc | hc
    · exact (plain_of_mem_zone zone hc).1
    · rw [List.mem_singleton.mp hc]
      decide

theorem countP_mark_route53Name : (route53Name zone.text name).countP XmlText.mark =
    name.countP XmlText.mark := by
  unfold route53Name
  split_ifs
  · rfl
  · simp [countP_mark_zone, XmlText.mark]

theorem countP_mark_stripDot : (stripDot name).countP XmlText.mark = name.countP XmlText.mark := by
  unfold stripDot
  split_ifs with h
  · obtain ⟨front, rfl⟩ := List.getLast?_eq_some_iff.mp h
    simp [XmlText.mark]
  · rfl

theorem countP_mark_cloudnsName : (cloudnsName zone.text name).countP XmlText.mark =
    name.countP XmlText.mark := by
  have hdot : XmlText.mark '.' = false := by decide
  rw [← @countP_mark_stripDot name]
  rcases @published_cloudns_cases zone name with ⟨h, hh, heq⟩ | ⟨h, hh, -, heq⟩ | ⟨-, heq⟩
  · rw [heq, hh]
    split_ifs with hnil <;> simp [hnil, hdot, countP_mark_zone]
  · rw [heq, hh]
    split_ifs with hnil <;> simp [hnil, hdot, countP_mark_zone]
  · rw [heq]
    split_ifs with hnil <;> simp [hnil, hdot, countP_mark_zone]

theorem mark_toLower (c : Char) : XmlText.mark c.toLower = XmlText.mark c := by
  by_cases h : IsAscii c
  · exact ascii_induction (p := fun c => XmlText.mark c.toLower = XmlText.mark c) (by decide) h
  · rw [toLower_of_not_ascii h]

theorem SameName.countP_mark (h : SameName a b) :
    a.countP XmlText.mark = b.countP XmlText.mark := by
  have hfold : ∀ s : Text, (foldCase s).countP XmlText.mark = s.countP XmlText.mark := by
    intro s
    rw [foldCase, List.countP_map]
    exact List.countP_congr fun c _ => by simp [mark_toLower]
  rw [← hfold a, ← hfold b, h]

/-- The names that every adapter publishes alike: characters alone to XML and without what
`qualifyName` trims or changes but for case, either absolute and in the zone, or relative and not
ending in the letters of the zone. -/
def NamedAlike (lc : Lowering) (zone : DomainName) (name : Text) : Prop :=
  Plain lc name ∧ Verbatim name ∧ ((name.getLast? = some '.' ∧ InZone zone (stripDot name)) ∨
    (Relative lc zone name ∧ ¬ zone.text <:+ name))

/-- The document does not change a name that ClouDNS publishes as `qualifyName` makes it. -/
theorem read_route53Name {published : Text} (hcloudns : SameName (cloudnsName zone.text name) published)
    {read : Text} (hread : XmlText.read (route53Name zone.text name) = some read)
    (h : SameName read published) : Verbatim name ∧ read = route53Name zone.text name := by
  rcases XmlText.read_spec hread with ⟨hverbatim, heq⟩ | hfewer
  · exact ⟨(verbatim_route53Name zone).mp hverbatim, heq⟩
  · have hmarks := hcloudns.countP_mark.trans h.countP_mark.symm
    rw [countP_mark_cloudnsName] at hmarks
    rw [countP_mark_route53Name] at hfewer
    omega

/-- All adapters publish a record under the name that `qualifyName` makes exactly for these
names. -/
theorem adapters_publish_alike_iff (lc : Lowering) (zone : DomainName) (name : Text) :
    (∀ adapter, ∃ published, publishedName lc zone.text name adapter = some published ∧
      SameName published (qualifyName lc zone.text name)) ↔ NamedAlike lc zone name := by
  constructor
  · intro h
    obtain ⟨published, hpublished, hcloudns⟩ := h .cloudns
    obtain rfl := Option.some.inj hpublished
    obtain ⟨read, hread, hroute⟩ := h .route53
    obtain ⟨hverbatim, rfl⟩ := read_route53Name zone hcloudns hread hroute
    obtain ⟨hplain, hlast | hrelative⟩ := (route53_sameName_iff zone).mp hroute
    · exact ⟨hplain, hverbatim, .inl ⟨hlast, (cloudns_absolute zone hplain hlast).mp hcloudns⟩⟩
    · exact ⟨hplain, hverbatim, .inr ⟨hrelative, (cloudns_relative zone hplain hrelative).mp hcloudns⟩⟩
  · rintro ⟨hplain, hverbatim, hcases⟩ adapter
    have hroute : name.getLast? = some '.' ∨ Relative lc zone name :=
      hcases.imp And.left And.left
    cases adapter with
    | powerdns => exact ⟨_, rfl, rfl⟩
    | rndc => exact ⟨_, rfl, rfl⟩
    | cloudns =>
      refine ⟨_, rfl, ?_⟩
      rcases hcases with ⟨hlast, hzone⟩ | ⟨hrelative, hnot⟩
      · exact (cloudns_absolute zone hplain hlast).mpr hzone
      · exact (cloudns_relative zone hplain hrelative).mpr hnot
    | route53 =>
      exact ⟨_, XmlText.read_of_verbatim ((verbatim_route53Name zone).mpr hverbatim),
        (route53_sameName_iff zone).mpr ⟨hplain, hroute⟩⟩

def exampleZone : DomainName where
  text := "example.test".toList
  regex := by decide +kernel
  length := by decide

/-- A label that ends in the letters of the zone, the apex, and a name with the zone in it are
published under four names by the four adapters, and a reference of XML is read by one of them. -/
theorem names_published_apart :
    publishedName asciiLowering exampleZone.text "myexample.test".toList .powerdns =
        some "myexample.test.example.test.".toList ∧
      publishedName asciiLowering exampleZone.text "myexample.test".toList .cloudns =
        some "my.example.test.".toList ∧
      publishedName asciiLowering exampleZone.text "@".toList .powerdns = some "example.test.".toList ∧
      publishedName asciiLowering exampleZone.text "@".toList .cloudns = some "@.example.test.".toList ∧
      publishedName asciiLowering exampleZone.text "@".toList .route53 = some "@.example.test.".toList ∧
      publishedName asciiLowering exampleZone.text "www.example.test".toList .rndc =
        some "www.example.test.".toList ∧
      publishedName asciiLowering exampleZone.text "www.example.test".toList .route53 =
        some "www.example.test.example.test.".toList ∧
      publishedName asciiLowering exampleZone.text "a&amp;b".toList .route53 =
        some "a&b.example.test.".toList ∧
      ¬ ∀ adapter, ∃ published,
        publishedName asciiLowering exampleZone.text "myexample.test".toList adapter = some published ∧
          SameName published (qualifyName asciiLowering exampleZone.text "myexample.test".toList) := by
  refine ⟨by decide +kernel, by decide +kernel, by decide +kernel, by decide +kernel,
    by decide +kernel, by decide +kernel, by decide +kernel, by decide +kernel, ?_⟩
  intro halike
  obtain ⟨published, hpublished, hsame⟩ := halike .cloudns
  obtain rfl := Option.some.inj hpublished
  have hcloudns : ¬ SameName (cloudnsName exampleZone.text "myexample.test".toList)
      (qualifyName asciiLowering exampleZone.text "myexample.test".toList) := by
    decide +kernel
  exact hcloudns hsame

end Published

end Insula.DnsServers
