import Insula.DnsNames

/-!
# Names of challenge records

The DNS-01 solver names a challenge by `relativeRecordName` in the zone of the domain that owns it;
PowerDNS and `rndc` publish what `qualifyName` makes of that name.
-/

namespace Insula.ChallengeNames

open DnsServers Lowercase
open Javascript (isSpace)
open WildcardHostname (normalizeHostname Under)

def relativeRecordName (lc : Lowering) (hostname parent : Text) : Text :=
  let h := normalizeHostname lc.toLowerCase hostname
  let p := normalizeHostname lc.toLowerCase parent
  if h = p then ['@'] else if ('.' :: p) <:+ h then h.take (h.length - p.length - 1) else h

/-- What stands before the zone in a name that was brought to its normal form. -/
structure Labels (t : Text) : Prop where
  chars : ∀ c ∈ t, IsAscii c ∧ isSpace c = false
  lower : foldCase t = t
  last : t.getLast? ≠ some '.'
  named : ¬ (t = [] ∨ t = ['@'])

variable {lc : Lowering} {t : Text}

theorem normalizeHostname_eq (hchars : ∀ c ∈ t, IsAscii c ∧ isSpace c = false)
    (hlast : t.getLast? ≠ some '.') : normalizeHostname lc.toLowerCase t = foldCase t := by
  rw [normalizeHostname, trim_of_not_isSpace fun c hc => (hchars c hc).2]
  simp only [lc.getLast?_toLowerCase_dot, if_neg hlast]
  exact lc.toLowerCase_of_ascii fun c hc => (hchars c hc).1

theorem relativeRecordName_labels (zone : DomainName) (h : Labels t) :
    relativeRecordName lc (t ++ '.' :: zone.text) zone.text = t := by
  have hchars : ∀ c ∈ zone.text, IsAscii c ∧ isSpace c = false :=
    fun _ hc => ⟨zone.isAscii_of_mem hc, zone.not_isSpace_of_mem hc⟩
  have hlast : (t ++ '.' :: zone.text).getLast? ≠ some '.' := by
    rw [List.getLast?_append_of_ne_nil _ (List.cons_ne_nil _ _),
      List.getLast?_cons_of_ne_nil zone.text_ne_nil]
    exact zone.getLast?_text
  have hhost : normalizeHostname lc.toLowerCase (t ++ '.' :: zone.text) = t ++
    '.' :: foldCase zone.text := by
    rw [normalizeHostname_eq _ hlast, foldCase_append, h.lower]
    · rfl
    · simp only [List.mem_append, List.mem_cons]
      rintro c (hc | rfl | hc)
      · exact h.chars c hc
      · decide
      · exact hchars c hc
  have hne : t ++ '.' :: foldCase zone.text ≠ foldCase zone.text := by
    intro heq
    have hlength := congrArg List.length heq
    rw [List.length_append, List.length_cons] at hlength
    omega
  rw [relativeRecordName, hhost, normalizeHostname_eq hchars zone.getLast?_text, if_neg hne,
    if_pos (List.suffix_append _ _)]
  exact List.take_left' (by rw [List.length_append, List.length_cons]; omega)

/-- A challenge is published under its own name exactly when what stands before the zone is not
itself a name of the zone. -/
theorem qualifyName_relativeRecordName (lc : Lowering) (zone : DomainName) (h : Labels t) :
    qualifyName lc zone.text (relativeRecordName lc (t ++ '.' :: zone.text) zone.text) =
        t ++ '.' :: foldCase zone.text ++ ['.'] ↔ ¬ Under (foldCase zone.text) t := by
  have hlower : lc.toLowerCase t = t :=
    (lc.toLowerCase_of_ascii fun c hc => (h.chars c hc).1).trans h.lower
  rw [relativeRecordName_labels zone h, qualifyName_eq, trim_of_not_isSpace fun c hc =>
    (h.chars c hc).2, if_neg h.named, if_neg h.last, hlower]
  by_cases hsame : t = foldCase zone.text
  · rw [if_pos hsame, hsame]
    simp [Under]
  · by_cases hsuffix : ('.' :: foldCase zone.text) <:+ t
    · rw [if_neg hsame, if_pos hsuffix]
      simp [Under, hsuffix]
    · rw [if_neg hsame, if_neg hsuffix]
      exact iff_of_true rfl (not_or.mpr ⟨hsame, hsuffix⟩)

theorem qualifyName_relativeRecordName_shop :
    qualifyName asciiLowering exampleZone.text (relativeRecordName asciiLowering
      ("_acme-challenge.shop".toList ++ '.' :: exampleZone.text) exampleZone.text) =
        "_acme-challenge.shop".toList ++ '.' :: foldCase exampleZone.text ++ ['.'] :=
  (qualifyName_relativeRecordName asciiLowering exampleZone
    ⟨by simp [IsAscii, isSpace], by decide, by decide, by decide⟩).mpr (by unfold Under; decide)

end Insula.ChallengeNames
