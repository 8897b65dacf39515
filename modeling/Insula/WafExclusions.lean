import Insula.Lookup
import Insula.WafPathPattern

/-!
# Path patterns of firewall exclusions

An exclusion may be narrowed to a path by a pattern. The pattern has to compile where it is
accepted, in JavaScript, and in the firewall, in PCRE; a scanner keeps to what both read.
-/

namespace Insula.WafExclusions

open Javascript (codeUnits)
open WafPathPattern
open scoped Lookup

def negation (s : Pattern) : ℕ := if s.head? = some '^' then 1 else 0

def refusedFirst (first : Option Char) : Bool :=
  first = some ']' || first = some ':' || first = some '='

def allowedEscapes (inClass : Bool) : List Char :=
  if inClass then [] else ['d', 'D', 'w', 'W', 's', 'S', 'b', 'B']

/-- The loop of `isPortablePathRegex`, with the number of characters its counter jumps over. -/
@[simp] def scan (inClass : Bool) : ℕ → Pattern → Bool
  | _, [] => !inClass
  | skip + 1, _ :: s => scan inClass skip s
  | 0, ch :: s =>
    let next := s.head?
    if ch = '\\' then
      match next with
      | none => false
      | some c =>
        if c.isAlphanum ∧ c ∉ allowedEscapes inClass then false else scan inClass 1 s
    else if inClass then
      if ch = '[' then false else scan (!decide (ch = ']')) 0 s
    else if ch = '[' then
      if refusedFirst (s.drop (negation s)).head? then false else scan true (negation s) s
    else if ch = '(' ∧ next = some '?' ∧ (s.drop 1).head? ≠ some ':' then false
    else if ch = '{' then
      match countedQuantifier s with
      | none => false
      | some q => scan false q.2 s
    else if ch = '}' then false
    else scan false 0 s

def isPortablePathRegex (value : Pattern) : Bool := scan false 0 value

def length (value : Pattern) : ℕ := (value.flatMap codeUnits).length

def pathRegexBase (value : Pattern) : Prop :=
  2 ≤ length value ∧ length value ≤ 255 ∧ (∀ c ∈ value, c ∉ ['"', '\n', '\r']) ∧
    ['^', '/'] <+: value

instance (value : Pattern) : Decidable (pathRegexBase value) := by
  unfold pathRegexBase
  infer_instance

def wafRuleExclusionPathRegexSchema (regexParseable : Pattern → Prop) (value : Pattern) : Prop :=
  pathRegexBase value ∧ value.getLast? ≠ some '\\' ∧ regexParseable value ∧
    isPortablePathRegex value = true

/-! ## What the scanner keeps to -/

theorem scan_skip (inClass : Bool) (skip : ℕ) (s : Pattern) :
    scan inClass skip s = scan inClass 0 (s.drop skip) := by
  induction skip generalizing s with
  | zero => simp
  | succ skip ih =>
    cases s with
    | nil => simp [scan]
    | cons c s => rw [scan, ih, List.drop_succ_cons]

/-- The scanner goes through a class to the bracket that closes it. -/
theorem readMembers_of_scan (s : Pattern) (h : scan true 0 s = true) :
    ∃ ms rest, readMembers s = some (ms, rest) ∧ scan false 0 rest = true := by
  fun_induction readMembers s with
  | case1 => simp [scan] at h
  | case2 s => exact ⟨[], s, rfl, by simpa [scan] using h⟩
  | case3 s => simp [scan] at h
  | case4 => simp [scan] at h
  | case5 next s' halnum => simp [scan, halnum, allowedEscapes] at h
  | case6 next s' halnum _ _ ih =>
    have hscan : scan true 0 s' = true := by simpa [scan, halnum] using h
    obtain ⟨ms, rest, hread, hrest⟩ := ih hscan
    exact ⟨.escaped next :: ms, rest, by rw [hread]; rfl, hrest⟩
  | case7 c s hclose hopen hslash ih =>
    have hscan : scan true 0 s = true := by simpa [scan, hclose, hopen, hslash] using h
    obtain ⟨ms, rest, hread, hrest⟩ := ih hscan
    exact ⟨.plain c :: ms, rest, by rw [hread]; rfl, hrest⟩

theorem readClass_of_scan {s : Pattern} (h : scan false 0 ('[' :: s) = true) :
    ∃ t rest, readClass s = some (t, rest) ∧ scan false 0 rest = true := by
  have hclass : refusedFirst (s.drop (negation s)).head? = false ∧
      scan true 0 (s.drop (negation s)) = true := by
    rw [← scan_skip]
    simpa [scan] using h
  have hfirst : (s.drop (negation s)).head? ≠ some ']' := by
    intro hbracket
    simp [refusedFirst, hbracket] at hclass
  obtain ⟨ms, rest, hread, hrest⟩ := readMembers_of_scan _ hclass.2
  refine ⟨.members (decide (s.head? = some '^')) ms, rest, ?_, hrest⟩
  have hbody : (if s.head? = some '^' then s.drop 1 else s) = s.drop (negation s) := by
    unfold negation
    split <;> simp
  unfold readClass
  simp only [hbody, if_neg hfirst, hread, Option.map_some]

theorem readEscape_of_scan {s : Pattern} (h : scan false 0 ('\\' :: s) = true) :
    ∃ t rest, readEscape s = some (t, rest) ∧ scan false 0 rest = true := by
  cases s with
  | nil => simp [scan] at h
  | cons c s =>
    have hc : (c.isAlphanum = true → c ∈ allowedEscapes false) ∧ scan false 0 s = true := by
      simpa [scan, imp_iff_not_or] using h
    unfold readEscape
    by_cases halnum : c.isAlphanum = true
    · have hallowed := hc.1 halnum
      by_cases hshort : c ∈ "dDwWsS".toList
      · exact ⟨.shorthand c, s, by simp only [halnum, not_true, if_false, if_pos hshort], hc.2⟩
      · have hbound : c ∈ "bB".toList := by
          simp [allowedEscapes] at hallowed hshort ⊢
          tauto
        exact ⟨.boundary c, s, by
          simp only [halnum, not_true, if_false, if_neg hshort, if_pos hbound], hc.2⟩
    · exact ⟨.escaped c, s, if_pos halnum, hc.2⟩

theorem readGroup_of_scan {s : Pattern} (h : scan false 0 ('(' :: s) = true) :
    ∃ t rest, readGroup s = some (t, rest) ∧ scan false 0 rest = true := by
  have hgroup : (s.head? = some '?' → (s.drop 1).head? = some ':') ∧ scan false 0 s = true := by
    simpa [scan, imp_iff_not_or] using h
  unfold readGroup
  by_cases hmark : s.head? = some '?'
  · have hcolon := hgroup.1 hmark
    refine ⟨.plainGroup, s.drop 2, by simp only [hmark, ne_eq, not_true, if_false, if_pos hcolon], ?_⟩
    match s, hmark, hcolon, hgroup.2 with
    | _ :: _ :: s, hmark, hcolon, hscan =>
      obtain rfl : _ = '?' := Option.some.inj hmark
      obtain rfl : _ = ':' := Option.some.inj hcolon
      simpa [scan] using hscan
  · exact ⟨.group, s, if_pos hmark, hgroup.2⟩

theorem readToken_of_scan {c : Char} {s : Pattern} (h : scan false 0 (c :: s) = true) :
    ∃ t rest, readToken c s = some (t, rest) ∧ scan false 0 rest = true := by
  unfold readToken
  by_cases hslash : c = '\\'
  · subst hslash
    exact readEscape_of_scan h
  by_cases hopen : c = '['
  · subst hopen
    exact readClass_of_scan h
  by_cases hgroup : c = '('
  · subst hgroup
    exact readGroup_of_scan h
  by_cases hbrace : c = '{'
  · subst hbrace
    rcases hq : countedQuantifier s with _ | q
    · simp [scan, hq] at h
    · have hrest : scan false q.2 s = true := by simpa [scan, hq] using h
      rw [scan_skip] at hrest
      exact ⟨.counted q.1, s.drop q.2, rfl, hrest⟩
  by_cases hstray : c = '}'
  · subst hstray
    simp [scan] at h
  · have hrest : scan false 0 s = true := by
      simpa [scan, hslash, hopen, hgroup, hbrace, hstray] using h
    simp only [hslash, hopen, hgroup, hbrace, hstray, if_false]
    repeat' split
    all_goals exact ⟨_, s, rfl, hrest⟩

/-- A pattern that passes the scanner is one of the common syntax. -/
theorem tokens_of_portable {v : Pattern} (h : isPortablePathRegex v = true) :
    ∃ ts, tokens v = some ts := by
  have hread : ∀ (n : ℕ) (s : Pattern), s.length ≤ n → scan false 0 s = true →
      ∃ ts, readTokens n s = some ts := by
    intro n
    induction n with
    | zero =>
      intro s hlen hscan
      obtain rfl : s = [] := List.eq_nil_of_length_eq_zero (by omega)
      exact ⟨[], rfl⟩
    | succ n ih =>
      intro s hlen hscan
      cases s with
      | nil => exact ⟨[], rfl⟩
      | cons c s =>
        obtain ⟨t, rest, htoken, hrest⟩ := readToken_of_scan hscan
        have hshorter := readToken_length htoken
        rw [List.length_cons] at hlen
        obtain ⟨ts, hts⟩ := ih rest (by omega) hrest
        exact ⟨t :: ts, by simp [readTokens, htoken, hts]⟩
  exact hread v.length v le_rfl h

/-! ## The two engines -/

/-- What the engines do with a pattern of the common syntax: JavaScript takes what is well formed
where it counts the quantifiers, PCRE that less what it refuses besides and what is too large once
compiled. -/
structure Engines (js pcre : Pattern → Prop) (tooLarge : List Token → Prop) : Prop where
  js_iff : ∀ {v ts}, tokens v = some ts → (∀ t ∈ ts, t.countable) → (js v ↔ wellFormed ts)
  pcre_refuses : ∀ {v ts t}, tokens v = some ts → t ∈ ts → t.refused → ¬pcre v
  pcre_too_large : ∀ {v ts}, tokens v = some ts → tooLarge ts → ¬pcre v
  pcre_takes : ∀ {v ts}, tokens v = some ts → wellFormed ts → (∀ t ∈ ts, ¬t.refused) →
    ¬tooLarge ts → pcre v

/-- An accepted pattern compiles in both engines exactly if PCRE refuses none of its quantifiers
and classes and can hold it. -/
theorem accepted_compiles_iff {js pcre : Pattern → Prop} {tooLarge : List Token → Prop}
    (E : Engines js pcre tooLarge) {v : Pattern} (h : wafRuleExclusionPathRegexSchema js v) :
    (js v ∧ pcre v) ↔ ∃ ts, tokens v = some ts ∧ (∀ t ∈ ts, ¬t.refused) ∧ ¬tooLarge ts := by
  obtain ⟨-, -, hjs, hportable⟩ := h
  obtain ⟨ts, hts⟩ := tokens_of_portable hportable
  constructor
  · rintro ⟨-, hpcre⟩
    refine ⟨ts, hts, ?_, fun hlarge => E.pcre_too_large hts hlarge hpcre⟩
    intro t ht hrefused
    exact E.pcre_refuses hts ht hrefused hpcre
  · rintro ⟨ts', hts', hrefused, hlarge⟩
    have hcountable : ∀ t ∈ ts', t.countable :=
      fun t ht => Token.countable_of_not_refused (hrefused t ht)
    have hwell : wellFormed ts' := (E.js_iff hts' hcountable).mp hjs
    exact ⟨hjs, E.pcre_takes hts' hwell hrefused hlarge⟩

/-- Engines that read the common syntax and nothing else, PCRE with no limit of size. -/
def commonJs (v : Pattern) : Prop := ∃ ts ∈ tokens v, wellFormed ts

def commonPcre (v : Pattern) : Prop := ∃ ts ∈ tokens v, wellFormed ts ∧ ∀ t ∈ ts, ¬t.refused

theorem common_engines : Engines commonJs commonPcre fun _ => False where
  js_iff {v ts} hts _ := by simp [commonJs, hts]
  pcre_refuses {v ts t} hts ht hrefused := by
    rintro ⟨ts', hts', -, hnot⟩
    rw [Option.mem_def, hts] at hts'
    obtain rfl := Option.some.inj hts'
    exact hnot t ht hrefused
  pcre_too_large _ hlarge := hlarge.elim
  pcre_takes {v ts} hts hwell hnot _ := ⟨ts, hts, hwell, hnot⟩

/-- A bound above 65535, and a class written as a collating element, are accepted and stop the
firewall. -/
theorem accepted_patterns_pcre_refuses : Engines commonJs commonPcre (fun _ => False) ∧
      ∀ v ∈ ["^/a{65536}".toList, "^/[.a.]".toList],
        ∀ js pcre tooLarge, Engines js pcre tooLarge →
          wafRuleExclusionPathRegexSchema js v ∧ js v ∧ ¬pcre v := by
  refine ⟨common_engines, ?_⟩
  intro v hv js pcre tooLarge E
  have hbase : pathRegexBase v ∧ v.getLast? ≠ some '\\' ∧ isPortablePathRegex v = true ∧
      ∃ ts, tokens v = some ts ∧ (∀ t ∈ ts, t.countable) ∧ wellFormed ts ∧ ∃ t ∈ ts, t.refused := by
    simp only [List.mem_cons, List.not_mem_nil, or_false] at hv
    rcases hv with rfl | rfl
    · have hread : tokens "^/a{65536}".toList = some [.start, .literal '/', .literal 'a', .counted ⟨65536, some 65536⟩] ∧
          pathRegexBase "^/a{65536}".toList ∧ "^/a{65536}".toList.getLast? ≠ some '\\' ∧
            isPortablePathRegex "^/a{65536}".toList = true := by decide +kernel
      obtain ⟨htokens, hpath, hlast, hportable⟩ := hread
      exact ⟨hpath, hlast, hportable, _, htokens, by decide, rfl,
        .counted ⟨65536, some 65536⟩, by simp, by decide⟩
    · have hread : tokens "^/[.a.]".toList =
          some [.start, .literal '/', .members false [.plain '.', .plain 'a', .plain '.']] ∧
          pathRegexBase "^/[.a.]".toList ∧ "^/[.a.]".toList.getLast? ≠ some '\\' ∧
            isPortablePathRegex "^/[.a.]".toList = true := by decide +kernel
      obtain ⟨htokens, hpath, hlast, hportable⟩ := hread
      exact ⟨hpath, hlast, hportable, _, htokens, by decide, by decide +kernel,
        .members false [.plain '.', .plain 'a', .plain '.'], by simp, by decide⟩
  obtain ⟨hpath, hlast, hportable, ts, hts, hcountable, hwell, t, ht, hrefused⟩ := hbase
  have hjs : js v := (E.js_iff hts hcountable).mpr hwell
  exact ⟨⟨hpath, hlast, hjs, hportable⟩, hjs, E.pcre_refuses hts ht hrefused⟩

theorem accepted_compiles_grouped_path :
    (commonJs "^/a(?:b|[c-e])+?".toList ∧ commonPcre "^/a(?:b|[c-e])+?".toList) ↔
      ∃ ts, tokens "^/a(?:b|[c-e])+?".toList = some ts ∧ (∀ t ∈ ts, ¬t.refused) ∧ ¬False := by
  have hjs : commonJs "^/a(?:b|[c-e])+?".toList :=
    ⟨[.start, .literal '/', .literal 'a', .plainGroup, .literal 'b', .alternative,
      .members false [.plain 'c', .plain '-', .plain 'e'], .close, .plus, .optional], by decide +kernel⟩
  have hbase : pathRegexBase "^/a(?:b|[c-e])+?".toList ∧ "^/a(?:b|[c-e])+?".toList.getLast? ≠ some '\\' ∧
      isPortablePathRegex "^/a(?:b|[c-e])+?".toList = true := by decide +kernel
  exact accepted_compiles_iff common_engines ⟨hbase.1, hbase.2.1, hjs, hbase.2.2⟩

end Insula.WafExclusions
