import Insula.TenantPorts

/-!
# Addresses and prefixes as texts

`netip.ParseAddr` and `netip.ParsePrefix`. An address is recognised by the first dot or colon of its
text; neither takes white space.
-/

namespace Insula.Netip

open CrowdsecL4 Firewall TenantPorts
open Go (isSpace)

/-! ## Addresses -/

def isHex (c : Char) : Bool := isDigit c || ('a' ≤ c && c ≤ 'f') || ('A' ≤ c && c ≤ 'F')

def hexDigit (c : Char) : ℕ :=
  if isDigit c then c.toNat - '0'.toNat
  else if 'a' ≤ c then c.toNat - 'a'.toNat + 10
  else c.toNat - 'A'.toNat + 10

def number (base : ℕ) (digit : Char → ℕ) (s : Text) : ℕ := s.foldl (fun v c => v * base + digit c) 0

def decimalValue (s : Text) : ℕ := number 10 (fun c => c.toNat - '0'.toNat) s

def parseField (s : Text) : Option ℕ :=
  if s = [] ∨ ¬ s.all isDigit then none
  else if 1 < s.length ∧ s.head? = some '0' then none
  else if 255 < decimalValue s then none else some (decimalValue s)

def parseIPv4Fields (s : Text) : Option ℕ :=
  match (s.splitOn '.').mapM parseField with
  | some [a, b, c, d] => some (((a * 256 + b) * 256 + c) * 256 + d)
  | _ => none

def groupsLoop : ℕ → List ℕ → Option ℕ → Text → Option (List ℕ × Option ℕ)
  -- What is left over is trailing garbage.
  | 0, groups, ellipsis, s => if s = [] then some (groups, ellipsis) else none
  | room + 1, groups, ellipsis, s =>
    let digits := s.takeWhile isHex
    let groups' := groups ++ [number 16 hexDigit digits]
    if digits = [] ∨ 4 < digits.length then none
    else
      match s.dropWhile isHex with
      | [] => some (groups', ellipsis)
      | '.' :: _ =>
        -- The last two groups as dotted decimals.
        if (ellipsis = none ∧ groups.length ≠ 6) ∨ room = 0 then none
        else (parseIPv4Fields s).map fun n => (groups ++ [n / 65536, n % 65536], ellipsis)
      | [':'] => none
      | ':' :: ':' :: rest =>
        if ellipsis.isSome then none
        else if rest = [] then some (groups', some groups'.length)
        else groupsLoop room groups' (some groups'.length) rest
      | ':' :: rest => groupsLoop room groups' ellipsis rest
      | _ => none

def expand (groups : List ℕ) (ellipsis : Option ℕ) : Option (List ℕ) :=
  match ellipsis with
  | none => if groups.length = 8 then some groups else none
  | some e =>
    if groups.length < 8 then
      some (groups.take e ++ List.replicate (8 - groups.length) 0 ++ groups.drop e)
    else none

def parseGroups (s : Text) : Option (List ℕ) :=
  match s with
  | [':', ':'] => some (List.replicate 8 0)
  | ':' :: ':' :: rest => (groupsLoop 8 [] (some 0) rest).bind fun r => expand r.1 r.2
  | _ => (groupsLoop 8 [] none s).bind fun r => expand r.1 r.2

def ofGroups (groups : List ℕ) : Addr :=
  .v6 (BitVec.ofNat 128 (groups.foldl (fun n w => n * 65536 + w) 0))

def parseIPv6 (s : Text) : Option (Addr × Text) :=
  let zone := s.dropWhile (· ≠ '%')
  if zone = ['%'] then none
  else (parseGroups (s.takeWhile (· ≠ '%'))).map fun groups => (ofGroups groups, zone)

def parseAddr (s : Text) : Option (Addr × Text) :=
  match s.find? fun c => c = '.' || c = ':' || c = '%' with
  | some '.' => (parseIPv4Fields s).map fun n => (.v4 (BitVec.ofNat 32 n), [])
  | some ':' => parseIPv6 s
  | _ => none

/-! ## Prefixes -/

def parseBits (s : Text) : Option ℕ :=
  if s = [] ∨ ¬ s.all isDigit then none
  else if 1 < s.length ∧ s.head? = some '0' then none else some (decimalValue s)

def splitSlash (s : Text) : Option (Text × Text) :=
  match s.reverse.dropWhile (· ≠ '/') with
  | [] => none
  | _ :: front => some (front.reverse, (s.reverse.takeWhile (· ≠ '/')).reverse)

def parsePrefix (s : Text) : Option Prefix := do
  let (addrText, bitsText) ← splitSlash s
  let (a, zone) ← parseAddr addrText
  if zone ≠ [] then none
  else
    let bits ← parseBits bitsText
    prefixFrom a bits

/-- What `netip` reads in a text. -/
def reading (s : Text) : Reading :=
  match parsePrefix s with
  | some p => .cidr p
  | none =>
    match parseAddr s with
    | some (a, zone) => .addr a zone
    | none => .malformed

/-! ## White space -/

def Begins (s : Text) : Prop := ∃ c rest, s = c :: rest ∧ isSpace c = false

variable {c : Char} {s : Text}

theorem isSpace_of_visible (hlow : '!' ≤ c) (hhigh : c ≤ '~') : isSpace c = false := by
  have hlow' : 33 ≤ c.toNat := hlow
  have hhigh' : c.toNat ≤ 126 := hhigh
  unfold isSpace
  rw [Bool.or_eq_false_iff, decide_eq_false_iff_not, Bool.and_eq_false_iff, decide_eq_false_iff_not]
  constructor
  · intro hmem
    simp only [List.mem_cons, List.not_mem_nil, or_false] at hmem
    omega
  · left
    omega

theorem isSpace_of_isDigit (h : isDigit c) : isSpace c = false := by
  unfold isDigit at h
  rw [Bool.and_eq_true, decide_eq_true_eq, decide_eq_true_eq] at h
  have hlow : '!' ≤ '0' := by decide
  have hhigh : '9' ≤ '~' := by decide
  exact isSpace_of_visible (le_trans hlow h.1) (le_trans h.2 hhigh)

theorem isSpace_of_isHex (h : isHex c) : isSpace c = false := by
  unfold isHex at h
  simp only [Bool.or_eq_true, Bool.and_eq_true, decide_eq_true_eq] at h
  have hlow : '!' ≤ 'a' := by decide
  have hhigh : 'f' ≤ '~' := by decide
  have hlow' : '!' ≤ 'A' := by decide
  have hhigh' : 'F' ≤ '~' := by decide
  rcases h with (h | h) | h
  · exact isSpace_of_isDigit h
  · exact isSpace_of_visible (le_trans hlow h.1) (le_trans h.2 hhigh)
  · exact isSpace_of_visible (le_trans hlow' h.1) (le_trans h.2 hhigh')

theorem begins_of_parseIPv4Fields {n : ℕ} (h : parseIPv4Fields s = some n) : Begins s := by
  cases s with
  | nil => cases h
  | cons c rest =>
    refine ⟨c, rest, rfl, ?_⟩
    unfold parseIPv4Fields at h
    rw [List.splitOn_cons_eq_if_modifyHead] at h
    by_cases hdot : c = '.'
    · subst hdot
      have hfirst : parseField [] = none := rfl
      simp [hfirst] at h
    · rw [if_neg (by simpa using hdot)] at h
      cases hsplit : rest.splitOn '.' with
      | nil => exact absurd hsplit (List.splitOn_ne_nil _ _)
      | cons field fields =>
        rw [hsplit, List.modifyHead_cons, List.mapM_cons] at h
        have hfield : parseField (c :: field) ≠ none := by
          intro hnone
          rw [hnone] at h
          cases h
        unfold parseField at hfield
        by_contra hspace
        apply hfield
        rw [if_pos]
        right
        intro hall
        rw [List.all_cons, Bool.and_eq_true] at hall
        exact hspace (isSpace_of_isDigit hall.1)

theorem begins_of_groupsLoop {room : ℕ} {groups : List ℕ} {ellipsis : Option ℕ}
    {r : List ℕ × Option ℕ} (h : groupsLoop (room + 1) groups ellipsis s = some r) : Begins s := by
  cases s with
  | nil => cases h
  | cons c rest =>
    refine ⟨c, rest, rfl, ?_⟩
    by_contra hspace
    have hhex : isHex c = false := by
      by_contra hhex
      exact hspace (isSpace_of_isHex (by simpa using hhex))
    unfold groupsLoop at h
    rw [List.takeWhile_cons_of_neg (by simp [hhex])] at h
    simp at h

theorem begins_of_parseGroups {groups : List ℕ} (h : parseGroups s = some groups) : Begins s := by
  have hcolon : isSpace ':' = false := by decide
  unfold parseGroups at h
  split at h
  · exact ⟨_, _, rfl, hcolon⟩
  · exact ⟨_, _, rfl, hcolon⟩
  · obtain ⟨r, hr, -⟩ := Option.bind_eq_some_iff.mp h
    exact begins_of_groupsLoop hr

theorem begins_of_parseAddr {r : Addr × Text} (h : parseAddr s = some r) : Begins s := by
  unfold parseAddr at h
  split at h
  · obtain ⟨n, hn, -⟩ := Option.map_eq_some_iff.mp h
    exact begins_of_parseIPv4Fields hn
  · unfold parseIPv6 at h
    dsimp only at h
    split at h
    · cases h
    · obtain ⟨groups, hgroups, -⟩ := Option.map_eq_some_iff.mp h
      obtain ⟨c, rest, hs, hspace⟩ := begins_of_parseGroups hgroups
      cases s with
      | nil => cases hs
      | cons d s =>
        rw [List.takeWhile_cons] at hs
        split at hs
        · exact ⟨d, s, rfl, (List.cons.inj hs).1 ▸ hspace⟩
        · cases hs
  · cases h

theorem trim_of_ends (hbegins : Begins s) (hlast : s.getLast? = some c)
    (hspace : isSpace c = false) : trim isSpace s = s := by
  obtain ⟨d, rest, rfl, hd⟩ := hbegins
  unfold trim
  rw [List.dropWhile_cons_of_neg (by simp [hd])]
  obtain ⟨front, hfront⟩ := List.getLast?_eq_some_iff.mp hlast
  rw [hfront, List.rdropWhile_concat_neg _ _ _ (by simp [hspace])]

theorem eq_of_splitSlash {parts : Text × Text} (h : splitSlash s = some parts) :
    s = parts.1 ++ '/' :: parts.2 := by
  have hboth : s.reverse.takeWhile (· ≠ '/') ++ s.reverse.dropWhile (· ≠ '/') = s.reverse :=
    List.takeWhile_append_dropWhile
  unfold splitSlash at h
  split at h
  · cases h
  next slash front hdrop =>
    cases h
    have hslash : slash = '/' := by
      have hhead := List.head?_dropWhile_not (· ≠ '/') s.reverse
      rw [hdrop] at hhead
      simpa using hhead
    rw [hdrop, hslash] at hboth
    have hs := congrArg List.reverse hboth
    rw [List.reverse_reverse, List.reverse_append, List.reverse_cons, List.append_assoc] at hs
    exact hs.symm

theorem getLast_of_parseBits {bits : ℕ} (h : parseBits s = some bits) :
    ∃ c, s.getLast? = some c ∧ isSpace c = false := by
  unfold parseBits at h
  split at h
  · cases h
  next hdigits =>
    rw [not_or, not_not] at hdigits
    obtain ⟨front, c, rfl⟩ := List.eq_nil_or_concat s |>.resolve_left hdigits.1
    have hc := List.all_eq_true.mp hdigits.2 c (by simp)
    exact ⟨c, by simp, isSpace_of_isDigit hc⟩

theorem trim_of_parsePrefix {p : Prefix} (h : parsePrefix s = some p) : trim isSpace s = s := by
  obtain ⟨⟨addrText, bitsText⟩, hsplit, h⟩ := Option.bind_eq_some_iff.mp h
  obtain ⟨⟨a, zone⟩, haddr, h⟩ := Option.bind_eq_some_iff.mp h
  dsimp only at h haddr
  split at h
  · cases h
  · obtain ⟨bits, hbits, -⟩ := Option.bind_eq_some_iff.mp h
    obtain ⟨c, rest, hbegins, hc⟩ := begins_of_parseAddr haddr
    obtain ⟨d, hlast, hd⟩ := getLast_of_parseBits hbits
    have hs : s = addrText ++ '/' :: bitsText := eq_of_splitSlash hsplit
    refine trim_of_ends ⟨c, rest ++ '/' :: bitsText, ?_, hc⟩ ?_ hd
    · rw [hs, hbegins, List.cons_append]
    · obtain ⟨front, rfl⟩ := List.getLast?_eq_some_iff.mp hlast
      rw [hs, ← List.cons_append, ← List.append_assoc]
      exact List.getLast?_concat

example : (parsePrefix "fd00::/8".toList).map Prefix.bits = some 8 := by rfl

end Insula.Netip
