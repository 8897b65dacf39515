import Insula.IpText
import Insula.Javascript
import Mathlib

/-!
# Outbound fetches

A fetch of a URL that is not trusted refuses a host that is an internal address, and a name that
resolves to one. The check reads the text of an address. One fetch of the backend follows no
redirect; two of the file manager follow some, with the same checks at each.
-/

namespace Insula.SsrfGuard

open IpText Javascript
open scoped Lookup

/-! ## The check -/

/-- `Number` on decimal digits. -/
def numberOf (s : Text) : Option ℕ :=
  if ∀ c ∈ s, c.isDigit then some (Nat.ofDigitChars 10 s 0) else none

def hexValue (c : Char) : Option ℕ :=
  if c.isDigit then some (c.toNat - '0'.toNat)
  else if 'a' ≤ c ∧ c ≤ 'f' then some (c.toNat - 'a'.toNat + 10)
  else if 'A' ≤ c ∧ c ≤ 'F' then some (c.toNat - 'A'.toNat + 10)
  else none

/-- `parseInt` on digits of base 16: as many as there are, none makes `NaN`. -/
def hexDigits (s : Text) : Option ℕ :=
  let ds := s.takeWhile fun c => (hexValue c).isSome
  if ds = [] then none else some (ds.foldl (fun n c => 16 * n + (hexValue c).getD 0) 0)

def parseInt16 (s : Text) : Option ℤ :=
  let s := s.dropWhile isSpace
  let sign : ℤ := if s.head? = some '-' then -1 else 1
  let s := if s.head? = some '-' ∨ s.head? = some '+' then s.drop 1 else s
  let s := if ['0', 'x'] <+: s ∨ ['0', 'X'] <+: s then s.drop 2 else s
  (hexDigits s).map fun n : ℕ => sign * (n : ℤ)

/-- `h & mask` on 32-bit integers, `NaN` as zero. -/
def bitAnd (h : Option ℤ) (mask : BitVec 32) : BitVec 32 := BitVec.ofInt 32 (h.getD 0) &&& mask

def stripBrackets (s : Text) : Text :=
  let s := if s.head? = some '[' then s.drop 1 else s
  if s.getLast? = some ']' then s.dropLast else s

def toLowerCase (s : Text) : Text := s.map Char.toLower

theorem length_stripBrackets (s : Text) : (stripBrackets s).length ≤ s.length := by
  have hfirst : (if s.head? = some '[' then s.drop 1 else s).length ≤ s.length := by
    split <;> simp
  have hlast : ∀ t : Text, (if t.getLast? = some ']' then t.dropLast else t).length ≤ t.length := by
    intro t
    split <;> simp
  exact (hlast _).trans hfirst

def v4IsInternal (ip : Text) : Bool :=
  let o := fun i => (ip.splitOn '.')[i]?.bind numberOf
  if o 0 = some 0 then true
  else if o 0 = some 127 then true
  else if o 0 = some 10 then true
  else if o 0 = some 172 ∧ (o 1).any (fun n => 16 ≤ n && n ≤ 31) then true
  else if o 0 = some 192 ∧ o 1 = some 168 then true
  else if o 0 = some 169 ∧ o 1 = some 254 then true
  else if o 0 = some 100 ∧ (o 1).any (fun n => 64 ≤ n && n ≤ 127) then true
  else false

def firstGroup (lo : Text) : Text :=
  let first := lo.takeWhile (· ≠ ':')
  if first = [] then ['0'] else first

def groupIsInternal (h0 : Option ℤ) : Bool :=
  if h0.any (fun h => 0xfe80 ≤ h && h ≤ 0xfebf) then true
  else if bitAnd h0 0xfe00#32 = 0xfc00#32 then true
  else if h0 = some 0x2002 then true
  else false

section Check

variable (isIP : Text → ℕ)

def ipIsInternal (ip : Text) : Bool :=
  if isIP ip = 4 then v4IsInternal ip
  else if isIP ip = 6 then
    let lo := stripBrackets (toLowerCase ip)
    if lo = "::1".toList ∨ lo = "::".toList then true
    else if _h : "::ffff:".toList <+: lo then ipIsInternal (lo.drop 7)
    else groupIsInternal (parseInt16 (firstGroup lo))
  else true
termination_by ip.length
decreasing_by
  have hlen : "::ffff:".toList.length ≤ (stripBrackets (toLowerCase ip)).length := _h.length_le
  have hshort := length_stripBrackets (toLowerCase ip)
  have hlower : (toLowerCase ip).length = ip.length := List.length_map ..
  have hseven : "::ffff:".toList.length = 7 := rfl
  rw [List.length_drop]
  omega

end Check

/-! ## Hosts, answers and connections -/

inductive Host
  | name (n : Text)
  | v4 (a : V4)
  | v6 (a : V6)
deriving DecidableEq, Repr

def Host.hostname : Host → Text
  | .name n => n
  | .v4 a => dotted a
  | .v6 a => '[' :: a.urlText ++ [']']

structure Url where
  protocol : Text
  host : Host
deriving DecidableEq, Repr

/-- What meets one request: what the resolver says if it is asked, whether the socket asks for all
addresses, and the status and location of the response. -/
structure Hop where
  answer : Option (List Address)
  all : Bool
  response : Option (ℕ × Option Text)
deriving DecidableEq, Repr

section Fetch

variable (isIP : Text → ℕ) (parse : Text → Option Url) (resolve : Text → Text → Option Text)

def urlHostIsInternalLiteral (urlStr : Text) : Bool :=
  match parse urlStr with
  | none => true
  | some url =>
    let host := stripBrackets url.host.hostname
    decide (isIP host ≠ 0) && ipIsInternal isIP host

def safeLookup (hop : Hop) : List Address :=
  match hop.answer with
  | none => []
  | some list =>
    if list.any fun a => ipIsInternal isIP a.resolverText then []
    else if hop.all then list
    else list.take 1

def connect (url : Url) (hop : Hop) : List Address :=
  match url.host with
  | .name _ => safeLookup isIP hop
  | .v4 a => [.v4 a]
  | .v6 a => [.v6 a]

def http : Text := "http:".toList

def https : Text := "https:".toList

def guardedFetch (urlStr : Text) (hop : Hop) : List Address :=
  match parse urlStr with
  | none => []
  | some url =>
    if url.protocol ≠ http ∧ url.protocol ≠ https then []
    else if urlHostIsInternalLiteral isIP parse urlStr then []
    else connect isIP url hop

def httpScheme (u : Text) : Bool :=
  "http://".toList.isPrefixOf (toLowerCase u) || "https://".toList.isPrefixOf (toLowerCase u)

def get (u : Text) (hop : Hop) : List Address :=
  match parse u with
  | none => []
  | some url =>
    if url.protocol = (if "https".toList.isPrefixOf u then https else http) then
      connect isIP url hop
    else []

def request (u : Text) (hop : Hop) : List Address :=
  if ¬httpScheme u then []
  else if urlHostIsInternalLiteral isIP parse u then []
  else get isIP parse u hop

def redirects : List ℕ := [301, 302, 303, 307, 308]

def Hop.location (hop : Hop) : Option Text :=
  hop.response.bind fun (status, location) =>
    if status ∈ redirects then location.filter (· ≠ []) else none

/-- The addresses `fetchWithRedirects` may connect to, one hop of the list for each request. -/
def fetchWithRedirects (maxRedirects : ℕ) (u : Text) : List Hop → List Address
  | [] => []
  | hop :: hops =>
    let opened := request isIP parse u hop
    if opened = [] then []
    else
      opened ++ match hop.location with
      | none => []
      | some location =>
        if maxRedirects = 0 then []
        else
          match resolve location u with
          | none => []
          | some next => fetchWithRedirects (maxRedirects - 1) next hops

/-- The `doFetch` of `fetchUrl`, which counts the redirects it followed. -/
def doFetch (followed : ℕ) (u : Text) : List Hop → List Address
  | [] => []
  | hop :: hops =>
    let opened := request isIP parse u hop
    if opened = [] then []
    else
      opened ++ match hop.location with
      | none => []
      | some location =>
        if followed < 5 then
          match resolve location u with
          | none => []
          | some next => doFetch (followed + 1) next hops
        else []

def fetchUrl (u : Text) (hops : List Hop) : List Address := doFetch isIP parse resolve 0 u hops

end Fetch

/-! ## What the check says of the text of an address -/

variable {t : Text} {n : ℕ}

theorem toLowerCase_ofAddress (h : ∀ c ∈ t, ofAddress c) : toLowerCase t = t := by
  have hlower : ∀ c ∈ "0123456789abcdef:.".toList, c.toLower = c := by decide
  unfold toLowerCase
  conv_rhs => rw [← List.map_id t]
  apply List.map_congr_left
  intro c hc
  exact hlower c (h c hc)

theorem stripBrackets_of_notMem (hopen : '[' ∉ t) (hclose : ']' ∉ t) : stripBrackets t = t := by
  have hhead : t.head? ≠ some '[' := fun h => hopen (List.mem_of_mem_head? h)
  have hlast : t.getLast? ≠ some ']' := fun h => hclose (List.mem_of_getLast? h)
  unfold stripBrackets
  simp only [if_neg hhead, if_neg hlast]

theorem stripBrackets_ofAddress (h : ∀ c ∈ t, ofAddress c) : stripBrackets t = t := by
  apply stripBrackets_of_notMem
  all_goals
    intro hmem
    have := h _ hmem
    revert this
    unfold ofAddress
    decide

theorem stripBrackets_bracketed (t : Text) : stripBrackets ('[' :: t ++ [']']) = t := by
  simp [stripBrackets]

theorem numberOf_decimal (n : ℕ) : numberOf (decimal n) = some n := by
  have hdigits : ∀ c ∈ decimal n, c.isDigit = true := by
    intro c hc
    have : ∀ c ∈ "0123456789".toList, c.isDigit = true := by decide
    exact this c (mem_decimal hc)
  unfold numberOf
  rw [if_pos hdigits]
  exact congrArg some Nat.ofDigitChars_ten_toDigits

theorem splitOn_dotted (a : V4) :
    (dotted a).splitOn '.' = [decimal a.a, decimal a.b, decimal a.c, decimal a.d] := by
  apply List.splitOn_intercalate
  · intro l hl
    simp only [List.mem_cons, List.not_mem_nil, or_false] at hl
    rcases hl with rfl | rfl | rfl | rfl
    all_goals exact (notMem_decimal _).2
  · simp

theorem v4IsInternal_dotted (a : V4) : v4IsInternal (dotted a) = true ↔ a.Internal := by
  unfold v4IsInternal V4.Internal
  rw [splitOn_dotted]
  simp only [List.getElem?_cons_zero, List.getElem?_cons_succ, Option.bind_some, numberOf_decimal,
    Option.some.injEq, Option.any_some, Bool.if_true_left, Bool.or_eq_true, decide_eq_true_eq,
    Bool.and_eq_true, Fin.ext_iff, Fin.le_def, Bool.if_false_right, and_true]
  rfl

theorem hexValue_digitChar {d : ℕ} (h : d < 16) : hexValue (Nat.digitChar d) = some d := by
  have hall : ∀ d < 16, hexValue (Nat.digitChar d) = some d := by decide
  exact hall d h

theorem foldl_hex (n : ℕ) : (hex n).foldl (fun n c => 16 * n + (hexValue c).getD 0) 0 = n := by
  unfold hex
  induction n using Nat.strongRecOn with
  | _ n ih =>
    rw [Nat.toDigits_eq_if (by decide)]
    split
    · rename_i hlt
      simp [hexValue_digitChar hlt]
    · rw [List.foldl_append, ih (n / 16) (by omega)]
      simp only [List.foldl_cons, List.foldl_nil, hexValue_digitChar (Nat.mod_lt n (by omega : 0 < 16)),
        Option.getD_some]
      omega

theorem parseInt16_hex (n : ℕ) : parseInt16 (hex n) = some (n : ℤ) := by
  have hdigit : ∀ c ∈ hex n, (hexValue c).isSome = true ∧ isSpace c = false ∧ c ≠ '-' ∧ c ≠ '+' ∧
      c ≠ 'x' ∧ c ≠ 'X' := by
    intro c hc
    have : ∀ c ∈ "0123456789abcdef".toList, (hexValue c).isSome = true ∧ isSpace c = false ∧
      c ≠ '-' ∧ c ≠ '+' ∧ c ≠ 'x' ∧ c ≠ 'X' := by decide
    exact this c (mem_hex hc)
  have hspace : (hex n).dropWhile isSpace = hex n := by
    apply List.dropWhile_eq_self_iff.mpr
    intro hlen
    have := (hdigit _ (List.getElem_mem hlen)).2.1
    simpa using this
  have hsign : ∀ c, c ∉ hex n → (hex n).head? ≠ some c := fun c hc h => hc (List.mem_of_mem_head? h)
  have hminus := hsign '-' fun h => (hdigit _ h).2.2.1 rfl
  have hplus := hsign '+' fun h => (hdigit _ h).2.2.2.1 rfl
  have hx : ¬(['0', 'x'] <+: hex n ∨ ['0', 'X'] <+: hex n) := by
    rintro (h | h)
    · exact (hdigit 'x' (h.subset (by simp))).2.2.2.2.1 rfl
    · exact (hdigit 'X' (h.subset (by simp))).2.2.2.2.2 rfl
  have hall : (hex n).takeWhile (fun c => (hexValue c).isSome) = hex n := by
    apply List.takeWhile_eq_self_iff.mpr
    intro c hc
    exact (hdigit c hc).1
  unfold parseInt16 hexDigits
  simp only [hspace, hminus, hplus, or_self, if_false, hx, hall, hex_ne_nil, foldl_hex,
    Option.map_some, one_mul]

theorem and_mask (h : n < 65536) : n &&& 65024 = 512 * (n / 512) := by
  have hhigh : (n &&& 65024) / 512 = n / 512 := by
    have hshift : (n &&& 65024) >>> 9 = n >>> 9 &&& 127 := Nat.shiftRight_and_distrib
    rw [Nat.shiftRight_eq_div_pow, Nat.shiftRight_eq_div_pow,
      Nat.and_two_pow_sub_one_eq_mod (n / 2 ^ 9) 7] at hshift
    omega
  have hlow : (n &&& 65024) % 512 = 0 := by
    have hmod : (n &&& 65024) % 2 ^ 9 = n % 2 ^ 9 &&& 65024 % 2 ^ 9 := Nat.and_mod_two_pow
    change (n &&& 65024) % 2 ^ 9 = 0
    rw [hmod]
    exact Nat.and_zero _
  omega

theorem bitAnd_group (h : n < 65536) :
    bitAnd (some (n : ℤ)) 0xfe00#32 = 0xfc00#32 ↔ 0xfc00 ≤ n ∧ n ≤ 0xfdff := by
  unfold bitAnd
  rw [← BitVec.toNat_inj, BitVec.toNat_and, Option.getD_some, BitVec.ofInt_natCast,
    BitVec.toNat_ofNat, Nat.mod_eq_of_lt (by omega : n < 2 ^ 32)]
  change n &&& 65024 = 64512 ↔ _
  rw [and_mask h]
  omega

theorem groupIsInternal_iff (h : n < 65536) : groupIsInternal (some (n : ℤ)) = true ↔
    (0xfe80 ≤ n ∧ n ≤ 0xfebf) ∨ (0xfc00 ≤ n ∧ n ≤ 0xfdff) ∨ n = 0x2002 := by
  unfold groupIsInternal
  simp only [Option.any_some, Bool.if_true_left, bitAnd_group h, Bool.or_eq_true,
    Bool.and_eq_true, decide_eq_true_eq, Option.some.injEq, Bool.if_false_right, and_true]
  omega

theorem firstGroup_hex (n : ℕ) (rest : Text) : firstGroup (hex n ++ ':' :: rest) = hex n := by
  have htake : (hex n ++ ':' :: rest).takeWhile (· ≠ ':') = hex n := by
    rw [List.takeWhile_append_of_pos]
    · simp
    · intro c hc
      simp only [decide_eq_true_eq]
      rintro rfl
      exact colon_notMem_hex n hc
  unfold firstGroup
  simp only [htake, if_neg (hex_ne_nil n)]

section Texts

variable {isIP : Text → ℕ} {t : Text} {a : V6}

theorem ipIsInternal_v6 (hIP : isIP t = 6) (ht : ∀ c ∈ t, ofAddress c) :
    ipIsInternal isIP t = if t = "::1".toList ∨ t = "::".toList then true
      else if "::ffff:".toList <+: t then ipIsInternal isIP (t.drop 7)
      else groupIsInternal (parseInt16 (firstGroup t)) := by
  rw [ipIsInternal, if_neg (by omega), if_pos hIP]
  simp only [toLowerCase_ofAddress ht, stripBrackets_ofAddress ht, dite_eq_ite]

theorem ipIsInternal_group {n : ℕ} {rest : Text} (hn : n < 65536)
    (hIP : isIP (hex n ++ ':' :: rest) = 6) (ht : ∀ c ∈ hex n ++ ':' :: rest, ofAddress c) :
    ipIsInternal isIP (hex n ++ ':' :: rest) = true ↔
      (0xfe80 ≤ n ∧ n ≤ 0xfebf) ∨ (0xfc00 ≤ n ∧ n ≤ 0xfdff) ∨ n = 0x2002 := by
  have hhead : ∀ t, ':' :: t ≠ hex n ++ ':' :: rest := by
    intro t heq
    obtain ⟨c, cs, hcs⟩ := List.exists_cons_of_ne_nil (hex_ne_nil n)
    rw [hcs, List.cons_append] at heq
    apply colon_notMem_hex n
    rw [hcs, ← (List.cons.inj heq).1]
    exact List.mem_cons_self
  have hexact : ¬(hex n ++ ':' :: rest = "::1".toList ∨ hex n ++ ':' :: rest = "::".toList) := by
    rintro (h | h)
    · exact hhead _ h.symm
    · exact hhead _ h.symm
  have hmapped : ¬"::ffff:".toList <+: hex n ++ ':' :: rest := by
    rintro ⟨t, h⟩
    exact hhead _ h
  rw [ipIsInternal_v6 hIP ht, if_neg hexact, if_neg hmapped, firstGroup_hex, parseInt16_hex]
  exact groupIsInternal_iff hn

/-- A text that begins with the run of zeros and not with the mapped prefix is taken as public. -/
theorem ipIsInternal_zeros (hIP : isIP (':' :: ':' :: t) = 6)
    (ht : ∀ c ∈ ':' :: ':' :: t, ofAddress c) (hempty : t ≠ []) (hone : t ≠ ['1'])
    (hmapped : ¬"ffff:".toList <+: t) : ipIsInternal isIP (':' :: ':' :: t) = false := by
  have hfirst : firstGroup (':' :: ':' :: t) = ['0'] := by simp [firstGroup]
  rw [ipIsInternal_v6 hIP ht, if_neg, if_neg, hfirst]
  · decide
  · rintro ⟨s, hs⟩
    apply hmapped
    exact ⟨s, (List.cons.inj (List.cons.inj hs).2).2⟩
  · rintro (h | h)
    · exact hone (List.cons.inj (List.cons.inj h).2).2
    · exact hempty (List.cons.inj (List.cons.inj h).2).2

/-- What node documents of `isIP`: 4 and 6 on the text of an address, 0 on what is none. -/
structure Recognises (isIP : Text → ℕ) : Prop where
  dotted : ∀ a, isIP (dotted a) = 4
  url : ∀ a : V6, isIP a.urlText = 6
  resolver : ∀ a : V6, isIP a.resolverText = 6
  groups : ∀ high low : Fin 65536, isIP (hex high ++ ':' :: hex low) = 0

def TextOf (t : Text) (a : V6) : Prop := t = a.urlText ∨ t = a.resolverText

theorem TextOf.url (a : V6) : TextOf a.urlText a := Or.inl rfl

theorem TextOf.resolver (a : V6) : TextOf a.resolverText a := Or.inr rfl

theorem TextOf.chars (h : TextOf t a) : ∀ c ∈ t, ofAddress c := by
  rcases h with h | h
  · rw [h]
    exact ofAddress_urlText a
  · rw [h]
    exact ofAddress_resolverText a

theorem TextOf.isIP_eq (h : TextOf t a) (K : Recognises isIP) : isIP t = 6 := by
  rcases h with h | h
  · rw [h]
    exact K.url a
  · rw [h]
    exact K.resolver a

theorem ipIsInternal_dotted (K : Recognises isIP) (a : V4) :
    ipIsInternal isIP (dotted a) = true ↔ a.Internal := by
  rw [ipIsInternal, if_pos (K.dotted a)]
  exact v4IsInternal_dotted a

theorem TextOf.group (h : TextOf t a) (K : Recognises isIP) (hw : a.w0.val ≠ 0) :
    ipIsInternal isIP t = true ↔
      a.linkLocal ∨ a.uniqueLocal ∨ a.sixToFour := by
  have hshape : ∃ rest, t = hex a.w0 ++ ':' :: rest := by
    rcases h with h | h
    · rw [h]
      exact V6.urlText_of_ne hw
    · rw [h]
      exact V6.resolverText_of_ne hw
  obtain ⟨rest, ht⟩ := hshape
  have hIP := h.isIP_eq K
  have hchars := h.chars
  rw [ht] at hIP hchars ⊢
  rw [ipIsInternal_group a.w0.isLt hIP hchars]
  unfold V6.linkLocal V6.uniqueLocal V6.sixToFour
  rw [Fin.ext_iff]
  rfl

theorem ipIsInternal_mapped (hIP : isIP ("::ffff:".toList ++ t) = 6)
    (ht : ∀ c ∈ "::ffff:".toList ++ t, ofAddress c) :
    ipIsInternal isIP ("::ffff:".toList ++ t) = ipIsInternal isIP t := by
  rw [ipIsInternal_v6 hIP ht, if_neg, if_pos (List.prefix_append _ _)]
  · rfl
  · rintro (h | h)
    · exact absurd (congrArg (fun t => t[2]?) h) (by simp)
    · exact absurd (congrArg (fun t => t[2]?) h) (by simp)

/-- The check finds an internal address in either text, unless it is hidden in one of the two
embeddings that it does not know. -/
theorem TextOf.blocked (h : TextOf t a) (K : Recognises isIP) (hinternal : a.Internal)
    (hhidden : ¬a.Hidden) : ipIsInternal isIP t = true := by
  have hgroup : ∀ hw : a.w0.val ≠ 0, a.linkLocal ∨ a.uniqueLocal ∨ a.sixToFour →
      ipIsInternal isIP t = true := fun hw => (h.group K hw).mpr
  have hend : a.unspecified ∨ a.loopback → ipIsInternal isIP t = true := by
    intro hzero
    have htext : t = "::1".toList ∨ t = "::".toList := by
      have hcompatible : a.compatible := by
        rcases hzero with hzero | hzero
        · exact hzero.1
        · exact hzero.1
      have h6 : a.w6 = 0 := by
        rcases hzero with hzero | hzero
        · exact hzero.2.1
        · exact hzero.2.1
      have hurl := V6.urlText_compatible hcompatible
      have hresolver := V6.resolverText_compatible hcompatible
      rw [if_pos h6] at hurl hresolver
      have ht : t = a.urlText := by
        rcases h with h | h
        · exact h
        · rw [h, hresolver]
      rw [ht, hurl]
      rcases hzero with hzero | hzero
      · rw [if_pos hzero.2.2]
        exact .inr rfl
      · rw [hzero.2.2]
        exact .inl rfl
    rw [ipIsInternal_v6 (h.isIP_eq K) h.chars, if_pos htext]
  rcases hinternal with hzero | hone | hlink | hlocal | ⟨b, hcarries, hb⟩
  · exact hend (.inl hzero)
  · exact hend (.inr hone)
  · apply hgroup _ (.inl hlink)
    have := hlink.1
    omega
  · apply hgroup _ (.inr (.inl hlocal))
    have := hlocal.1
    omega
  · rcases hcarries with ⟨hmapped | hcompatible | hnat, rfl⟩ | ⟨hsix, -⟩
    · have hIP := h.isIP_eq K
      have hchars := h.chars
      rcases h with h | h
      · rw [h, V6.urlText_mapped hmapped] at hIP hchars ⊢
        rw [ipIsInternal_mapped hIP hchars, ipIsInternal, K.groups]
        rfl
      · rw [h, V6.resolverText_mapped hmapped] at hIP hchars ⊢
        rw [ipIsInternal_mapped hIP hchars]
        exact (ipIsInternal_dotted K _).mpr hb
    · apply hend
      by_contra hzero
      rw [not_or] at hzero
      exact hhidden ⟨.inl ⟨hcompatible, hzero⟩, hb⟩
    · exact absurd ⟨.inr hnat, hb⟩ hhidden
    · apply hgroup _ (.inr (.inr hsix))
      rw [hsix]
      decide

theorem hex_injective {m n : ℕ} (h : hex m = hex n) : m = n := by
  rw [← foldl_hex m, ← foldl_hex n, h]

/-- The check lets a hidden address pass in either text. -/
theorem TextOf.passes (h : TextOf t a) (K : Recognises isIP) (hhidden : a.Hidden) :
    ipIsInternal isIP t = false := by
  obtain ⟨⟨hcompatible, hnotzero, hnotone⟩ | hnat, hlow⟩ := hhidden
  · have hshape : ∃ s, t = ':' :: ':' :: s ∧ s ≠ [] ∧ s ≠ ['1'] ∧ ¬"ffff:".toList <+: s := by
      by_cases h6 : a.w6 = 0
      · have h7 : a.w7 ≠ 0 := fun h7 => hnotzero ⟨hcompatible, h6, h7⟩
        have hurl := V6.urlText_compatible hcompatible
        have hresolver := V6.resolverText_compatible hcompatible
        rw [if_pos h6, if_neg h7] at hurl
        rw [if_pos h6] at hresolver
        refine ⟨hex a.w7, ?_, hex_ne_nil _, ?_, ?_⟩
        · rcases h with h | h
          · rw [h, hurl]
          · rw [h, hresolver, hurl]
        · intro hone
          have hvalue : a.w7.val = 1 := hex_injective hone
          exact hnotone ⟨hcompatible, h6, Fin.ext hvalue⟩
        · intro hpre
          exact colon_notMem_hex _ (hpre.subset (by simp))
      · rcases h with h | h
        · have hurl := V6.urlText_compatible hcompatible
          rw [if_neg h6] at hurl
          refine ⟨hex a.w6 ++ ':' :: hex a.w7, by rw [h, hurl], by simp, ?_, ?_⟩
          · intro hone
            have hcolon : ':' ∈ hex a.w6 ++ ':' :: hex a.w7 := by simp
            rw [hone] at hcolon
            simp at hcolon
          · rintro ⟨s, hs⟩
            have hword : hex a.w6 = hex 0xffff := by
              rw [← firstGroup_hex a.w6 (hex a.w7), ← hs]
              exact firstGroup_hex 0xffff s
            have hvalue : a.w6.val = 0xffff := hex_injective hword
            have hoctet : a.low.a.val = 255 := by
              change a.w6.val / 256 = 255
              omega
            exact hlow.first_ne hoctet
        · have hresolver := V6.resolverText_compatible hcompatible
          rw [if_neg h6] at hresolver
          have hdot : '.' ∈ dotted a.low := by simp [dotted]
          refine ⟨dotted a.low, by rw [h, hresolver], List.ne_nil_of_mem hdot, ?_, ?_⟩
          · intro hone
            rw [hone] at hdot
            simp at hdot
          · intro hpre
            exact colon_notMem_dotted _ (hpre.subset (by simp))
    obtain ⟨s, ht, hempty, hone, hmapped⟩ := hshape
    have hIP := h.isIP_eq K
    have hchars := h.chars
    rw [ht] at hIP hchars ⊢
    exact ipIsInternal_zeros hIP hchars hempty hone hmapped
  · have hw : a.w0.val = 0x64 := by
      rw [hnat.1]
      rfl
    rw [Bool.eq_false_iff]
    intro hblocked
    have := (h.group K (by omega)).mp hblocked
    unfold V6.linkLocal V6.uniqueLocal V6.sixToFour at this
    rw [Fin.ext_iff, hw] at this
    revert this
    decide

theorem resolverText_blocked (K : Recognises isIP) {a : Address} (h : a.Internal)
    (hhidden : ¬a.Hidden) : ipIsInternal isIP a.resolverText = true := by
  cases a with
  | v4 a => exact (ipIsInternal_dotted K a).mpr h
  | v6 a => exact (TextOf.resolver a).blocked K h hhidden

theorem resolverText_passes (K : Recognises isIP) {a : Address} (h : a.Hidden) :
    ipIsInternal isIP a.resolverText = false := by
  cases a with
  | v4 a => exact h.elim
  | v6 a => exact (TextOf.resolver a).passes K h

end Texts

/-! ## One request -/

section Requests

variable {isIP : Text → ℕ} {parse : Text → Option Url}

/-- What the URL standard says of a host of these schemes that is a name. -/
def NamesAreNoAddresses (isIP : Text → ℕ) (parse : Text → Option Url) : Prop :=
  ∀ u url n, parse u = some url → url.protocol = http ∨ url.protocol = https →
    url.host = .name n → '[' ∉ n ∧ ']' ∉ n ∧ isIP n = 0

/-- The request of a URL does not lead to a hidden address: the host is none, and of the addresses
that the resolver gives and the socket takes none is, or the check finds another of them. -/
def Clear (isIP : Text → ℕ) (url : Url) (hop : Hop) : Prop :=
  match url.host with
  | .v4 _ => True
  | .v6 a => ¬a.Hidden
  | .name _ => ∀ list ∈ hop.answer, (∃ a ∈ list, ipIsInternal isIP a.resolverText = true) ∨
      ∀ a ∈ if hop.all then list else list.take 1, ¬a.Hidden

theorem safeLookup_inside_iff (K : Recognises isIP) {hop : Hop} :
    (∀ a ∈ safeLookup isIP hop, ¬a.Internal) ↔
      ∀ list ∈ hop.answer, (∃ a ∈ list, ipIsInternal isIP a.resolverText = true) ∨
        ∀ a ∈ if hop.all then list else list.take 1, ¬a.Hidden := by
  unfold safeLookup
  rcases hanswer : hop.answer with _ | list
  · simp
  simp only [Option.mem_def, Option.some.injEq, forall_eq']
  by_cases hany : (list.any fun a => ipIsInternal isIP a.resolverText) = true
  · have hblocked : ∃ a ∈ list, ipIsInternal isIP a.resolverText = true := by
      simpa using hany
    simp only [if_pos hany, List.not_mem_nil, false_implies, implies_true, true_iff]
    exact .inl hblocked
  · have hpass : ∀ a ∈ list, ipIsInternal isIP a.resolverText = false := by simpa using hany
    have hnone : ¬∃ a ∈ list, ipIsInternal isIP a.resolverText = true := by
      rintro ⟨a, ha, hblocked⟩
      rw [hpass a ha] at hblocked
      cases hblocked
    have htaken : (if hop.all then list else list.take 1) ⊆ list := by
      split
      · exact List.Subset.refl list
      · exact List.take_subset 1 list
    rw [if_neg hany, or_iff_right hnone]
    constructor
    · intro h a ha hhidden
      exact h a ha hhidden.internal
    · intro h a ha hinternal
      have hblocked := resolverText_blocked K hinternal (h a ha)
      rw [hpass a (htaken ha)] at hblocked
      cases hblocked

/-- Past the literal check, the sockets of a request stay outside exactly if it is clear. -/
theorem connect_inside_iff (K : Recognises isIP) (N : NamesAreNoAddresses isIP parse) {u : Text}
    {url : Url} {hop : Hop} (hparse : parse u = some url)
    (hprotocol : url.protocol = http ∨ url.protocol = https) :
    (∀ a ∈ if urlHostIsInternalLiteral isIP parse u then [] else connect isIP url hop,
      ¬a.Internal) ↔ Clear isIP url hop := by
  unfold urlHostIsInternalLiteral connect Clear
  simp only [hparse]
  rcases hhost : url.host with n | a | a
  · obtain ⟨hopen, hclose, hname⟩ := N u url n hparse hprotocol hhost
    simp only [Host.hostname, stripBrackets_of_notMem hopen hclose, hname, ne_eq, not_true,
      decide_false, Bool.false_and, Bool.false_eq_true, if_false]
    exact safeLookup_inside_iff K
  · simp only [Host.hostname, stripBrackets_ofAddress (ofAddress_dotted a), K.dotted, ne_eq,
      iff_true]
    by_cases hblocked : ipIsInternal isIP (dotted a) = true
    · simp [hblocked]
    · have houtside : ¬a.Internal := fun h => hblocked ((ipIsInternal_dotted K a).mpr h)
      simp only [Bool.not_eq_true] at hblocked
      simp only [hblocked, Bool.and_false, Bool.false_eq_true, if_false, List.mem_singleton]
      rintro b rfl
      exact houtside
  · simp only [Host.hostname, stripBrackets_bracketed, K.url, ne_eq]
    by_cases hblocked : ipIsInternal isIP a.urlText = true
    · have hnot : ¬a.Hidden := by
        intro hhidden
        rw [(TextOf.url a).passes K hhidden] at hblocked
        cases hblocked
      simp [hblocked, hnot]
    · simp only [Bool.not_eq_true] at hblocked
      simp only [hblocked, Bool.and_false, Bool.false_eq_true, if_false, List.mem_singleton,
        forall_eq]
      constructor
      · intro h hhidden
        exact h (V6.Hidden.internal hhidden)
      · intro h hinternal
        rw [(TextOf.url a).blocked K hinternal h] at hblocked
        cases hblocked

/-- A request of the file manager that passes the tests of its scheme. -/
def Sent (parse : Text → Option Url) (u : Text) (url : Url) : Prop :=
  parse u = some url ∧ httpScheme u = true ∧
    url.protocol = if "https".toList.isPrefixOf u then https else http

theorem guardedFetch_inside_iff (K : Recognises isIP) (N : NamesAreNoAddresses isIP parse)
    (u : Text) (hop : Hop) : (∀ a ∈ guardedFetch isIP parse u hop, ¬a.Internal) ↔
      ∀ url ∈ parse u, url.protocol = http ∨ url.protocol = https → Clear isIP url hop := by
  unfold guardedFetch
  rcases hparse : parse u with _ | url
  · simp
  simp only [Option.mem_def, Option.some.injEq, forall_eq']
  by_cases hprotocol : url.protocol = http ∨ url.protocol = https
  · rw [if_neg (by tauto), connect_inside_iff K N hparse hprotocol]
    simp [hprotocol]
  · rw [if_pos (by tauto)]
    simp [hprotocol]

theorem request_inside_iff (K : Recognises isIP) (N : NamesAreNoAddresses isIP parse)
    (u : Text) (hop : Hop) : (∀ a ∈ request isIP parse u hop, ¬a.Internal) ↔
      ∀ url, Sent parse u url → Clear isIP url hop := by
  unfold request get Sent
  by_cases hscheme : httpScheme u = true
  · rcases hparse : parse u with _ | url
    · simp [hscheme]
    simp only [hscheme, not_true, if_false, Option.some.injEq, true_and, and_imp, forall_eq']
    by_cases hprotocol : url.protocol = if "https".toList.isPrefixOf u then https else http
    · have hhttp : url.protocol = http ∨ url.protocol = https := by
        rw [hprotocol]
        split
        · exact .inr rfl
        · exact .inl rfl
      rw [if_pos hprotocol, connect_inside_iff K N hparse hhttp]
      simp [hprotocol]
    · simp only [hprotocol, if_false, ite_self, List.not_mem_nil, false_implies, implies_true]
  · simp [hscheme]

end Requests

/-! ## Redirects -/

section Chains

variable (isIP : Text → ℕ) (parse : Text → Option Url) (resolve : Text → Text → Option Text)

def reached (left : ℕ) (u : Text) : List Hop → List (Text × Hop)
  | [] => []
  | hop :: hops =>
    (u, hop) ::
      if request isIP parse u hop = [] then []
      else
        match hop.location with
        | none => []
        | some location =>
          if left = 0 then []
          else
            match resolve location u with
            | none => []
            | some next => reached (left - 1) next hops

theorem fetchWithRedirects_eq (left : ℕ) (u : Text) (hops : List Hop) :
    fetchWithRedirects isIP parse resolve left u hops =
      (reached isIP parse resolve left u hops).flatMap fun r => request isIP parse r.1 r.2 := by
  induction hops generalizing left u with
  | nil => rfl
  | cons hop hops ih =>
    unfold fetchWithRedirects reached
    simp only [List.flatMap_cons]
    by_cases hopened : request isIP parse u hop = []
    · simp [hopened]
    · rw [if_neg hopened, if_neg hopened]
      apply congrArg (request isIP parse u hop ++ ·)
      rcases hop.location with _ | location
      · rfl
      · by_cases hleft : left = 0
        · simp [hleft]
        · simp only [if_neg hleft]
          rcases resolve location u with _ | next
          · rfl
          · exact ih (left - 1) next

/-- The two loops count in opposite directions. -/
theorem doFetch_eq (followed : ℕ) (u : Text) (hops : List Hop) :
    doFetch isIP parse resolve followed u hops =
      fetchWithRedirects isIP parse resolve (5 - followed) u hops := by
  induction hops generalizing followed u with
  | nil => rfl
  | cons hop hops ih =>
    unfold doFetch fetchWithRedirects
    by_cases hfollowed : followed < 5
    · have hleft : 5 - followed ≠ 0 := by omega
      have hnext : 5 - followed - 1 = 5 - (followed + 1) := by omega
      simp only [if_pos hfollowed, if_neg hleft, hnext, ih]
    · have hleft : 5 - followed = 0 := by omega
      simp only [if_neg hfollowed, if_pos hleft]

variable {isIP parse}

theorem fetchWithRedirects_inside_iff (K : Recognises isIP) (N : NamesAreNoAddresses isIP parse)
    (maxRedirects : ℕ) (u : Text) (hops : List Hop) :
    (∀ a ∈ fetchWithRedirects isIP parse resolve maxRedirects u hops, ¬a.Internal) ↔
      ∀ r ∈ reached isIP parse resolve maxRedirects u hops,
        ∀ url, Sent parse r.1 url → Clear isIP url r.2 := by
  rw [fetchWithRedirects_eq]
  simp only [List.mem_flatMap, forall_exists_index, and_imp]
  constructor
  · intro h r hr
    exact (request_inside_iff K N r.1 r.2).mp fun a ha => h a r hr ha
  · intro h a r hr ha
    exact (request_inside_iff K N r.1 r.2).mpr (h r hr) a ha

/-- The fetches stay outside exactly if no request that is sent leads to a hidden address. -/
theorem fetches_stay_outside_iff (K : Recognises isIP) (N : NamesAreNoAddresses isIP parse)
    (u : Text) (hop : Hop) (hops : List Hop) : ((∀ a ∈ guardedFetch isIP parse u hop, ¬a.Internal) ↔
      ∀ url ∈ parse u, url.protocol = http ∨ url.protocol = https → Clear isIP url hop) ∧
    (∀ maxRedirects,
      (∀ a ∈ fetchWithRedirects isIP parse resolve maxRedirects u hops, ¬a.Internal) ↔
        ∀ r ∈ reached isIP parse resolve maxRedirects u hops,
          ∀ url, Sent parse r.1 url → Clear isIP url r.2) ∧
    ((∀ a ∈ fetchUrl isIP parse resolve u hops, ¬a.Internal) ↔
      ∀ r ∈ reached isIP parse resolve 5 u hops,
        ∀ url, Sent parse r.1 url → Clear isIP url r.2) := by
  refine ⟨guardedFetch_inside_iff K N u hop, ?_, ?_⟩
  · intro maxRedirects
    exact fetchWithRedirects_inside_iff resolve K N maxRedirects u hops
  · unfold fetchUrl
    rw [doFetch_eq]
    exact fetchWithRedirects_inside_iff resolve K N 5 u hops

end Chains

/-! ## Two fetches that get inside -/

def looksLikeIP (t : Text) : ℕ :=
  if 2 ≤ t.count ':' then 6
  else if ':' ∉ t ∧ t.count '.' = 3 ∧ ∀ c ∈ t, c.isDigit ∨ c = '.' then 4
  else 0

theorem count_joined (gs : List Text) : gs.length ≤ (joined gs).count ':' + 1 := by
  induction gs with
  | nil => simp
  | cons g gs ih =>
    by_cases hgs : gs = []
    · simp [hgs]
    · rw [joined_cons g hgs, List.count_append, List.count_cons_self, List.length_cons]
      omega

theorem two_le_count_shortened (ws : List ℕ) (h : 3 ≤ ws.length) :
    2 ≤ (shortened ws).count ':' := by
  unfold shortened
  simp only
  split
  · have := count_joined (ws.map hex)
    rw [List.length_map] at this
    omega
  · rw [List.count_append, List.count_cons_self, List.count_cons_self]
    omega

theorem looksLikeIP_recognises : Recognises looksLikeIP where
  dotted a := by
    have hcolon : (dotted a).count ':' = 0 := List.count_eq_zero.mpr (colon_notMem_dotted a)
    have hdots : (dotted a).count '.' = 3 := by
      have hnone : ∀ n, (decimal n).count '.' = 0 := fun n =>
        List.count_eq_zero.mpr (notMem_decimal n).2
      simp [dotted, List.intercalate_cons_cons, hnone]
    have hchars : ∀ c ∈ dotted a, c.isDigit = true ∨ c = '.' := by
      intro c hc
      rcases mem_intercalate hc with h | ⟨g, hg, hc⟩
      · exact .inr h
      · have hdigits : ∀ c ∈ "0123456789".toList, c.isDigit = true := by decide
        simp only [List.mem_cons, List.not_mem_nil, or_false] at hg
        rcases hg with rfl | rfl | rfl | rfl
        all_goals exact .inl (hdigits c (mem_decimal hc))
    unfold looksLikeIP
    rw [if_neg (by omega), if_pos ⟨colon_notMem_dotted a, hdots, hchars⟩]
  url a := if_pos (two_le_count_shortened a.words (by simp [V6.words]))
  resolver a := by
    apply if_pos
    unfold V6.resolverText
    simp only
    split
    · rw [List.count_cons_self, List.count_cons_self]
      omega
    · exact two_le_count_shortened a.words (by simp [V6.words])
  groups high low := by
    have hcolons : (hex high ++ ':' :: hex low).count ':' = 1 := by
      have hnone : ∀ n, (hex n).count ':' = 0 := fun n =>
        List.count_eq_zero.mpr (colon_notMem_hex n)
      simp [hnone]
    unfold looksLikeIP
    rw [if_neg (by omega), if_neg]
    rintro ⟨hcolon, -⟩
    simp at hcolon

def compatibleLoopback : V6 := V6.ofWords fun i => [0, 0, 0, 0, 0, 0, 0x7f00, 1].getD i 0

def translatedMetadata : V6 :=
  V6.ofWords fun i => [0x64, 0xff9b, 0, 0, 0, 0, 0xa9fe, 0xa9fe].getD i 0

def parseTwo (u : Text) : Option Url :=
  if u = "http://[::127.0.0.1]/".toList then some ⟨http, .v6 compatibleLoopback⟩
  else if u = "http://example.org/".toList then some ⟨http, .name "example.org".toList⟩
  else none

theorem parseTwo_names : NamesAreNoAddresses looksLikeIP parseTwo := by
  intro u url n hparse _ hhost
  unfold parseTwo at hparse
  split_ifs at hparse
  · obtain rfl := Option.some.inj hparse
    cases hhost
  · obtain rfl := Option.some.inj hparse
    obtain rfl := Host.name.inj hhost
    decide

/-- A URL of the loopback address in its compatible form, and a name that resolves to the metadata
service behind NAT64, are connected to by all three fetches. -/
theorem internal_addresses_connected :
    Recognises looksLikeIP ∧ NamesAreNoAddresses looksLikeIP parseTwo ∧
      ∀ r ∈ [("http://[::127.0.0.1]/".toList, Hop.mk none false (some (200, none))),
          ("http://example.org/".toList,
            Hop.mk (some [.v6 translatedMetadata]) true (some (200, none)))],
        (∃ a ∈ guardedFetch looksLikeIP parseTwo r.1 r.2, a.Internal) ∧
        (∃ a ∈ fetchWithRedirects looksLikeIP parseTwo (fun _ _ => none) 5 r.1 [r.2],
          a.Internal) ∧
        ∃ a ∈ fetchUrl looksLikeIP parseTwo (fun _ _ => none) r.1 [r.2], a.Internal := by
  refine ⟨looksLikeIP_recognises, parseTwo_names, ?_⟩
  intro r hr
  have hunclear : ∃ url, parseTwo r.1 = some url ∧ url.protocol = http ∧ Sent parseTwo r.1 url ∧
      ¬Clear looksLikeIP url r.2 := by
    simp only [List.mem_cons, List.not_mem_nil, or_false] at hr
    rcases hr with rfl | rfl
    · refine ⟨⟨http, .v6 compatibleLoopback⟩, by rfl, rfl, ?_, ?_⟩
      · exact ⟨by rfl, by rfl, by rfl⟩
      · intro hclear
        exact hclear (by decide)
    · refine ⟨⟨http, .name "example.org".toList⟩, by rfl, rfl, ?_, ?_⟩
      · exact ⟨by rfl, by rfl, by rfl⟩
      · have hhidden : (Address.v6 translatedMetadata).Hidden := by
          change translatedMetadata.Hidden
          decide
        intro hclear
        rcases hclear _ rfl with ⟨a, ha, hblocked⟩ | hall
        · obtain rfl := List.mem_singleton.mp ha
          rw [resolverText_passes looksLikeIP_recognises hhidden] at hblocked
          cases hblocked
        · exact hall _ (by simp) hhidden
  obtain ⟨url, hparse, hprotocol, hsent, hclear⟩ := hunclear
  have hguarded : ∃ a ∈ guardedFetch looksLikeIP parseTwo r.1 r.2, a.Internal := by
    by_contra hnone
    apply hclear
    apply (guardedFetch_inside_iff looksLikeIP_recognises parseTwo_names r.1 r.2).mp _ url hparse
      (.inl hprotocol)
    intro a ha hinternal
    exact hnone ⟨a, ha, hinternal⟩
  have hredirects : ∃ a ∈ fetchWithRedirects looksLikeIP parseTwo (fun _ _ => none) 5 r.1 [r.2],
      a.Internal := by
    by_contra hnone
    apply hclear
    apply (fetchWithRedirects_inside_iff (fun _ _ => none) looksLikeIP_recognises parseTwo_names 5
      r.1 [r.2]).mp _ (r.1, r.2) (by simp [reached]) url hsent
    intro a ha hinternal
    exact hnone ⟨a, ha, hinternal⟩
  refine ⟨hguarded, hredirects, ?_⟩
  unfold fetchUrl
  rw [doFetch_eq]
  exact hredirects

theorem fetches_stay_outside_public_name :
    ((∀ a ∈ guardedFetch looksLikeIP parseTwo "http://example.org/".toList
        ⟨some [.v4 ⟨93, 184, 216, 34⟩], true, some (301, none)⟩, ¬a.Internal) ↔
      ∀ url ∈ parseTwo "http://example.org/".toList, url.protocol = http ∨ url.protocol = https →
        Clear looksLikeIP url ⟨some [.v4 ⟨93, 184, 216, 34⟩], true, some (301, none)⟩) :=
  (fetches_stay_outside_iff (fun _ _ => none) looksLikeIP_recognises parseTwo_names _ _ []).1

end Insula.SsrfGuard
