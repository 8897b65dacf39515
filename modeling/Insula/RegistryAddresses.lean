import Insula.RegistryProbe

/-!
# Where registry probes go

The check of a probe's URL reads the host as a text. It knows every text of an internal IPv4
address, but of IPv6 the loopback address alone, no name with a final dot and none that the resolver
completes. What it misses is described by the host, and decides which references and challenges send
a probe to an internal place.
-/

namespace Insula.CustomDeployments

open IpText Javascript Program
open SsrfGuard (Url Host https toLowerCase toLowerCase_ofAddress splitOn_dotted hex_injective)

-- A property of all members is decided along the list, not over all characters.
local instance (priority := high) decidableMembers {α : Type} (p : α → Prop) [DecidablePred p]
    (l : List α) : Decidable (∀ x ∈ l, p x) := List.decidableBAll p l

/-! ## Hosts -/

section Hosts

/-- Unspecified, loopback, private or link-local. -/
def InsideV4 (a : V4) : Prop :=
  (a.a.val = 0 ∧ a.b.val = 0 ∧ a.c.val = 0 ∧ a.d.val = 0) ∨ a.a.val = 127 ∨ a.a.val = 10 ∨
    (a.a.val = 192 ∧ a.b.val = 168) ∨ (a.a.val = 172 ∧ 16 ≤ a.b.val ∧ a.b.val ≤ 31) ∨
    (a.a.val = 169 ∧ a.b.val = 254)

def InsideV6 (a : V6) : Prop :=
  a.unspecified ∨ a.loopback ∨ a.linkLocal ∨ a.uniqueLocal ∨ ∃ b, a.Carries b ∧ InsideV4 b

/-- `localhost`, or a name of the cluster. -/
def LocalName (n : Text) : Prop :=
  n = "localhost".toList ∨ n = "svc".toList ∨ ".svc".toList <:+ n ∨ n = "local".toList ∨
    ".local".toList <:+ n

def withoutDot (n : Text) : Text := if n.getLast? = some '.' then n.dropLast else n

section Names

variable (urls : Urls)

def Inside : Host → Prop
  | .v4 a => InsideV4 a
  | .v6 a => InsideV6 a
  | .name n => LocalName (withoutDot (toLowerCase n)) ∨ urls.completed (toLowerCase n)

/-- A local name is missed with a final dot, and a name that is completed unless it ends as one of
the cluster. -/
def Missed : Host → Prop
  | .v4 _ => False
  | .v6 a => InsideV6 a ∧ ¬ a.loopback
  | .name n => ((toLowerCase n).getLast? = some '.' ∧ LocalName (toLowerCase n).dropLast) ∨
      (urls.completed (toLowerCase n) ∧ blockedHost n = false)

variable {urls}

theorem Missed.inside {h : Host} (hmissed : Missed urls h) : Inside urls h := by
  cases h with
  | v4 a => exact hmissed.elim
  | v6 a => exact hmissed.1
  | name n =>
    rcases hmissed with ⟨hdot, hlocal⟩ | ⟨hcompleted, -⟩
    · left
      unfold withoutDot
      rw [if_pos hdot]
      exact hlocal
    · exact .inr hcompleted

end Names

/-! ### What the check reads -/

theorem digitsRegex_decimal (n : ℕ) : digits (decimal n) = true := by
  unfold digits
  rw [Bool.and_eq_true, decide_eq_true_eq, List.all_eq_true]
  refine ⟨decimal_ne_nil n, ?_⟩
  intro c hc
  have hdigit : ∀ c ∈ "0123456789".toList, c.isDigit = true := by decide
  exact hdigit c (mem_decimal hc)

/-- The texts of internal IPv4 addresses are known. -/
theorem blockedHost_dotted {a : V4} (h : InsideV4 a) : blockedHost (dotted a) = true := by
  have hlower : toLowerCase (dotted a) = dotted a := toLowerCase_ofAddress (ofAddress_dotted a)
  have hprivate : ∀ b : Fin 256, 16 ≤ b.val → b.val ≤ 31 →
      (["16", "17", "18", "19", "20", "21", "22", "23", "24", "25", "26", "27", "28", "29", "30",
        "31"].any fun second => decide (decimal b = second.toList)) = true := by decide +kernel
  have hone : decimal 127 = "127".toList := by decide
  have hten : decimal 10 = "10".toList := by decide
  unfold blockedHost
  rw [Bool.or_eq_true]
  left
  rw [hlower]
  unfold blockedRealmHost
  rcases h with ⟨ha, hb, hc, hd⟩ | ha | ha | ⟨ha, hb⟩ | ⟨ha, hlow, hhigh⟩ | ⟨ha, hb⟩
  · have htext : dotted a = "0.0.0.0".toList := by
      unfold dotted
      rw [ha, hb, hc, hd]
      decide
    rw [htext]
    decide
  · simp [splitOn_dotted, digitsRegex_decimal, ha, hone]
  · simp [splitOn_dotted, digitsRegex_decimal, ha, hten]
  · have hfirst : decimal 192 = "192".toList := by decide
    have hsecond : decimal 168 = "168".toList := by decide
    simp [splitOn_dotted, digitsRegex_decimal, ha, hb, hfirst, hsecond]
  · have hfirst : decimal 172 = "172".toList := by decide
    simp only [splitOn_dotted, digitsRegex_decimal, ha, hprivate a.b hlow hhigh]
    simp [hfirst]
  · have hfirst : decimal 169 = "169".toList := by decide
    have hsecond : decimal 254 = "254".toList := by decide
    simp [splitOn_dotted, digitsRegex_decimal, ha, hb, hfirst, hsecond]

theorem getLast?_splitOn {s : Text} {c : Char} (hc : c ≠ '.') (h : s.getLast? = some c) :
    ∃ part, (s.splitOn '.').getLast? = some part ∧ part.getLast? = some c := by
  obtain ⟨front, rfl⟩ := List.getLast?_eq_some_iff.mp h
  induction front with
  | nil =>
    refine ⟨[c], ?_, rfl⟩
    rw [List.nil_append, List.splitOn_cons_eq_if_modifyHead, if_neg (by simpa using hc)]
    rfl
  | cons d front ih =>
    obtain ⟨part, hpart, hlast⟩ := ih (by simp)
    rw [List.cons_append, List.splitOn_cons_eq_if_modifyHead]
    obtain ⟨head, tail, hsplit⟩ := List.exists_cons_of_ne_nil (List.splitOn_ne_nil '.' (front ++ [c]))
    rw [hsplit] at hpart ⊢
    by_cases hd : (d == '.') = true
    · rw [if_pos hd]
      exact ⟨part, by rw [List.getLast?_cons_cons]; exact hpart, hlast⟩
    · rw [if_neg hd, List.modifyHead_cons]
      cases tail with
      | nil =>
        have hhead : head = part := by simpa using hpart
        refine ⟨d :: head, rfl, ?_⟩
        rw [hhead, List.getLast?_cons, hlast]
        rfl
      | cons t tail =>
        rw [List.getLast?_cons_cons] at hpart ⊢
        exact ⟨part, hpart, hlast⟩

theorem digitsRegex_last {s : Text} {c : Char} (hlast : s.getLast? = some c)
    (hc : c.isDigit = false) : digits s = false := by
  unfold digits
  rw [Bool.and_eq_false_iff]
  right
  rw [List.all_eq_false]
  exact ⟨c, List.mem_of_getLast? hlast, by rw [hc]; exact Bool.false_ne_true⟩

/-- A text that ends in a dot or a bracket has no number at its end. -/
theorem digitsRegex_last_part {host : Text} {c : Char} (hc : c = '.' ∨ c = ']')
    (hlast : host.getLast? = some c) {part : Text} (hpart : (host.splitOn '.').getLast? = some part) :
    digits part = false := by
  rcases hc with rfl | rfl
  · obtain ⟨front, rfl⟩ := List.getLast?_eq_some_iff.mp hlast
    rw [List.splitOn_append_cons_self, List.splitOn_nil, List.getLast?_concat] at hpart
    cases hpart
    rfl
  · obtain ⟨last, hlastPart, hbracket⟩ := getLast?_splitOn (by decide) hlast
    rw [hpart] at hlastPart
    cases hlastPart
    exact digitsRegex_last hbracket rfl

/-- The check knows one text that ends in a bracket, and none that ends in a dot. -/
theorem blockedHost_eq_false {n : Text} {c : Char} (hc : c = '.' ∨ c = ']')
    (hlast : (toLowerCase n).getLast? = some c) (hone : toLowerCase n ≠ "[::1]".toList) :
    blockedHost n = false := by
  have hconst : ∀ k : Text, k.getLast? ≠ some '.' → k.getLast? ≠ some ']' → toLowerCase n ≠ k := by
    rintro k hdot hbracket rfl
    rcases hc with rfl | rfl
    · exact hdot hlast
    · exact hbracket hlast
  have hsuffix : ∀ suffix ∈ blockedRealmHostSuffixes,
      (toLowerCase n = suffix.drop 1 || suffix.isSuffixOf (toLowerCase n)) = false := by
    intro suffix hmem
    have hends : ∀ suffix ∈ blockedRealmHostSuffixes, suffix ≠ [] ∧ suffix.getLast? ≠ some '.' ∧
        suffix.getLast? ≠ some ']' ∧ (suffix.drop 1).getLast? ≠ some '.' ∧
        (suffix.drop 1).getLast? ≠ some ']' := by decide
    obtain ⟨hne, hdot, hbracket, hdropDot, hdropBracket⟩ := hends suffix hmem
    rw [Bool.or_eq_false_iff]
    refine ⟨decide_eq_false (hconst _ hdropDot hdropBracket), ?_⟩
    rw [Bool.eq_false_iff]
    intro hends
    obtain ⟨front, hfront⟩ := List.isSuffixOf_iff_suffix.mp hends
    rw [← hfront, List.getLast?_append_of_ne_nil _ hne] at hlast
    rcases hc with rfl | rfl
    · exact hdot hlast
    · exact hbracket hlast
  unfold blockedHost
  dsimp only
  rw [Bool.or_eq_false_iff]
  refine ⟨?_, List.any_eq_false.mpr fun suffix hmem => Bool.eq_false_iff.mp (hsuffix suffix hmem)⟩
  unfold blockedRealmHost
  simp only [Bool.or_eq_false_iff, decide_eq_false_iff_not]
  refine ⟨⟨⟨⟨⟨hconst _ (by decide) (by decide), hconst _ (by decide) (by decide)⟩,
    hconst _ (by decide) (by decide)⟩, hone⟩, ?_⟩, ?_⟩
  · cases hsplit : (toLowerCase n).splitOn '.' with
    | nil => rfl
    | cons a parts =>
      match parts, hsplit with
      | [b, x, d], hsplit =>
        have hpart := @digitsRegex_last_part _ _ hc hlast d (by rw [hsplit]; rfl)
        simp [hpart]
      | [], _ => rfl
      | [_], _ => rfl
      | [_, _], _ => rfl
      | _ :: _ :: _ :: _ :: _, _ => rfl
  · split
    · rename_i x y heq
      exact absurd heq (hconst _ (by simp) (by simp))
    · rename_i x y heq
      exact absurd heq (hconst _ (by simp) (by simp))
    · rfl

/-! ### IPv6 -/

theorem urlText_loopback {a : V6} (h : a.loopback) : a.urlText = "::1".toList := by
  rw [V6.urlText_compatible h.1, if_pos h.2.1, h.2.2]
  rfl

/-- Of the internal addresses only the loopback address has its text. -/
theorem urlText_ne_loopback {a : V6} (hinside : InsideV6 a) (hnot : ¬ a.loopback) :
    a.urlText ≠ "::1".toList := by
  have hgroup : a.w0.val ≠ 0 → a.urlText ≠ "::1".toList := by
    intro hw heq
    obtain ⟨rest, hrest⟩ := V6.urlText_of_ne hw
    obtain ⟨d, digits, hdigits⟩ := List.exists_cons_of_ne_nil (hex_ne_nil a.w0.val)
    have hcolon : d = ':' := by
      rw [hrest, hdigits] at heq
      exact (List.cons.inj heq).1
    exact colon_notMem_hex a.w0.val (by rw [hdigits, hcolon]; exact List.mem_cons_self)
  have hcompatible : a.compatible → a.urlText ≠ "::1".toList := by
    intro hcompatible heq
    have hchars : "::1".toList = [':', ':', '1'] := by decide
    rw [V6.urlText_compatible hcompatible, hchars] at heq
    have htail := (List.cons.inj (List.cons.inj heq).2).2
    by_cases h6 : a.w6 = 0
    · rw [if_pos h6] at htail
      by_cases h7 : a.w7 = 0
      · rw [if_pos h7] at htail
        cases htail
      · rw [if_neg h7] at htail
        have hvalue : a.w7.val = 1 := hex_injective htail
        exact hnot ⟨hcompatible, h6, Fin.ext hvalue⟩
    · rw [if_neg h6] at htail
      have hmem : ':' ∈ ['1'] := by
        rw [← htail]
        simp
      exact absurd hmem (by decide)
  rcases hinside with hzero | hone | hlink | hlocal | ⟨b, hcarries, -⟩
  · exact hcompatible hzero.1
  · exact absurd hone hnot
  · apply hgroup
    have hlow := hlink.1
    omega
  · apply hgroup
    have hlow := hlocal.1
    omega
  · rcases hcarries with ⟨hmapped | hcompat | hnat, -⟩ | ⟨hsix, -⟩
    · intro heq
      rw [V6.urlText_mapped hmapped] at heq
      have hlen := congrArg List.length heq
      simp at hlen
    · exact hcompatible hcompat
    · exact hgroup (by rw [hnat.1]; decide)
    · exact hgroup (by rw [hsix]; decide)

theorem toLowerCase_bracketed (a : V6) :
    toLowerCase ('[' :: a.urlText ++ [']']) = '[' :: a.urlText ++ [']'] := by
  have hlower : toLowerCase a.urlText = a.urlText := toLowerCase_ofAddress (ofAddress_urlText a)
  unfold toLowerCase at *
  rw [List.map_append, List.map_cons, hlower]
  rfl

/-! ### What passes -/

/-- A name without a final dot is known. -/
theorem blockedHost_name {n : Text} (hdot : (toLowerCase n).getLast? ≠ some '.')
    (hlocal : LocalName (withoutDot (toLowerCase n))) : blockedHost n = true := by
  unfold withoutDot at hlocal
  rw [if_neg hdot] at hlocal
  unfold blockedHost
  rw [Bool.or_eq_true]
  rcases hlocal with h | h | h | h | h
  · left
    unfold blockedRealmHost
    simp [h]
  all_goals
    right
    simp only [blockedRealmHostSuffixes, List.any_cons, List.any_nil, Bool.or_eq_true,
      decide_eq_true_eq, List.isSuffixOf_iff_suffix]
  · exact .inl (.inl h)
  · exact .inl (.inr h)
  · exact .inr (.inr (.inr (.inl (.inl h))))
  · exact .inr (.inr (.inr (.inl (.inr h))))

/-- An internal host passes the check exactly when it is one of those that it misses. -/
theorem missed_iff {urls : Urls} (h : Host) :
    Inside urls h ∧ blockedHost h.hostname = false ↔ Missed urls h := by
  constructor
  · rintro ⟨hinside, hpasses⟩
    cases h with
    | v4 a =>
      have hblocked : blockedHost (dotted a) = true := blockedHost_dotted hinside
      rw [show Host.hostname (.v4 a) = dotted a from rfl, hblocked] at hpasses
      cases hpasses
    | v6 a =>
      refine ⟨hinside, ?_⟩
      intro hloopback
      have hblocked : blockedHost ('[' :: a.urlText ++ [']']) = true := by
        rw [urlText_loopback hloopback]
        decide
      rw [show Host.hostname (.v6 a) = '[' :: a.urlText ++ [']'] from rfl, hblocked] at hpasses
      cases hpasses
    | name n =>
      rcases hinside with hlocal | hcompleted
      · left
        by_cases hdot : (toLowerCase n).getLast? = some '.'
        · refine ⟨hdot, ?_⟩
          unfold withoutDot at hlocal
          rwa [if_pos hdot] at hlocal
        · have hblocked : blockedHost n = true := blockedHost_name hdot hlocal
          rw [show Host.hostname (.name n) = n from rfl, hblocked] at hpasses
          cases hpasses
      · exact .inr ⟨hcompleted, hpasses⟩
  · intro hmissed
    refine ⟨hmissed.inside, ?_⟩
    cases h with
    | v4 a => exact hmissed.elim
    | v6 a =>
      apply blockedHost_eq_false (n := '[' :: a.urlText ++ [']']) (.inr rfl)
      · rw [toLowerCase_bracketed]
        exact List.getLast?_concat
      · rw [toLowerCase_bracketed]
        intro heq
        have hinner : a.urlText ++ [']'] = "::1".toList ++ [']'] := (List.cons.inj heq).2
        exact urlText_ne_loopback hmissed.1 hmissed.2 (List.append_cancel_right hinner)
    | name n =>
      rcases hmissed with ⟨hdot, -⟩ | ⟨-, hpasses⟩
      · apply blockedHost_eq_false (n := n) (.inl rfl) hdot
        intro heq
        rw [heq] at hdot
        exact absurd hdot (by decide)
      · exact hpasses

end Hosts

/-! ## URLs -/

section Addresses

variable (urls : Urls)

def PublicUrl (u : Text) : Prop :=
  ∃ url, urls.parse u = some url ∧ url.protocol = https ∧ ¬ Inside urls url.host

def MissedUrl (u : Text) : Prop :=
  ∃ url, urls.parse u = some url ∧ url.protocol = https ∧ Missed urls url.host

def challengeRealm (header : Text) : Option Text :=
  if basicRegex header then none else (parseChallenge header).realm.filter (· ≠ [])

/-- The first URL is not missed, nor, if it is asked, the realm of its challenge. -/
def KeptUrl (header u : Text) : Prop :=
  ¬ MissedUrl urls u ∧
    (isRealmUrlBlocked urls u = false → ∀ realm ∈ challengeRealm header, ¬ MissedUrl urls realm)

variable {urls} {u header : Text}

theorem passes_iff : isRealmUrlBlocked urls u = false ↔
    ∃ url, urls.parse u = some url ∧ url.protocol = https ∧ blockedHost url.host.hostname = false := by
  unfold isRealmUrlBlocked
  cases urls.parse u with
  | none => simp
  | some url => simp [Bool.or_eq_false_iff]

theorem MissedUrl.passes (h : MissedUrl urls u) : isRealmUrlBlocked urls u = false := by
  obtain ⟨url, hparse, hprotocol, hmissed⟩ := h
  exact passes_iff.mpr ⟨url, hparse, hprotocol, ((missed_iff url.host).mpr hmissed).2⟩

theorem publicUrl_iff (hpasses : isRealmUrlBlocked urls u = false) :
    PublicUrl urls u ↔ ¬ MissedUrl urls u := by
  obtain ⟨url, hparse, hprotocol, hhost⟩ := passes_iff.mp hpasses
  unfold PublicUrl MissedUrl
  simp only [hparse, Option.some.injEq, exists_eq_left', hprotocol, true_and, ← missed_iff]
  exact not_congr ⟨fun h => ⟨h, hhost⟩, fun h => h.1⟩

theorem publicUrl_setParams {params : List (Text × Text)} :
    PublicUrl urls (urls.setParams u params) ↔ PublicUrl urls u := by
  unfold PublicUrl
  rw [urls.parse_setParams]

end Addresses

/-! ## Requests of the probes -/

section Requests

variable (urls : Urls) (header : Text)

def RequestIsPublic : Op → Prop
  | .fetch request => PublicUrl urls request.url
  | _ => True

def ChallengesWith : (o : Op) → Except String (Val o) → Prop
  | .fetch _, .ok response =>
    response.wwwAuthenticate = none ∨ response.wwwAuthenticate = some header
  | _, _ => True

open scoped Classical in
noncomputable def registries : Discipline Op (fun o => Except String (Val o)) Unit where
  allowed _ o := RequestIsPublic urls o
  next _ o r := if ChallengesWith header o r then some () else none

/-- Every request, with or without a credential, goes to a public URL. -/
def StaysPublic {α : Type} (p : Task α) : Prop :=
  Follows (registries urls header) (fun _ _ => True) p.run ()

variable {urls header} {α β : Type} {x : Task α} {u : Text}

theorem staysPublic_pure (a : α) : StaysPublic urls header (pure a : Task α) := trivial

theorem staysPublic_ask_bind {o : Op} {f : Val o → Task β} :
    StaysPublic urls header (ask o >>= f) ↔ RequestIsPublic urls o ∧
      ∀ a, ChallengesWith header o (.ok a) → StaysPublic urls header (f a) := by
  unfold StaysPublic
  rw [follows_run_bind, follows_run_request]
  refine and_congr Iff.rfl ⟨?_, ?_⟩
  · rintro ⟨hok, -⟩ a ha
    exact hok a () (if_pos ha)
  · intro h
    refine ⟨?_, fun _ _ _ => trivial⟩
    intro a _ hnext
    by_cases ha : ChallengesWith header o (.ok a)
    · exact h a ha
    · rw [show (registries urls header).next () o (.ok a) = none from if_neg ha] at hnext
      cases hnext

theorem staysPublic_of_bind {f : α → Task β} (h : StaysPublic urls header (x >>= f)) :
    StaysPublic urls header x :=
  follows_mono (fun _ _ _ => trivial) (follows_run_bind.mp h)

theorem staysPublic_ask {o : Op} : StaysPublic urls header (ask o) ↔ RequestIsPublic urls o :=
  follows_run_request.trans (and_iff_left ⟨fun _ _ _ => trivial, fun _ _ _ => trivial⟩)

/-- What follows a program that may end in any way, but asks no more. -/
theorem staysPublic_bind {f : α → Task β} (hf : ∀ a, StaysPublic urls header (f a)) :
    StaysPublic urls header (x >>= f) ↔ StaysPublic urls header x := by
  refine ⟨staysPublic_of_bind, fun h => follows_run_bind.mpr (follows_mono ?_ h)⟩
  rintro ⟨⟩ r -
  cases r with
  | ok a => exact hf a
  | error e => trivial

theorem staysPublic_tryCatch {g : String → Task α} (hg : ∀ e, StaysPublic urls header (g e)) :
    StaysPublic urls header (tryCatch x g) ↔ StaysPublic urls header x := by
  unfold StaysPublic
  rw [follows_run_tryCatch]
  refine ⟨follows_mono fun _ _ _ => trivial, follows_mono ?_⟩
  rintro ⟨⟩ r -
  cases r with
  | ok a => trivial
  | error e => exact hg e

theorem staysPublic_fetch_bind {request : Request} {f : Response → Task β} :
    StaysPublic urls header (timedFetch request >>= f) ↔ PublicUrl urls request.url ∧
      ∀ response : Response, response.wwwAuthenticate = none ∨ response.wwwAuthenticate = some header →
        StaysPublic urls header (f response) :=
  staysPublic_ask_bind

theorem answerChallenge_iff (authCreds : Option Credential) :
    StaysPublic urls header (answerChallenge urls header authCreds) ↔
      ∀ realm ∈ challengeRealm header, ¬ MissedUrl urls realm := by
  unfold answerChallenge challengeRealm
  by_cases hbasic : basicRegex header = true
  · rw [if_pos hbasic, if_pos hbasic]
    exact ⟨fun _ realm h => (nomatch h), fun _ => trivial⟩
  · rw [if_neg hbasic, if_neg hbasic, staysPublic_bind fun _ => staysPublic_pure _]
    unfold fetchBearerToken
    dsimp only
    cases (parseChallenge header).realm.filter (· ≠ []) with
    | none => exact ⟨fun _ realm h => (nomatch h), fun _ => trivial⟩
    | some realm =>
      simp only [Option.mem_some_iff, forall_eq']
      by_cases hblocked : isRealmUrlBlocked urls realm = true
      · rw [if_pos hblocked]
        refine ⟨fun _ hmissed => ?_, fun _ => trivial⟩
        rw [hmissed.passes] at hblocked
        cases hblocked
      · rw [if_neg hblocked, staysPublic_fetch_bind]
        dsimp only
        rw [publicUrl_setParams, publicUrl_iff (by simpa using hblocked)]
        exact ⟨fun h => h.1, fun h => ⟨h, fun _ _ => trivial⟩⟩

theorem challengeRealm_nil : challengeRealm [] = none := by decide

def challenge (header : Text) : Response where
  status := 401
  wwwAuthenticate := some header
  dockerContentDigest := none
  tags := none
  token := none

theorem filter_header {response : Response}
    (h : response.wwwAuthenticate = none ∨ response.wwwAuthenticate = some header) {wwwAuth : Text}
    (hsome : response.wwwAuthenticate.filter (· ≠ []) = some wwwAuth) : wwwAuth = header := by
  rcases h with h | h
  · rw [h] at hsome
    cases hsome
  · rw [h, Option.filter_some] at hsome
    split at hsome
    · exact (Option.some.inj hsome).symm
    · cases hsome

/-- Of the answers to a first request, only a challenge makes another one. -/
theorem answered_iff (authCreds : Option Credential) {f : Response → Task β}
    (hplain : ∀ response, response.status ≠ 401 → StaysPublic urls header (f response))
    (hbare : ∀ response, response.wwwAuthenticate.filter (· ≠ []) = none →
      StaysPublic urls header (f response))
    (hchallenged : ∀ response wwwAuth, response.status = 401 →
      response.wwwAuthenticate.filter (· ≠ []) = some wwwAuth →
      (StaysPublic urls header (f response) ↔
        StaysPublic urls header (answerChallenge urls wwwAuth authCreds))) :
    (∀ response : Response, response.wwwAuthenticate = none ∨ response.wwwAuthenticate = some header →
      StaysPublic urls header (f response)) ↔
      ∀ realm ∈ challengeRealm header, ¬ MissedUrl urls realm := by
  rw [← answerChallenge_iff authCreds]
  constructor
  · intro h
    by_cases hempty : header = []
    · rw [answerChallenge_iff, hempty, challengeRealm_nil]
      exact fun realm hrealm => nomatch hrealm
    · have hfilter : (challenge header).wwwAuthenticate.filter (· ≠ []) = some header := by
        unfold challenge
        rw [Option.filter_some, if_pos (by simpa using hempty)]
      exact (hchallenged _ header rfl hfilter).mp (h (challenge header) (.inr rfl))
  · intro hanswer response hresponse
    by_cases hstatus : response.status = 401
    · cases hheader : response.wwwAuthenticate.filter (· ≠ []) with
      | none => exact hbare response hheader
      | some wwwAuth =>
        have hsame := filter_header hresponse hheader
        exact (hchallenged response wwwAuth hstatus hheader).mpr (hsame ▸ hanswer)
    · exact hplain response hstatus

/-- The registry is asked, and where its challenge sends. -/
theorem readManifest_iff (authCreds : Option Credential) (method : Method) :
    StaysPublic urls header (readManifest urls u authCreds method) ↔
      PublicUrl urls u ∧ ∀ realm ∈ challengeRealm header, ¬ MissedUrl urls realm := by
  unfold readManifest
  rw [staysPublic_tryCatch fun _ => staysPublic_pure _, staysPublic_fetch_bind]
  refine and_congr_right fun hpublic => answered_iff authCreds ?_ ?_ ?_
  · intro response hstatus
    rw [if_pos hstatus]
    trivial
  · intro response hheader
    rw [hheader]
    split <;> trivial
  · intro response wwwAuth hstatus hheader
    rw [if_neg (not_not.mpr hstatus), hheader]
    refine staysPublic_bind fun authorization => ?_
    cases authorization with
    | none => trivial
    | some authorization => exact staysPublic_fetch_bind.mpr ⟨hpublic, fun _ _ => trivial⟩

/-- A check before the first request, and the rest that depends on it. -/
theorem keptUrl_iff_of_passes (hpasses : isRealmUrlBlocked urls u = false) :
    KeptUrl urls header u ↔
      PublicUrl urls u ∧ ∀ realm ∈ challengeRealm header, ¬ MissedUrl urls realm := by
  unfold KeptUrl
  rw [publicUrl_iff hpasses]
  exact and_congr_right fun _ => ⟨fun h => h hpasses, fun h _ => h⟩

theorem keptUrl_of_blocked (hblocked : isRealmUrlBlocked urls u = true) :
    KeptUrl urls header u := by
  constructor
  · intro hmissed
    rw [hmissed.passes] at hblocked
    cases hblocked
  · intro hpasses
    rw [hpasses] at hblocked
    cases hblocked

theorem resolveTagDigest_iff (ref : ParsedImageReference) (tag : Text)
    (authCreds : Option Credential) :
    StaysPublic urls header (resolveTagDigest urls ref tag authCreds) ↔
      KeptUrl urls header (manifestUrl ref tag) := by
  unfold resolveTagDigest
  dsimp only
  by_cases hblocked : isRealmUrlBlocked urls (manifestUrl ref tag) = true
  · rw [if_pos hblocked]
    exact ⟨fun _ => keptUrl_of_blocked hblocked, fun _ => trivial⟩
  · rw [if_neg hblocked, keptUrl_iff_of_passes (by simpa using hblocked)]
    constructor
    · intro h
      exact (readManifest_iff authCreds .head).mp (staysPublic_of_bind (staysPublic_of_bind h))
    · intro h
      have hread : ∀ method,
          StaysPublic urls header (readManifest urls (manifestUrl ref tag) authCreds method) :=
        fun method => (readManifest_iff authCreds method).mpr h
      have htag : StaysPublic urls header (readTag urls (manifestUrl ref tag) authCreds) := by
        refine (staysPublic_bind fun res => ?_).mpr (hread .head)
        split
        · exact hread .get
        · trivial
      refine (staysPublic_bind fun res => ?_).mpr htag
      cases res <;> trivial

theorem probeRegistry_iff (ref : ParsedImageReference) (currentTag : Text)
    (currentSemver : SemverVersion) (authCreds : Option Credential) :
    StaysPublic urls header (probeRegistry urls ref currentTag currentSemver authCreds) ↔
      KeptUrl urls header (tagsUrl ref) := by
  unfold probeRegistry
  dsimp only
  by_cases hblocked : isRealmUrlBlocked urls (tagsUrl ref) = true
  · rw [if_pos hblocked]
    exact ⟨fun _ => keptUrl_of_blocked hblocked, fun _ => trivial⟩
  · rw [if_neg hblocked, keptUrl_iff_of_passes (by simpa using hblocked), staysPublic_fetch_bind]
    refine and_congr_right fun hpublic => answered_iff authCreds ?_ ?_ ?_
    · intro response hstatus
      rw [if_neg hstatus]
      trivial
    · intro response hheader
      rw [hheader]
      split <;> trivial
    · intro response wwwAuth hstatus hheader
      rw [if_pos hstatus, hheader]
      refine staysPublic_bind fun authorization => ?_
      cases authorization with
      | none => trivial
      | some authorization => exact staysPublic_fetch_bind.mpr ⟨hpublic, fun _ _ => trivial⟩

/-! ## Checks -/

/-- A row of the cache may be missing. -/
theorem staysPublic_of_readShared {options : CheckUpdateOptions} {ref : ParsedImageReference}
    {currentTag : Text} {f : Option UpdateCheckResult → Task β}
    (h : StaysPublic urls header (readShared options ref currentTag >>= f)) :
    StaysPublic urls header (f none) := by
  unfold readShared at h
  by_cases hshared : options.force = false ∧ options.authCreds = none
  · rw [if_pos hshared] at h
    have hread := follows_run_bind.mp (follows_run_bind.mp h)
    have hnext : (registries urls header).next () (.readCache ref currentTag) (.ok none) = some () :=
      if_pos trivial
    exact (follows_run_request.mp hread).2.1 none () hnext
  · rw [if_neg hshared] at h
    exact h

theorem staysPublic_readShared (options : CheckUpdateOptions) (ref : ParsedImageReference)
    (currentTag : Text) : StaysPublic urls header (readShared options ref currentTag) := by
  unfold readShared
  split
  · exact staysPublic_ask_bind.mpr ⟨trivial, fun _ _ => trivial⟩
  · trivial

theorem exists_of_runningDigest {options : CheckUpdateOptions} {f : Option Text → Task β}
    (h : StaysPublic urls header (runningDigest options >>= f)) :
    ∃ running, StaysPublic urls header (f running) := by
  unfold runningDigest at h
  by_cases hread : options.runningImageId.isNone ∧ options.resolveRunningImageId
  · rw [if_pos hread] at h
    exact ⟨none, (staysPublic_ask_bind.mp h).2 none trivial⟩
  · rw [if_neg hread] at h
    exact ⟨_, h⟩

theorem staysPublic_runningDigest (options : CheckUpdateOptions) :
    StaysPublic urls header (runningDigest options) := by
  unfold runningDigest
  split
  · exact staysPublic_ask.mpr trivial
  · trivial

theorem staysPublic_writeShared (options : CheckUpdateOptions) (ref : ParsedImageReference)
    (currentTag : Text) (result : UpdateCheckResult) :
    StaysPublic urls header (writeShared options ref currentTag result) := by
  unfold writeShared
  split
  · exact staysPublic_ask.mpr trivial
  · trivial

theorem checkSemverUpdate_iff (ref : ParsedImageReference) (currentTag : Text)
    (currentSemver : SemverVersion) (options : CheckUpdateOptions) :
    StaysPublic urls header (checkSemverUpdate urls ref currentTag currentSemver options) ↔
      KeptUrl urls header (tagsUrl ref) := by
  rw [← probeRegistry_iff ref currentTag currentSemver options.authCreds]
  unfold checkSemverUpdate
  constructor
  · intro h
    exact (staysPublic_tryCatch fun _ => staysPublic_pure _).mp
      (staysPublic_of_bind (staysPublic_of_readShared h))
  · intro h
    refine (staysPublic_bind fun cached => ?_).mpr (staysPublic_readShared options ref currentTag)
    cases cached with
    | some cached => trivial
    | none =>
      refine (staysPublic_bind fun probe => ?_).mpr
        ((staysPublic_tryCatch fun _ => staysPublic_pure _).mpr h)
      split
      · exact (staysPublic_bind fun _ => staysPublic_pure _).mpr
          (staysPublic_writeShared options ref currentTag probe)
      · trivial

theorem checkDigestUpdate_iff (ref : ParsedImageReference) (currentTag : Text)
    (options : CheckUpdateOptions) :
    StaysPublic urls header (checkDigestUpdate urls ref currentTag options) ↔
      KeptUrl urls header (manifestUrl ref currentTag) := by
  rw [← resolveTagDigest_iff ref currentTag options.authCreds]
  unfold checkDigestUpdate
  constructor
  · intro h
    obtain ⟨running, hrunning⟩ := exists_of_runningDigest h
    exact staysPublic_of_bind (staysPublic_of_readShared hrunning)
  · intro h
    refine (staysPublic_bind fun running => ?_).mpr (staysPublic_runningDigest options)
    refine (staysPublic_bind fun cached => ?_).mpr (staysPublic_readShared options ref currentTag)
    split
    · trivial
    · refine (staysPublic_bind fun res => ?_).mpr h
      cases res.digest with
      | none => trivial
      | some registryDigest =>
        exact (staysPublic_bind fun _ => staysPublic_pure _).mpr
          (staysPublic_writeShared options ref currentTag _)

def firstUrl (ref : ParsedImageReference) : Text :=
  if (parseSemver ref.currentTag).isSome then tagsUrl ref else manifestUrl ref ref.currentTag

theorem checkForUpdate_iff (options : CheckUpdateOptions) :
    StaysPublic urls header (checkForUpdate urls options) ↔
      ∀ ref, parseImageReference options.image = some ref → KeptUrl urls header (firstUrl ref) := by
  unfold checkForUpdate firstUrl
  cases parseImageReference options.image with
  | none => exact ⟨fun _ ref h => (nomatch h), fun _ => trivial⟩
  | some ref =>
    simp only [Option.some.injEq, forall_eq']
    cases parseSemver ref.currentTag with
    | some currentSemver => exact checkSemverUpdate_iff ref ref.currentTag currentSemver options
    | none => exact checkDigestUpdate_iff ref ref.currentTag options

def uniqueLocal : V6 := V6.ofWords fun i => [0xfd00, 0, 0, 0, 0, 0, 0, 1].getD i 0

/-- A parser, as it reads the URLs of the host `[fd00::1]`. -/
def uniqueLocalUrls : Urls where
  parse u :=
    if "https://[fd00::1]/".toList <+: u then some ⟨https, .v6 uniqueLocal⟩ else none
  setParams u _ := u
  parse_setParams _ _ := rfl
  completed n := n = "kubernetes.default".toList

end Requests

end Insula.CustomDeployments
