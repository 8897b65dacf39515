import Insula.ComposeUser
import Insula.Quantities
import Insula.WireFormat

/-!
# The ports of a compose service

An entry of `ports` is a text or a mapping. A port that is given no valid name is named by its
number, and behind the first entry by its number and protocol, cut to 15 code units.
-/

namespace Insula.Compose

open LenientNumbers (Text)
open Quantities (Number Arithmetic exactArithmetic)
open DnsServers (Builtins asciiBuiltins)
open Javascript (digits number utf16 utf16_injective)

structure CustomDeploymentPort where
  containerPort : Number
  /-- In code units: a cut may leave half a character. -/
  name : List ℕ
  protocol : Text
  exposeAsService : Bool
  ingressEligible : Bool
deriving DecidableEq

inductive PortEntry
  | short (entry : Text)
  | long (target : Option Number) (protocol name : Option Text)
  | other

inductive RawPorts
  | undefined
  | notArray
  | entries (list : List PortEntry)

/-- `/^(?=.*[a-z])[a-z0-9]([a-z0-9-]{0,13}[a-z0-9])?$/`. -/
def portNameRe (name : Text) : Bool :=
  name.any Char.isLower && name.head?.any (fun c => c.isLower || c.isDigit) &&
    name.getLast?.any (fun c => c.isLower || c.isDigit) &&
    name.all (fun c => c.isLower || c.isDigit || c = '-') && name.length ≤ 15

/-! ## One entry -/

/-- `(?:\/(tcp|udp|sctp))?$`, without regard to case. -/
def protocolSuffix : Text → Option (Option Text)
  | [] => some none
  | '/' :: proto =>
    if ["tcp".toList, "udp".toList, "sctp".toList].contains (proto.map Char.toLower) then some (some proto)
    else none
  | _ => none

/-- `(\d+)(?::(\d+))?(?:\/(tcp|udp|sctp))?$`: the last number and the protocol. -/
def numbersAndProtocol (s : Text) : Option (Text × Option Text) :=
  let first := s.takeWhile Char.isDigit
  if first = [] then none
  else
    match s.dropWhile Char.isDigit with
    | ':' :: rest =>
      let second := rest.takeWhile Char.isDigit
      if second = [] then none
      else (protocolSuffix (rest.dropWhile Char.isDigit)).map fun proto => (second, proto)
    | rest => (protocolSuffix rest).map fun proto => (first, proto)

def shortForm (entry : Text) : Option (Text × Option Text) :=
  let host := entry.takeWhile (· ≠ ':')
  let hosted := if host = [] ∨ ':' ∉ entry then none
    else numbersAndProtocol (entry.dropWhile (· ≠ ':')).tail
  hosted <|> numbersAndProtocol entry

structure PortReading where
  containerPort : Number
  protocol : Text
  given : Option Text

def shortMessage (entry : Text) : Text :=
  "Port spec '".toList ++ entry ++ "' could not be parsed.".toList

def longMessage : Text := "Long-form port must declare a numeric \x60target\x60.".toList

def otherMessage : Text := "Port entry must be a string or long-form mapping.".toList

section Functions

variable (arith : Arithmetic) (lib : Builtins)

def readPort : PortEntry → Except Text PortReading
  | .short entry =>
    match shortForm entry with
    | some (numeral, proto) =>
      .ok ⟨arith.round (number numeral : ℕ), lib.toUpperCase (proto.getD "TCP".toList), none⟩
    | none => .error (shortMessage entry)
  | .long (some target) protocol name =>
    .ok ⟨target, (protocol.map lib.toUpperCase).getD "TCP".toList, name.filter portNameRe⟩
  | .long none _ _ => .error longMessage
  | .other => .error otherMessage

def synthesisePortName (port : Number) (idx : ℕ) (protocol : Text) : List ℕ :=
  let base := utf16 ('p' :: (arith.text port).toList)
  if idx = 0 then base else (base ++ utf16 (lib.lowering.toLowerCase protocol)).take 15

namespace PortReading

/-- The name that an entry without a given one gets in a place of the list. -/
def generated (r : PortReading) (idx : ℕ) : List ℕ :=
  synthesisePortName arith lib r.containerPort idx r.protocol

def port (r : PortReading) (idx : ℕ) : CustomDeploymentPort where
  containerPort := r.containerPort
  name := (r.given.map utf16).getD (r.generated arith lib idx)
  protocol := r.protocol
  exposeAsService := true
  ingressEligible := false

end PortReading

def entryPath (path : Text) (idx : ℕ) : Text := path ++ '[' :: (toString idx).toList ++ [']']

def portIssue (path : Text) (idx : ℕ) (message : Text) : Issue where
  severity := .error
  code := "COMPOSE_PORT_INVALID"
  path := entryPath path idx
  message := message

def parseEntry (path : Text) (entry : PortEntry × ℕ) : Except Issue CustomDeploymentPort :=
  match readPort arith lib entry.1 with
  | .ok r => .ok (r.port arith lib entry.2)
  | .error message => .error (portIssue path entry.2 message)

def okPort : Except Issue CustomDeploymentPort → Option CustomDeploymentPort
  | .ok port => some port
  | .error _ => none

def issueOf : Except Issue CustomDeploymentPort → Option Issue
  | .ok _ => none
  | .error issue => some issue

def parsePorts (path : Text) : RawPorts → List CustomDeploymentPort × List Issue
  | .undefined => ([], [])
  | .notArray => ([], [⟨.error, "COMPOSE_FIELD_TYPE", path, path ++ " must be an array.".toList⟩])
  | .entries list =>
    let rounds := list.zipIdx.map (parseEntry arith lib path)
    (rounds.filterMap okPort, rounds.filterMap issueOf)

end Functions

/-! ## When the ports are told apart -/

def Distinct (ports : List CustomDeploymentPort) : Prop :=
  ports.Pairwise fun a b =>
    a.name ≠ b.name ∧ ¬ (a.containerPort = b.containerPort ∧ a.protocol = b.protocol)

section Apart

variable (arith : Arithmetic) (lib : Builtins)

namespace PortReading

def portText (r : PortReading) : List ℕ := utf16 (arith.text r.containerPort).toList

def protocolText (r : PortReading) : List ℕ := utf16 (lib.lowering.toLowerCase r.protocol)

end PortReading

/-- Up to `n` units, `s` with `u` after it reads as `t` with `v` after it: one of `s` and `t` begins
with the other, and what is more of it reads as the other's ending, or both are longer. -/
def Meet (n : ℕ) (s u t v : List ℕ) : Prop :=
  (∃ x, t = s ++ x ∧ u.take (n - s.length) = (x ++ v).take (n - s.length)) ∨
  (∃ x, s = t ++ x ∧ (x ++ u).take (n - t.length) = v.take (n - t.length)) ∨
  (n < s.length ∧ n < t.length ∧ s.take n = t.take n)

/-- A given name is a `p` with the port's text after it, and behind the first place with the
protocol after that, up to 14 units. -/
def Spells (name : Text) (r : PortReading × ℕ) : Prop :=
  ∃ rest, name = 'p' :: rest ∧
    if r.2 = 0 then utf16 rest = r.1.portText arith
    else utf16 rest = (r.1.portText arith).take 14 ++
      (r.1.protocolText lib).take (14 - (r.1.portText arith).length)

/-- Two entries without a name, the second behind the first, get one: the text of the first's port,
and its protocol where it does not stand in the first place, reads as that of the second's. -/
def Meets (a b : PortReading × ℕ) : Prop :=
  if a.2 = 0 then
    a.1.portText arith = (b.1.portText arith).take 14 ++
      (b.1.protocolText lib).take (14 - (b.1.portText arith).length)
  else Meet 14 (a.1.portText arith) (a.1.protocolText lib) (b.1.portText arith) (b.1.protocolText lib)

/-- Two readings, each with its place in the list, that do not meet in a port or a name. -/
structure Apart (a b : PortReading × ℕ) : Prop where
  ports : ¬ (a.1.containerPort = b.1.containerPort ∧ a.1.protocol = b.1.protocol)
  given : ∀ m ∈ a.1.given, ∀ n ∈ b.1.given, m ≠ n
  before : a.1.given = none → ∀ n ∈ b.1.given, ¬ Spells arith lib n a
  after : b.1.given = none → ∀ m ∈ a.1.given, ¬ Spells arith lib m b
  unnamed : a.1.given = none → b.1.given = none → ¬ Meets arith lib a b

def readings (list : List PortEntry) : List (PortReading × ℕ) :=
  list.zipIdx.filterMap fun entry => ((readPort arith lib entry.1).toOption).map fun r => (r, entry.2)

def EntriesApart : RawPorts → Prop
  | .entries list => (readings arith lib list).Pairwise (Apart arith lib)
  | _ => True

variable {arith lib} {a b : PortReading × ℕ}

theorem take_append (n : ℕ) (s u : List ℕ) : (s ++ u).take n = s.take n ++ u.take (n - s.length) :=
  List.take_append

theorem meet_of_append {n : ℕ} {s u x v : List ℕ} (h : (s ++ u).take n = (s ++ (x ++ v)).take n) :
    u.take (n - s.length) = (x ++ v).take (n - s.length) := by
  rw [take_append, take_append] at h
  exact List.append_cancel_left h

theorem meet_iff (n : ℕ) (s u t v : List ℕ) : (s ++ u).take n = (t ++ v).take n ↔ Meet n s u t v := by
  constructor
  · intro h
    by_cases hs : s.length ≤ n
    · rcases le_total s.length t.length with hle | hle
      · have hprefix : s <+: t := by
          have hs' : s <+: t ++ v := by
            refine List.IsPrefix.trans ?_ (List.take_prefix n (t ++ v))
            rw [← h, take_append, List.take_of_length_le hs]
            exact List.prefix_append _ _
          exact List.prefix_of_prefix_length_le hs' (List.prefix_append t v) hle
        obtain ⟨x, rfl⟩ := hprefix
        rw [List.append_assoc] at h
        exact .inl ⟨x, rfl, meet_of_append h⟩
      · have hprefix : t <+: s := by
          have ht' : t <+: s ++ u := by
            refine List.IsPrefix.trans ?_ (List.take_prefix n (s ++ u))
            rw [h, take_append, List.take_of_length_le (hle.trans hs)]
            exact List.prefix_append _ _
          exact List.prefix_of_prefix_length_le ht' (List.prefix_append s u) hle
        obtain ⟨x, rfl⟩ := hprefix
        rw [List.append_assoc] at h
        exact .inr (.inl ⟨x, rfl, (meet_of_append h.symm).symm⟩)
    · have hs := not_le.mp hs
      rw [List.take_append_of_le_length hs.le] at h
      by_cases ht : t.length ≤ n
      · have hprefix : t <+: s := by
          refine List.IsPrefix.trans ?_ (List.take_prefix n s)
          rw [h, take_append, List.take_of_length_le ht]
          exact List.prefix_append _ _
        obtain ⟨x, rfl⟩ := hprefix
        rw [← @List.take_append_of_le_length _ _ u _ hs.le, List.append_assoc] at h
        exact .inr (.inl ⟨x, rfl, (meet_of_append h.symm).symm⟩)
      · have ht := not_le.mp ht
        rw [List.take_append_of_le_length ht.le] at h
        exact .inr (.inr ⟨hs, ht, h⟩)
  · rintro (⟨x, rfl, h⟩ | ⟨x, rfl, h⟩ | ⟨hs, ht, h⟩)
    · rw [List.append_assoc, take_append, take_append n s (x ++ v), h]
    · rw [List.append_assoc, take_append n t (x ++ u), h, ← take_append]
    · rw [List.take_append_of_le_length hs.le, List.take_append_of_le_length ht.le, h]

theorem generated_zero {r : PortReading × ℕ} (h : r.2 = 0) :
    r.1.generated arith lib r.2 = 112 :: r.1.portText arith := by
  unfold PortReading.generated synthesisePortName
  exact if_pos h

theorem generated_later {r : PortReading × ℕ} (h : r.2 ≠ 0) :
    r.1.generated arith lib r.2 = 112 :: (r.1.portText arith ++ r.1.protocolText lib).take 14 := by
  unfold PortReading.generated synthesisePortName
  exact if_neg h

theorem spells_iff (n : Text) (r : PortReading × ℕ) :
    Spells arith lib n r ↔ utf16 n = r.1.generated arith lib r.2 := by
  have hp : ∀ rest : List ℕ, utf16 n = 112 :: rest ↔ ∃ s, n = 'p' :: s ∧ utf16 s = rest := by
    intro rest
    constructor
    · intro h
      cases n with
      | nil => cases h
      | cons c s =>
        have hc : c = 'p' := by
          rw [Javascript.utf16_cons] at h
          split_ifs at h with hbasic
          · exact Char.toNat_inj.mp (List.cons_eq_cons.mp h).1
          · have hhead := (List.cons_eq_cons.mp h).1
            omega
        subst hc
        exact ⟨s, rfl, (List.cons_eq_cons.mp h).2⟩
    · rintro ⟨s, rfl, rfl⟩
      rfl
  unfold Spells
  by_cases h : r.2 = 0
  · simp only [if_pos h, generated_zero h, hp]
  · simp only [if_neg h, generated_later h, hp, take_append]

theorem meets_iff (hb : b.2 ≠ 0) :
    Meets arith lib a b ↔ a.1.generated arith lib a.2 = b.1.generated arith lib b.2 := by
  unfold Meets
  by_cases ha : a.2 = 0
  · rw [if_pos ha, generated_zero ha, generated_later hb, ← take_append, List.cons_eq_cons]
    simp
  · rw [if_neg ha, generated_later ha, generated_later hb, ← meet_iff, List.cons_eq_cons]
    simp

theorem names_ne_iff (hb : b.2 ≠ 0) :
    (a.1.port arith lib a.2).name ≠ (b.1.port arith lib b.2).name ↔
      (∀ m ∈ a.1.given, ∀ n ∈ b.1.given, m ≠ n) ∧
        (a.1.given = none → ∀ n ∈ b.1.given, ¬ Spells arith lib n a) ∧
        (b.1.given = none → ∀ m ∈ a.1.given, ¬ Spells arith lib m b) ∧
        (a.1.given = none → b.1.given = none → ¬ Meets arith lib a b) := by
  simp only [spells_iff, meets_iff hb]
  unfold PortReading.port
  cases ha : a.1.given with
  | none =>
    cases hb : b.1.given with
    | none => simp
    | some n => simp [eq_comm]
  | some m =>
    cases hb : b.1.given with
    | none => simp
    | some n => simp [utf16_injective.eq_iff]

theorem apart_iff (hb : b.2 ≠ 0) : Apart arith lib a b ↔
    (a.1.port arith lib a.2).name ≠ (b.1.port arith lib b.2).name ∧
      ¬ ((a.1.port arith lib a.2).containerPort = (b.1.port arith lib b.2).containerPort ∧
        (a.1.port arith lib a.2).protocol = (b.1.port arith lib b.2).protocol) := by
  rw [names_ne_iff hb]
  constructor
  · intro h
    exact ⟨⟨h.given, h.before, h.after, h.unnamed⟩, h.ports⟩
  · rintro ⟨⟨hgiven, hbefore, hafter, hunnamed⟩, hports⟩
    exact ⟨hports, hgiven, hbefore, hafter, hunnamed⟩

theorem ports_eq (path : Text) (list : List PortEntry) :
    (parsePorts arith lib path (.entries list)).1 =
      (readings arith lib list).map fun r => r.1.port arith lib r.2 := by
  change (list.zipIdx.map (parseEntry arith lib path)).filterMap okPort = _
  unfold readings
  rw [List.filterMap_map, List.map_filterMap]
  apply List.filterMap_congr
  intro entry _
  rw [Function.comp_apply, parseEntry]
  cases readPort arith lib entry.1 with
  | ok r => rfl
  | error message => rfl

theorem readings_in_order (list : List PortEntry) :
    (readings arith lib list).Pairwise fun a b => a.2 < b.2 := by
  have hplaces : (list.zipIdx.map Prod.snd).Pairwise (· < ·) := by
    rw [List.zipIdx_map_snd]
    exact List.pairwise_lt_range'
  refine (List.pairwise_map.mp hplaces).filterMap _ fun a b hlt r hr s hs => ?_
  obtain ⟨_, -, rfl⟩ := Option.map_eq_some_iff.mp hr
  obtain ⟨_, -, rfl⟩ := Option.map_eq_some_iff.mp hs
  exact hlt

/-- The names and the ports of a service are pairwise distinct just when its entries are apart. -/
theorem ports_distinct_iff (arith : Arithmetic) (lib : Builtins) (path : Text) (raw : RawPorts) :
    Distinct (parsePorts arith lib path raw).1 ↔ EntriesApart arith lib raw := by
  cases raw with
  | undefined => simp [parsePorts, Distinct, EntriesApart]
  | notArray => simp [parsePorts, Distinct, EntriesApart]
  | entries list =>
    have horder := @readings_in_order arith lib list
    unfold Distinct EntriesApart
    rw [ports_eq, List.pairwise_map]
    constructor
    · exact fun h => (h.and horder).imp fun hab => (apart_iff (by omega)).mpr hab.1
    · exact fun h => (h.and horder).imp fun hab => (apart_iff (by omega)).mp hab.1

/-! ## Ports and protocols as they are -/

structure Plain (r : PortReading) : Prop where
  digits : ∀ c ∈ r.portText arith, 48 ≤ c ∧ c ≤ 57
  letters : ∃ c rest, r.protocolText lib = c :: rest ∧ 57 < c
  short : (r.portText arith).length + (r.protocolText lib).length ≤ 14

theorem eq_of_digits {s t : List ℕ} (hs : ∀ c ∈ s, 48 ≤ c ∧ c ≤ 57) (ht : ∀ c ∈ t, 48 ≤ c ∧ c ≤ 57)
    {c d : ℕ} {u v : List ℕ} (hc : 57 < c) (hd : 57 < d) (h : s ++ c :: u = t ++ d :: v) :
    s = t ∧ c :: u = d :: v := by
  induction s generalizing t with
  | nil =>
    cases t with
    | nil => exact ⟨rfl, h⟩
    | cons e t =>
      have hhead := (List.cons_eq_cons.mp h).1
      have he := (ht e List.mem_cons_self).2
      omega
  | cons e s ih =>
    cases t with
    | nil =>
      have hhead := (List.cons_eq_cons.mp h).1
      have he := (hs e List.mem_cons_self).2
      omega
    | cons f t =>
      obtain ⟨rfl, htail⟩ := List.cons_eq_cons.mp h
      obtain ⟨hst, huv⟩ := ih (fun c hc => hs c (List.mem_cons_of_mem _ hc))
        (fun c hc => ht c (List.mem_cons_of_mem _ hc)) htail
      exact ⟨congrArg _ hst, huv⟩

/-- Plain entries without names only meet where the ports and the protocols are written alike. -/
theorem eq_of_meets (ha : @Plain arith lib a.1)
    (hb : @Plain arith lib b.1) (h : Meets arith lib a b) :
    a.1.portText arith = b.1.portText arith ∧ a.1.protocolText lib = b.1.protocolText lib := by
  obtain ⟨c, u, hu, hc⟩ := ha.letters
  obtain ⟨d, v, hv, hd⟩ := hb.letters
  have hshort := hb.short
  unfold Meets at h
  split_ifs at h with hfirst
  · rw [List.take_of_length_le (by omega), List.take_of_length_le (by omega), hv] at h
    have hmem : d ∈ a.1.portText arith := by simp [h]
    have hdigit := (ha.digits d hmem).2
    omega
  · rw [← meet_iff, List.take_of_length_le (by rw [List.length_append]; exact ha.short),
      List.take_of_length_le (by rw [List.length_append]; exact hb.short), hu, hv] at h
    obtain ⟨hports, hprotocols⟩ := eq_of_digits ha.digits hb.digits hc hd h
    exact ⟨hports, by rw [hu, hv, hprotocols]⟩

theorem utf16_toDigits (n : ℕ) : ∀ c ∈ utf16 (Nat.toDigits 10 n), 48 ≤ c ∧ c ≤ 57 := by
  intro c hc
  obtain ⟨d, hd, hcd⟩ := List.mem_flatMap.mp hc
  have hdigit := Nat.isDigit_of_mem_toDigits (by decide) (by decide) hd
  simp only [Char.isDigit, Bool.and_eq_true, decide_eq_true_eq] at hdigit
  have hlow : 48 ≤ d.toNat := hdigit.1
  have hhigh : d.toNat ≤ 57 := hdigit.2
  rw [Javascript.codeUnits, if_pos (by omega), List.mem_singleton] at hcd
  omega

theorem length_utf16_toDigits (n : ℕ) : (utf16 (Nat.toDigits 10 n)).length =
    (Nat.toDigits 10 n).length := by
  have hall : ∀ d ∈ Nat.toDigits 10 n, (Javascript.codeUnits d).length = 1 := by
    intro d hd
    have hdigit := Nat.isDigit_of_mem_toDigits (by decide) (by decide) hd
    simp only [Char.isDigit, Bool.and_eq_true, decide_eq_true_eq] at hdigit
    have hhigh : d.toNat ≤ 57 := hdigit.2
    rw [Javascript.codeUnits, if_pos (by omega)]
    rfl
  unfold utf16
  rw [List.length_flatMap, List.map_congr_left hall]
  simp

theorem plain_of_port {r : PortReading} {n : ℕ} (hn : n < 65536)
    (htext : (arith.text r.containerPort).toList = Nat.toDigits 10 n)
    (hprotocol : lib.lowering.toLowerCase r.protocol ∈ ["tcp".toList, "udp".toList, "sctp".toList]) :
    @Plain arith lib r := by
  have hlength : (Nat.toDigits 10 n).length ≤ 5 :=
    (Nat.length_toDigits_le_iff (by decide) (by decide)).mpr (by omega)
  have hport : r.portText arith = utf16 (Nat.toDigits 10 n) := by rw [PortReading.portText, htext]
  have hproto : r.protocolText lib ∈ [utf16 "tcp".toList, utf16 "udp".toList, utf16 "sctp".toList] :=
    List.mem_map_of_mem (f := utf16) hprotocol
  have hletters : ∀ p ∈ [utf16 "tcp".toList, utf16 "udp".toList, utf16 "sctp".toList],
      57 < p.headD 0 ∧ p ≠ [] ∧ p.length ≤ 4 := by decide
  obtain ⟨hhead, hne, hle⟩ := hletters _ hproto
  refine ⟨hport ▸ utf16_toDigits n, ?_, ?_⟩
  · obtain ⟨c, rest, heq⟩ := List.exists_cons_of_ne_nil hne
    rw [heq] at hhead
    exact ⟨c, rest, heq, hhead⟩
  · rw [hport, length_utf16_toDigits]
    omega

end Apart

/-- The second and the third entry get one name. -/
theorem repeated_port_named_twice : ¬ ∀ (arith : Arithmetic) (lib : Builtins) (path : Text) (raw : RawPorts),
    (parsePorts arith lib path raw).2 = [] → Distinct (parsePorts arith lib path raw).1 := by
  intro h
  have hdistinct := h exactArithmetic asciiBuiltins []
    (.entries [.short "80".toList, .short "443".toList, .short "443".toList]) (by rfl)
  rw [ports_eq] at hdistinct
  revert hdistinct
  unfold Distinct
  decide

end Insula.Compose
