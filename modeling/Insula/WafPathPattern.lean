import Insula.Javascript
import Mathlib

/-!
# Patterns in two dialects

The syntax of regular expressions that JavaScript and PCRE read alike: a pattern is read into
tokens, and is well formed if its groups close, its quantifiers have something to repeat and its
ranges and bounds are in order. What else PCRE refuses is said of the tokens.
-/

namespace Insula.WafPathPattern

open Javascript (number codeUnits)

abbrev Pattern := List Char

structure Bounds where
  low : ℕ
  high : Option ℕ
deriving DecidableEq, Repr

inductive Member
  | plain (c : Char)
  | escaped (c : Char)
deriving DecidableEq, Repr

inductive Token
  | literal (c : Char)
  | escaped (c : Char)
  | shorthand (c : Char)
  | boundary (c : Char)
  | any
  | start
  | stop
  | alternative
  | group
  | plainGroup
  | close
  | star
  | plus
  | optional
  | counted (b : Bounds)
  | members (negated : Bool) (ms : List Member)
deriving DecidableEq, Repr

/-- `^\{\d+(,\d*)?\}` after the brace: the bounds and how many characters follow it. -/
def countedQuantifier (s : Pattern) : Option (Bounds × ℕ) :=
  let low := s.takeWhile Char.isDigit
  if low = [] then none
  else
    match s.dropWhile Char.isDigit with
    | '}' :: _ => some (⟨number low, some (number low)⟩, low.length + 1)
    | ',' :: s' =>
      let high := s'.takeWhile Char.isDigit
      match s'.dropWhile Char.isDigit with
      | '}' :: _ =>
        some (⟨number low, if high = [] then none else some (number high)⟩,
          low.length + high.length + 2)
      | _ => none
    | _ => none

def readMembers : Pattern → Option (List Member × Pattern)
  | [] => none
  | c :: s =>
    if c = ']' then some ([], s)
    else if c = '[' then none
    else if c = '\\' then
      match s with
      | [] => none
      | next :: s' =>
        if next.isAlphanum then none
        else (readMembers s').map fun r => (.escaped next :: r.1, r.2)
    else (readMembers s).map fun r => (.plain c :: r.1, r.2)

def readClass (s : Pattern) : Option (Token × Pattern) :=
  let negated := s.head? = some '^'
  let body := if negated then s.drop 1 else s
  if body.head? = some ']' then none
  else (readMembers body).map fun r => (.members negated r.1, r.2)

def readEscape : Pattern → Option (Token × Pattern)
  | [] => none
  | c :: s =>
    if ¬c.isAlphanum then some (.escaped c, s)
    else if c ∈ "dDwWsS".toList then some (.shorthand c, s)
    else if c ∈ "bB".toList then some (.boundary c, s)
    else none

def readGroup (s : Pattern) : Option (Token × Pattern) :=
  if s.head? ≠ some '?' then some (.group, s)
  else if (s.drop 1).head? = some ':' then some (.plainGroup, s.drop 2)
  else none

def readToken (c : Char) (s : Pattern) : Option (Token × Pattern) :=
  if c = '\\' then readEscape s
  else if c = '[' then readClass s
  else if c = '(' then readGroup s
  else if c = '{' then (countedQuantifier s).map fun q => (.counted q.1, s.drop q.2)
  else if c = '}' then none
  else if c = ')' then some (.close, s)
  else if c = '*' then some (.star, s)
  else if c = '+' then some (.plus, s)
  else if c = '?' then some (.optional, s)
  else if c = '|' then some (.alternative, s)
  else if c = '.' then some (.any, s)
  else if c = '^' then some (.start, s)
  else if c = '$' then some (.stop, s)
  else some (.literal c, s)

def readTokens : ℕ → Pattern → Option (List Token)
  | _, [] => some []
  | 0, _ :: _ => none
  | n + 1, c :: s => do
    let (t, rest) ← readToken c s
    let ts ← readTokens n rest
    return t :: ts

def tokens (v : Pattern) : Option (List Token) := readTokens v.length v

theorem readMembers_length {s : Pattern} {r : List Member × Pattern} (h : readMembers s = some r) :
    r.2.length ≤ s.length := by
  fun_induction readMembers s generalizing r with
  | case1 | case3 | case4 | case5 => simp at h
  | case2 s =>
    obtain rfl := Option.some.inj h
    simp
  | case6 next s' halnum _ _ ih | case7 c s hclose hopen hslash ih =>
    obtain ⟨r', hr', rfl⟩ := Option.map_eq_some_iff.mp h
    have := ih hr'
    simp only [List.length_cons]
    omega

theorem readToken_length {c : Char} {s rest : Pattern} {t : Token}
    (h : readToken c s = some (t, rest)) : rest.length ≤ s.length := by
  have hself : ∀ {t'}, some (t', s) = some (t, rest) → rest.length ≤ s.length := by
    intro t' heq
    rw [← (Prod.mk.inj (Option.some.inj heq)).2]
  have hdrop : ∀ {t' n}, some (t', s.drop n) = some (t, rest) → rest.length ≤ s.length := by
    intro t' n heq
    rw [← (Prod.mk.inj (Option.some.inj heq)).2, List.length_drop]
    omega
  unfold readToken at h
  by_cases hslash : c = '\\'
  · rw [if_pos hslash] at h
    cases s with
    | nil => cases h
    | cons c' s =>
      simp only [readEscape] at h
      have hlen : rest = s := by
        split_ifs at h
        all_goals exact (Prod.mk.inj (Option.some.inj h)).2.symm
      simp [hlen]
  rw [if_neg hslash] at h
  by_cases hopen : c = '['
  · rw [if_pos hopen] at h
    simp only [readClass] at h
    rw [Option.ite_none_left_eq_some] at h
    obtain ⟨-, hmap⟩ := h
    obtain ⟨r, hr, heq⟩ := Option.map_eq_some_iff.mp hmap
    have hread := readMembers_length hr
    have hbody : (if s.head? = some '^' then s.drop 1 else s).length ≤ s.length := by
      split <;> simp
    rw [← (Prod.mk.inj heq).2]
    omega
  rw [if_neg hopen] at h
  by_cases hgroup : c = '('
  · rw [if_pos hgroup] at h
    unfold readGroup at h
    split_ifs at h
    · exact hself h
    · exact hdrop h
  rw [if_neg hgroup] at h
  by_cases hbrace : c = '{'
  · rw [if_pos hbrace] at h
    obtain ⟨q, -, heq⟩ := Option.map_eq_some_iff.mp h
    exact hdrop (congrArg some heq)
  · rw [if_neg hbrace] at h
    split_ifs at h
    all_goals exact hself h

/-! ## Well formed patterns -/

/-- A code unit of a class, and whether it is a hyphen that may make a range. -/
def Member.units : Member → List (ℕ × Bool)
  | .plain c => (codeUnits c).map fun u => (u, decide (c = '-'))
  | .escaped c => (codeUnits c).map fun u => (u, false)

def rangesInOrder : List (ℕ × Bool) → Bool
  | a :: b :: c :: us =>
    if b.2 then decide (a.1 ≤ c.1) && rangesInOrder us else rangesInOrder (b :: c :: us)
  | _ => true

inductive Before
  | nothing
  | atom
  | quantified
deriving DecidableEq, Repr

def Bounds.inOrder (b : Bounds) : Bool := b.high.all fun high => b.low ≤ high

/-- Well formed, with `depth` groups open. -/
def wellFormedFrom : ℕ → Before → List Token → Bool
  | depth, _, [] => depth = 0
  | depth, before, t :: ts =>
    match t with
    | .literal _ | .escaped _ | .shorthand _ | .any => wellFormedFrom depth .atom ts
    | .members _ ms => rangesInOrder (ms.flatMap Member.units) && wellFormedFrom depth .atom ts
    | .boundary _ | .start | .stop | .alternative => wellFormedFrom depth .nothing ts
    | .group | .plainGroup => wellFormedFrom (depth + 1) .nothing ts
    | .close => decide (0 < depth) && wellFormedFrom (depth - 1) .atom ts
    | .star | .plus => decide (before = .atom) && wellFormedFrom depth .quantified ts
    | .optional =>
      match before with
      | .nothing => false
      | .atom => wellFormedFrom depth .quantified ts
      -- a second `?` makes a quantifier lazy
      | .quantified => wellFormedFrom depth .nothing ts
    | .counted b =>
      decide (before = .atom) && b.inOrder && wellFormedFrom depth .quantified ts

def wellFormed (ts : List Token) : Prop := wellFormedFrom 0 .nothing ts = true

instance (ts : List Token) : Decidable (wellFormed ts) := inferInstanceAs (Decidable (_ = true))

/-! ## What else PCRE refuses -/

def maxBound : ℕ := 65535

def Bounds.large (b : Bounds) : Prop := maxBound < b.low ∨ ∃ high ∈ b.high, maxBound < high

instance (b : Bounds) : Decidable b.large := by
  unfold Bounds.large
  infer_instance

def Member.char : Member → Char
  | .plain c => c
  | .escaped c => c

/-- A class opens with a bracket and one of `.`, `=` and `:`, as a collating element does, and
closes with the same character and a bracket. An escaped bracket before that character inside ends
the element, as a second opening would. -/
def collating (negated : Bool) : List Member → Prop
  | .plain c :: m :: ms =>
    negated = false ∧ (c = '.' ∨ c = '=' ∨ c = ':') ∧ ((m :: ms).getLast?.map Member.char = some c) ∧
      ¬[Member.escaped '[', .plain c] <:+: m :: ms
  | _ => False

instance (negated : Bool) (ms : List Member) : Decidable (collating negated ms) := by
  unfold collating
  split <;> infer_instance

/-- The bounds are such that JavaScript engines count them; from `2 ^ 31` on they need not. -/
def Token.countable : Token → Prop
  | .counted b => b.low < 2 ^ 31 ∧ ∀ high ∈ b.high, high < 2 ^ 31
  | _ => True

instance (t : Token) : Decidable t.countable := by
  unfold Token.countable
  split <;> infer_instance

def Token.refused : Token → Prop
  | .counted b => b.large
  | .members negated ms => collating negated ms
  | _ => False

instance (t : Token) : Decidable t.refused := by
  unfold Token.refused
  split <;> infer_instance

theorem Token.countable_of_not_refused {t : Token} (h : ¬t.refused) : t.countable := by
  cases t with
  | counted b =>
    simp only [Token.refused, Bounds.large, maxBound, not_or, not_exists, not_and, not_lt] at h
    refine ⟨by omega, fun high hhigh => ?_⟩
    have hle := h.2 high hhigh
    omega
  | _ => trivial

end Insula.WafPathPattern
