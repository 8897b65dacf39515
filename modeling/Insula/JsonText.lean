import Mathlib.Data.Char
import Mathlib.Data.List.Basic

/-!
# Texts of JSON

`JSON.parse` on every text, and `JSON.stringify` on objects whose members are strings or null. Texts
consist of characters, so a surrogate that an escape writes alone is read as the replacement
character. Of a number the numeral is kept.
-/

namespace Insula.JsonText

abbrev Text := List Char

inductive Value
  | null
  | bool (b : Bool)
  | number (numeral : Text)
  | string (s : Text)
  | array (items : List Value)
  | object (members : List (Text × Value))

/-! ## Strings -/

def escapes : List (Char × Char) :=
  [('"', '"'), ('\\', '\\'), ('n', '\n'), ('r', '\r'), ('t', '\t'), ('b', '\x08'), ('f', '\x0c')]

def hexDigit (n : ℕ) : Char := Nat.digitChar n

def quoteChar (c : Char) : Text :=
  match escapes.find? fun e => e.2 == c with
  | some e => ['\\', e.1]
  | none =>
    if c.toNat < 0x20 then ['\\', 'u', '0', '0', hexDigit (c.toNat / 16),
      hexDigit (c.toNat % 16)] else [c]

def quote (s : Text) : Text := '"' :: (s.flatMap quoteChar ++ ['"'])

def unescape (e : Char) : Option Char :=
  if e = '/' then some '/' else (escapes.find? fun x => x.1 == e).map Prod.snd

def hexValue (c : Char) : Option ℕ :=
  if c.isDigit then some (c.toNat - 48)
  else if 'a' ≤ c ∧ c ≤ 'f' then some (c.toNat - 87)
  else if 'A' ≤ c ∧ c ≤ 'F' then some (c.toNat - 55)
  else none

def hexCode (ds : Text) : Option ℕ := ds.foldlM (fun n d => (hexValue d).map (16 * n + ·)) 0

def readUnits : Text → Option (List (Char ⊕ ℕ) × Text)
  | [] => none
  | '"' :: rest => some ([], rest)
  | '\\' :: 'u' :: a :: b :: c :: d :: rest =>
    (hexCode [a, b, c, d]).bind fun n => (readUnits rest).map fun p => (.inr n :: p.1, p.2)
  | '\\' :: e :: rest =>
    (unescape e).bind fun c => (readUnits rest).map fun p => (.inl c :: p.1, p.2)
  | c :: rest =>
    if c.toNat < 0x20 ∨ c = '\\' then none else (readUnits rest).map fun p => (.inl c :: p.1, p.2)

def highSurrogate (n : ℕ) : Bool := 0xd800 ≤ n && n < 0xdc00

def lowSurrogate (n : ℕ) : Bool := 0xdc00 ≤ n && n < 0xe000

def replacement : Char := '\uFFFD'

def unitChar (n : ℕ) : Char := if highSurrogate n || lowSurrogate n then replacement else Char.ofNat n

def joinUnits : List (Char ⊕ ℕ) → Text
  | [] => []
  | .inl c :: us => c :: joinUnits us
  | .inr n :: .inr m :: us =>
    if highSurrogate n && lowSurrogate m then
      Char.ofNat (0x10000 + 0x400 * (n - 0xd800) + (m - 0xdc00)) :: joinUnits us
    else unitChar n :: joinUnits (.inr m :: us)
  | .inr n :: us => unitChar n :: joinUnits us

def readString (t : Text) : Option (Text × Text) := (readUnits t).map fun p => (joinUnits p.1, p.2)

/-! ## Values -/

def blank (c : Char) : Bool := c == ' ' || c == '\t' || c == '\n' || c == '\r'

def skip (t : Text) : Text := t.dropWhile blank

def readDigits (t : Text) : Option (Text × Text) :=
  if t.takeWhile Char.isDigit = [] then none else some
  (t.takeWhile Char.isDigit, t.dropWhile Char.isDigit)

def readWhole : Text → Option (Text × Text)
  | '0' :: rest => some (['0'], rest)
  | t => readDigits t

def readFraction : Text → Option (Text × Text)
  | '.' :: rest => (readDigits rest).map fun p => ('.' :: p.1, p.2)
  | t => some ([], t)

def readExponent : Text → Option (Text × Text)
  | e :: rest =>
    if e = 'e' ∨ e = 'E' then
      let sign := rest.takeWhile (fun c => c == '+' || c == '-') |>.take 1
      (readDigits (rest.drop sign.length)).map fun p => (e :: (sign ++ p.1), p.2)
    else some ([], e :: rest)
  | [] => some ([], [])

def readNumeral (t : Text) : Option (Text × Text) :=
  let sign := (t.takeWhile (· == '-')).take 1
  (readWhole (t.drop sign.length)).bind fun w => (readFraction w.2).bind fun f =>
    (readExponent f.2).map fun e => (sign ++ w.1 ++ f.1 ++ e.1, e.2)

def readPlain : Text → Option (Value × Text)
  | 'n' :: 'u' :: 'l' :: 'l' :: rest => some (.null, rest)
  | 't' :: 'r' :: 'u' :: 'e' :: rest => some (.bool true, rest)
  | 'f' :: 'a' :: 'l' :: 's' :: 'e' :: rest => some (.bool false, rest)
  | t => (readNumeral t).map fun p => (.number p.1, p.2)

mutual

def readValue : ℕ → Text → Option (Value × Text)
  | 0, _ => none
  | n + 1, t =>
    match skip t with
    | '"' :: rest => (readString rest).map fun p => (.string p.1, p.2)
    | '[' :: rest =>
      match skip rest with
      | ']' :: rest => some (.array [], rest)
      | rest => (readItems n rest).map fun p => (.array p.1, p.2)
    | '{' :: rest =>
      match skip rest with
      | '}' :: rest => some (.object [], rest)
      | rest => (readMembers n rest).map fun p => (.object p.1, p.2)
    | rest => readPlain rest

def readItems : ℕ → Text → Option (List Value × Text)
  | 0, _ => none
  | n + 1, t =>
    (readValue n t).bind fun v =>
      match skip v.2 with
      | ',' :: rest => (readItems n rest).map fun p => (v.1 :: p.1, p.2)
      | ']' :: rest => some ([v.1], rest)
      | _ => none

def readMembers : ℕ → Text → Option (List (Text × Value) × Text)
  | 0, _ => none
  | n + 1, t =>
    match skip t with
    | '"' :: rest =>
      (readString rest).bind fun name =>
        match skip name.2 with
        | ':' :: rest =>
          (readValue n rest).bind fun v =>
            match skip v.2 with
            | ',' :: rest => (readMembers n rest).map fun p => ((name.1, v.1) :: p.1, p.2)
            | '}' :: rest => some ([(name.1, v.1)], rest)
            | _ => none
        | _ => none
    | _ => none

end

/-- `JSON.parse`. Every turn of the readers takes a character, so the length of the text is fuel
enough. -/
def parse (t : Text) : Option Value :=
  match readValue (t.length + 1) t with
  | some (v, rest) => if skip rest = [] then some v else none
  | none => none

def member (name : Text) (members : List (Text × Value)) : Option Value :=
  (members.reverse.find? fun m => m.1 == name).map Prod.snd

def stringifyField : Option Text → Text
  | none => ['n', 'u', 'l', 'l']
  | some s => quote s

def stringifyMembers : List (Text × Option Text) → Text
  | [] => []
  | [m] => quote m.1 ++ ':' :: stringifyField m.2
  | m :: m' :: ms => quote m.1 ++ ':' :: (stringifyField m.2 ++ ',' :: stringifyMembers (m' :: ms))

def stringify (members : List (Text × Option Text)) : Text := '{' :: (stringifyMembers members ++ ['}'])

/-! ## Reading back -/

def fieldValue : Option Text → Value
  | none => .null
  | some s => .string s

theorem find?_code {c : Char} (h : escapes.find? (fun e => e.2 == c) = none) : c ≠ '"' ∧ c ≠ '\\' := by
  constructor
  · rintro rfl
    cases h
  · rintro rfl
    cases h

theorem hexCode_control : ∀ n < 0x20, hexCode
    ['0', '0', hexDigit (n / 16), hexDigit (n % 16)] = some n := by
  decide

def unitOf (c : Char) : Char ⊕ ℕ :=
  match escapes.find? fun e => e.2 == c with
  | some _ => .inl c
  | none => if c.toNat < 0x20 then .inr c.toNat else .inl c

theorem unescape_find? : ∀ e ∈ escapes, unescape e.1 = some e.2 ∧ e.1 ≠ 'u' := by
  decide

theorem readUnits_escape {e c : Char} (hu : e ≠ 'u') (h : unescape e = some c) (rest : Text) :
    readUnits ('\\' :: e :: rest) = (readUnits rest).map fun p => (.inl c :: p.1, p.2) := by
  rw [readUnits, h]
  · rfl
  · rintro a b c d rest' rfl
    exact fun _ => hu rfl

theorem readUnits_quoteChar (c : Char) (rest : Text) :
    readUnits (quoteChar c ++ rest) = (readUnits rest).map fun p => (unitOf c :: p.1, p.2) := by
  rw [quoteChar, unitOf]
  cases hfind : escapes.find? fun e => e.2 == c with
  | some e =>
    obtain ⟨hescape, hu⟩ := unescape_find? e (List.mem_of_find?_eq_some hfind)
    have hc : (e.2 == c) = true := @List.find?_some _ (fun e : Char × Char => e.2 == c) _ _ hfind
    rw [eq_of_beq hc] at hescape
    exact readUnits_escape hu hescape rest
  | none =>
    obtain ⟨hquote, hslash⟩ := find?_code hfind
    by_cases hcontrol : c.toNat < 0x20
    · simp only [if_pos hcontrol, List.cons_append, List.nil_append]
      rw [readUnits, hexCode_control _ hcontrol, Option.bind_some]
    · simp only [if_neg hcontrol, List.cons_append, List.nil_append]
      rw [readUnits, if_neg (not_or.mpr ⟨hcontrol, hslash⟩)]
      · exact hquote
      · intro _ _ _ _ _ h _
        exact hslash h
      · intro _ _ h _
        exact hslash h

theorem readUnits_quoted (s rest : Text) :
    readUnits (s.flatMap quoteChar ++ '"' :: rest) = some (s.map unitOf, rest) := by
  induction s with
  | nil => rfl
  | cons c s ih =>
    rw [List.flatMap_cons, List.append_assoc, readUnits_quoteChar, ih]
    rfl

theorem joinUnits_control {n : ℕ} (h : n < 0x20) (us : List (Char ⊕ ℕ)) :
    joinUnits (.inr n :: us) = Char.ofNat n :: joinUnits us := by
  have hhigh : highSurrogate n = false := by
    rw [highSurrogate, Bool.and_eq_false_iff, decide_eq_false_iff_not]
    omega
  have hlow : lowSurrogate n = false := by
    rw [lowSurrogate, Bool.and_eq_false_iff, decide_eq_false_iff_not]
    omega
  have hunit : unitChar n = Char.ofNat n := by
    rw [unitChar, hhigh, hlow]
    rfl
  match us with
  | .inr m :: us =>
    rw [joinUnits, hhigh, hunit]
    rfl
  | [] => exact congrArg (· :: _) hunit
  | .inl c :: us => exact congrArg (· :: _) hunit

theorem joinUnits_unitOf (s : Text) : joinUnits (s.map unitOf) = s := by
  induction s with
  | nil => rfl
  | cons c s ih =>
    rw [List.map_cons, unitOf]
    split
    · rw [joinUnits, ih]
    · split
      next h => rw [joinUnits_control h, ih, Char.ofNat_toNat]
      next h => rw [joinUnits, ih]

theorem readString_quoted (s rest : Text) :
    readString (s.flatMap quoteChar ++ '"' :: rest) = some (s, rest) := by
  rw [readString, readUnits_quoted, Option.map_some, joinUnits_unitOf]

theorem quote_append (s rest : Text) : quote s ++ rest = '"' :: (s.flatMap quoteChar ++ '"' :: rest) := by
  rw [quote, List.cons_append, List.append_assoc, List.singleton_append]

theorem readValue_field (n : ℕ) (v : Option Text) (rest : Text) :
    readValue (n + 1) (stringifyField v ++ rest) = some (fieldValue v, rest) := by
  cases v with
  | none => rfl
  | some s =>
    rw [stringifyField, quote_append, readValue]
    have hskip : skip ('"' :: (s.flatMap quoteChar ++ '"' :: rest)) =
        '"' :: (s.flatMap quoteChar ++ '"' :: rest) := rfl
    rw [hskip]
    simp only [readString_quoted, Option.map_some, fieldValue]

def memberValues (members : List (Text × Option Text)) : List (Text × Value) :=
  members.map fun m => (m.1, fieldValue m.2)

theorem readMembers_cons (n : ℕ) (m : Text × Option Text) (t : Text) :
    readMembers (n + 2) (quote m.1 ++ ':' :: (stringifyField m.2 ++ t)) =
      match skip t with
      | ',' :: rest => (readMembers (n + 1) rest).map fun p => ((m.1, fieldValue m.2) :: p.1, p.2)
      | '}' :: rest => some ([(m.1, fieldValue m.2)], rest)
      | _ => none := by
  have hskip : ∀ t, skip ('"' :: t) = '"' :: t := fun _ => rfl
  have hcolon : ∀ t, skip (':' :: t) = ':' :: t := fun _ => rfl
  rw [quote_append, readMembers, hskip]
  simp only [readString_quoted, Option.bind_some, hcolon, readValue_field]

theorem readMembers_stringify {members : List (Text × Option Text)} (hne : members ≠ []) (n : ℕ)
    (hn : members.length < n) (rest : Text) :
    readMembers n (stringifyMembers members ++ '}' :: rest) = some (memberValues members, rest) := by
  induction members generalizing n with
  | nil => exact absurd rfl hne
  | cons m members ih =>
    rw [List.length_cons] at hn
    obtain ⟨k, rfl⟩ : ∃ k, n = k + 2 := ⟨n - 2, by omega⟩
    cases members with
    | nil =>
      rw [stringifyMembers, List.append_assoc, List.cons_append, readMembers_cons]
      rfl
    | cons m' ms =>
      have hrest := ih (by simp) (k + 1) (by omega)
      rw [stringifyMembers, List.append_assoc, List.cons_append, List.append_assoc, readMembers_cons,
        List.cons_append]
      have hskip : ∀ t, skip (',' :: t) = ',' :: t := fun _ => rfl
      rw [hskip]
      simp only [hrest, Option.map_some]
      rfl

theorem length_le_stringify (members : List (Text × Option Text)) :
    members.length ≤ (stringifyMembers members).length := by
  induction members with
  | nil => exact Nat.le_refl _
  | cons m members ih =>
    have hquote : 0 < (quote m.1).length := Nat.succ_pos _
    cases members with
    | nil =>
      have happend := @List.length_append _ (quote m.1) (':' :: stringifyField m.2)
      rw [stringifyMembers, List.length_singleton]
      omega
    | cons m' ms =>
      rw [List.length_cons]
      simp only [stringifyMembers, List.length_append, List.length_cons] at ih ⊢
      omega

theorem readValue_object (n : ℕ) (t : Text) :
    readValue (n + 1) ('{' :: '"' :: t) = (readMembers n ('"' :: t)).map fun p => (.object p.1, p.2) := rfl

/-- An object is read back. -/
theorem parse_stringify {members : List (Text × Option Text)} (hne : members ≠ []) :
    parse (stringify members) = some (.object (memberValues members)) := by
  have hlength := length_le_stringify members
  have hread : readMembers (stringify members).length (stringifyMembers members ++ ['}']) =
      some (memberValues members, []) := by
    apply readMembers_stringify hne
    have hbody : (stringify members).length = (stringifyMembers members).length + 2 := by
      simp only [stringify, List.length_cons, List.length_append, List.length_nil]
    omega
  have hquote : ∃ t, stringifyMembers members = '"' :: t := by
    match members, hne with
    | [m], _ => exact ⟨_, quote_append _ _⟩
    | m :: m' :: ms, _ => exact ⟨_, quote_append _ _⟩
  obtain ⟨t, ht⟩ := hquote
  rw [ht, List.cons_append] at hread
  have hvalue : readValue ((stringify members).length + 1) (stringify members) =
      some (.object (memberValues members), []) := by
    generalize (stringify members).length = n at hread ⊢
    rw [stringify, ht, List.cons_append, readValue_object, hread]
    rfl
  rw [parse, hvalue]
  rfl

end Insula.JsonText
