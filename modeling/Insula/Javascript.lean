import Mathlib.Data.List.DropRight
import Mathlib.Data.Rat.Floor

/-!
# Built-in functions of the source languages
-/

namespace Insula.Javascript

def mathRound (x : ℚ) : ℤ := ⌊x + 1 / 2⌋

def truthy (s : Option String) : Bool := s.any (fun t => t != "")

def codeUnits (c : Char) : List ℕ :=
  if c.toNat < 65536 then [c.toNat]
  else [0xd800 + (c.toNat - 65536) / 1024, 0xdc00 + (c.toNat - 65536) % 1024]

def utf16 (s : List Char) : List ℕ := s.flatMap codeUnits

def utf16Length (s : List Char) : ℕ := (s.map fun c => if c.toNat < 65536 then 1 else 2).sum

def length (s : String) : ℕ := utf16Length s.toList

def startsWith (s t : String) : Bool := t.toList.isPrefixOf s.toList

def includes (s t : String) : Bool := s.toList.tails.any fun suffix => t.toList.isPrefixOf suffix

/-- `slice` with one argument, on a string whose first characters are in the basic plane. -/
def slice (s : String) (start : ℕ) : String := String.ofList (s.toList.drop start)

/-- `slice(0, n)`, as it is then encoded in UTF-8: half a pair becomes the replacement character. -/
def sliceTo : ℕ → List Char → List Char
  | 0, _ | _, [] => []
  | n + 1, c :: s =>
    if c.toNat < 65536 then c :: sliceTo n s
    else if n = 0 then [Char.ofNat 0xfffd] else c :: sliceTo (n - 1) s

def stripTrailingSlash (s : String) : String :=
  if s.toList.getLast? = some '/' then String.ofList s.toList.dropLast else s

def isSpace (c : Char) : Bool :=
  c.toNat ∈ [9, 10, 11, 12, 13, 32, 0xa0, 0x1680, 0x2028, 0x2029, 0x202f, 0x205f, 0x3000, 0xfeff] ||
    (0x2000 ≤ c.toNat && c.toNat ≤ 0x200a)

def trim (s : List Char) : List Char := (s.dropWhile isSpace).rdropWhile isSpace

/-- `/^\d+$/`. -/
def digits (s : List Char) : Bool := s ≠ [] && s.all Char.isDigit

def number (s : List Char) : ℕ := Nat.ofDigitChars 10 s 0

def readSign : List Char → List Char × List Char
  | '-' :: rest => (['-'], rest)
  | '+' :: rest => (['+'], rest)
  | s => ([], s)

/-! ## Code units -/

/-- The code units of one character. -/
theorem utf16_cons (c : Char) (s : List Char) : utf16 (c :: s) = (if c.toNat < 65536 then [c.toNat]
      else [0xd800 + (c.toNat - 65536) / 1024, 0xdc00 + (c.toNat - 65536) % 1024]) ++ utf16 s :=
  List.flatMap_cons

theorem utf16_injective : Function.Injective utf16 := by
  have hvalid : ∀ c : Char, c.toNat < 0xd800 ∨ (0xdfff < c.toNat ∧ c.toNat < 0x110000) :=
    fun c => c.valid
  intro s
  induction s with
  | nil =>
    intro t h
    cases t with
    | nil => rfl
    | cons d t =>
      rw [utf16_cons] at h
      split_ifs at h
      · cases h
      · cases h
  | cons c s ih =>
    intro t h
    cases t with
    | nil =>
      rw [utf16_cons] at h
      split_ifs at h
      · cases h
      · cases h
    | cons d t =>
      have hc := hvalid c
      have hd := hvalid d
      rw [utf16_cons, utf16_cons] at h
      have hheads : c.toNat = d.toNat ∧ utf16 s = utf16 t := by
        split_ifs at h
        · obtain ⟨hhead, htail⟩ := List.cons_eq_cons.mp h
          exact ⟨hhead, htail⟩
        · have := (List.cons_eq_cons.mp h).1
          omega
        · have := (List.cons_eq_cons.mp h).1
          omega
        · obtain ⟨hhigh, htail⟩ := List.cons_eq_cons.mp h
          obtain ⟨hlow, htail⟩ := List.cons_eq_cons.mp htail
          exact ⟨by omega, htail⟩
      rw [Char.toNat_inj.mp hheads.1, ih hheads.2]

end Insula.Javascript

namespace Insula.Go

/-- `unicode.IsSpace`. -/
def isSpace (c : Char) : Bool :=
  c.toNat ∈ [9, 10, 11, 12, 13, 32, 0x85, 0xa0, 0x1680, 0x2028, 0x2029, 0x202f, 0x205f, 0x3000] ||
    (0x2000 ≤ c.toNat && c.toNat ≤ 0x200a)

end Insula.Go
