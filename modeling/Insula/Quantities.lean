import Insula.Javascript
import Mathlib

/-!
# Numbers and quantities

The numbers of the language, with what does not round exactly left to a function, and the two
parsers of resource quantities.
-/

namespace Insula.Quantities

open Javascript (readSign trim)

abbrev Text := List Char

inductive Number
  | nan
  | posInf
  | negInf
  | fin (q : ℚ)
  deriving DecidableEq

structure Arithmetic where
  /-- The nearest number. -/
  round : ℚ → Number
  text : Number → String

namespace Number

def gt : Number → Number → Bool
  | .nan, _ => false
  | _, .nan => false
  | .posInf, .posInf => false
  | .posInf, _ => true
  | .negInf, _ => false
  | .fin _, .posInf => false
  | .fin _, .negInf => true
  | .fin a, .fin b => decide (b < a)

def infinite (positive : Bool) : Number := if positive then .posInf else .negInf

variable (arith : Arithmetic)

def add : Number → Number → Number
  | .fin a, .fin b => arith.round (a + b)
  | .nan, _ => .nan
  | _, .nan => .nan
  | .posInf, .negInf => .nan
  | .negInf, .posInf => .nan
  | .posInf, _ => .posInf
  | .negInf, _ => .negInf
  | .fin _, .posInf => .posInf
  | .fin _, .negInf => .negInf

def sub (x : Number) : Number → Number
  | .fin b => add arith x (.fin (-b))
  | .posInf => add arith x .negInf
  | .negInf => add arith x .posInf
  | .nan => .nan

def times (x : Number) (factor : ℚ) : Number :=
  match x with
  | .fin a => arith.round (a * factor)
  | x => x

end Number

/-! ## The text of a number -/

def isDigit (c : Char) : Bool := '0' ≤ c && c ≤ '9'

def digitValue (c : Char) : ℕ := c.toNat - '0'.toNat

structure Mantissa where
  value : ℚ
  before : ℕ
  point : Bool
  after : ℕ
  rest : Text

def readMantissa (t : Text) : Mantissa :=
  let whole := t.takeWhile isDigit
  match t.dropWhile isDigit with
  | '.' :: r =>
    let fraction := r.takeWhile isDigit
    { value := (Javascript.number (whole ++ fraction) : ℚ) / 10 ^ fraction.length
      before := whole.length, point := true, after := fraction.length
      rest := r.dropWhile isDigit }
  | r => { value := Javascript.number whole, before := whole.length, point := false, after := 0, rest := r }

/-- `e`, a sign and digits: the power of ten, and what follows. -/
def readExponent : Text → Option (ℚ × Text)
  | c :: t =>
    if c = 'e' || c = 'E' then
      let (sign, r) := readSign t
      let digits := r.takeWhile isDigit
      if digits.isEmpty then none
      else
        let power : ℚ := 10 ^ Javascript.number digits
        some (if sign = ['-'] then power⁻¹ else power, r.dropWhile isDigit)
    else none
  | [] => none

section Parsers

variable (arith : Arithmetic)

def decimalLiteral (t : Text) : Option ℚ :=
  let m := readMantissa t
  if m.before + m.after = 0 then none
  else
    match m.rest with
    | [] => some m.value
    | rest =>
      match readExponent rest with
      | some (power, []) => some (m.value * power)
      | _ => none

def radixDigit (c : Char) : ℕ :=
  if isDigit c then digitValue c
  else if 'a' ≤ c && c ≤ 'f' then c.toNat - 'a'.toNat + 10
  else if 'A' ≤ c && c ≤ 'F' then c.toNat - 'A'.toNat + 10
  else 16

def radixLiteral (radix : ℕ) (t : Text) : Option ℚ :=
  if t.isEmpty || t.any (fun c => decide (radix ≤ radixDigit c)) then none
  else some (t.foldl (fun n c => n * radix + radixDigit c) 0 : ℕ)

def radixOf : Text → Option (ℕ × Text)
  | '0' :: c :: t =>
    if c = 'x' || c = 'X' then some (16, t)
    else if c = 'o' || c = 'O' then some (8, t)
    else if c = 'b' || c = 'B' then some (2, t)
    else none
  | _ => none

def roundOr : Option ℚ → Number
  | some q => arith.round q
  | none => .nan

def signedLiteral (t : Text) : Number :=
  let (sign, r) := readSign t
  if r = "Infinity".toList then Number.infinite (sign ≠ ['-'])
  else roundOr arith ((decimalLiteral r).map fun q => if sign = ['-'] then -q else q)

def number (s : Text) : Number :=
  match trim s with
  | [] => .fin 0
  | t =>
    match radixOf t with
    | some (radix, r) => roundOr arith (radixLiteral radix r)
    | none => signedLiteral arith t

def endsWith (t suffix : Text) : Bool := suffix.isSuffixOf t

def cutEnd (t : Text) (n : ℕ) : Text := t.take (t.length - n)

inductive ResourceUnit
  | cpu | memory
  deriving DecidableEq

def parseResourceValue (value : Text) : ResourceUnit → Number
  | .cpu =>
    let t := trim value
    if endsWith t ['n'] then (number arith (cutEnd t 1)).times arith (1 / 1000000000)
    else if endsWith t ['m'] then (number arith (cutEnd t 1)).times arith (1 / 1000)
    else number arith t
  | .memory =>
    let t := trim value
    if endsWith t "Gi".toList then number arith (cutEnd t 2)
    else if endsWith t "Mi".toList then (number arith (cutEnd t 2)).times arith (1 / 1024)
    else if endsWith t "Ki".toList then (number arith (cutEnd t 2)).times arith (1 / (1024 * 1024))
    else (number arith t).times arith (1 / (1024 * 1024 * 1024))

def suffixFactor : Text → Option Number
  | [] => some (.fin 1)
  | ['K', 'i'] => some (.fin 1024)
  | ['M', 'i'] => some (.fin (1024 ^ 2))
  | ['G', 'i'] => some (.fin (1024 ^ 3))
  | ['T', 'i'] => some (.fin (1024 ^ 4))
  | ['P', 'i'] => some (.fin (1024 ^ 5))
  | ['E', 'i'] => some (.fin (1024 ^ 6))
  | ['n'] => some (arith.round (1 / 10 ^ 9))
  | ['u'] => some (arith.round (1 / 10 ^ 6))
  | ['m'] => some (arith.round (1 / 10 ^ 3))
  | ['k'] => some (.fin (10 ^ 3))
  | ['K'] => some (.fin (10 ^ 3))
  | ['M'] => some (.fin (10 ^ 6))
  | ['G'] => some (.fin (10 ^ 9))
  | ['T'] => some (.fin (10 ^ 12))
  | ['P'] => some (.fin (10 ^ 15))
  | ['E'] => some (.fin (10 ^ 18))
  | _ => none

def readQuantity (t : Text) : Option (ℚ × Text) :=
  let (sign, r) := readSign t
  let m := readMantissa r
  let value := if sign = ['-'] then -m.value else m.value
  if m.before = 0 || (m.point && m.after = 0) then none
  else
    match readExponent m.rest with
    | some (power, rest) => some (value * power, rest)
    | none => some (value, m.rest)

/-- In the base unit of the resource; `none` for what is not a quantity. -/
def parseK8sQuantity (value : Text) : Option Number :=
  match readQuantity (trim value) with
  | none => none
  | some (q, suffix) =>
    match arith.round q, suffixFactor arith suffix with
    | .fin n, some (.fin factor) =>
      if suffix.isEmpty then some (.fin n) else some (arith.round (n * factor))
    | _, _ => none

end Parsers

def exactArithmetic : Arithmetic where
  round := .fin
  text
    | .nan => "NaN"
    | .posInf => "Infinity"
    | .negInf => "-Infinity"
    | .fin q => toString q

end Insula.Quantities
